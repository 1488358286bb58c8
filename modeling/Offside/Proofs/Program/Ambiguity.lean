import Offside.Proofs.Program.Numerals
import Offside.Proofs.Program.ReadBack

/-! What the text of an expression tells about it.

The text of an expression that was read from a source text shows its pieces, and shows nothing else: two
such expressions have the same text exactly if they have the same pieces. Where every operand fits its place
or is printed in parentheses the pieces show the expression. Elsewhere they do not: the parentheses around
an operand of a logical operator, a comparison or a negation are not printed. -/
namespace Offside

open Grammar

/-! ### From pieces to the text and back -/

/-- The kinds of the last piece of an operand. -/
def Kind.endsOperand (kind : Kind) : Bool :=
  kind ∈ [.word, .number, .text, .character, .trueWord, .falseWord, .rightParen]

/-- Turns the words that stand for logical operators into their symbols. These stand after an operand, where
no name stands. -/
def restore : (afterOperand : Bool) → List Piece → List Piece
  | _, [] => []
  | afterOperand, piece :: rest =>
    if afterOperand ∧ piece = LogicOp.and.shown then LogicOp.and.symbol :: restore false rest
    else if afterOperand ∧ piece = LogicOp.or.shown then LogicOp.or.symbol :: restore false rest
    else piece :: restore piece.1.endsOperand rest

/-- How a piece is printed. -/
def Piece.render (piece : Piece) : List Char :=
  match piece.1 with
  | .text => '"' :: (piece.2.toList ++ ['"'])
  | .character => '\'' :: (piece.2.toList ++ ['\''])
  | .and => " and ".toList
  | .or => " or ".toList
  | .comma | .newWord => piece.2.toList ++ [' ']
  | .equal | .notEqual | .less | .greater | .lessEqual | .greaterEqual | .plus | .minus | .times | .divide
  | .modulo => ' ' :: (piece.2.toList ++ [' '])
  | _ => piece.2.toList

namespace Expr

section Restoring

variable {b : Bool} {rest : List Piece}

theorem restore_false_cons (piece : Piece) (rest : List Piece) :
    restore false (piece :: rest) = piece :: restore piece.1.endsOperand rest := by
  simp [restore]

theorem restore_cons_of_ne_word {piece : Piece} (h : piece.1 ≠ .word) :
    restore b (piece :: rest) = piece :: restore piece.1.endsOperand rest := by
  have hand : piece ≠ LogicOp.and.shown := by rintro rfl; exact h rfl
  have hor : piece ≠ LogicOp.or.shown := by rintro rfl; exact h rfl
  simp [restore, hand, hor]

/-- After an operand an operator is read as such. -/
theorem restore_operator (op : Operator) :
    restore true (op.piece LogicOp.shown :: rest) = op.piece LogicOp.symbol :: restore false rest := by
  cases op with
  | logic op => cases op <;> rfl
  | compare op => cases op <;> exact restore_cons_of_ne_word (by decide)
  | arith op => cases op <;> exact restore_cons_of_ne_word (by decide)

/-- The pieces `ps` are an operand as it is printed, and `qs` the same as it is read. -/
def Restores (ps qs : List Piece) : Prop := ∀ rest, restore false (ps ++ rest) = qs ++ restore true rest

theorem Restores.enclosed {ps qs : List Piece} (parentheses : Bool) (h : Restores ps qs) :
    Restores (enclosed parentheses ps) (enclosed parentheses qs) := by
  intro rest
  cases parentheses with
  | false => exact h rest
  | true =>
    show restore false ((.leftParen, "(") :: (ps ++ [(.rightParen, ")")]) ++ rest) = _
    rw [List.cons_append, List.append_assoc, restore_false_cons]
    show (.leftParen, "(") :: restore false (ps ++ ((.rightParen, ")") :: rest)) = _
    rw [h, restore_cons_of_ne_word (by decide)]
    simp [Expr.enclosed, Kind.endsOperand]

theorem Restores.listed {ps qs : List Piece} {pss qss : List (List Piece)} (h : Restores ps qs)
    (hs : List.Forall₂ Restores pss qss) : Restores (listed (ps :: pss)) (listed (qs :: qss)) := by
  induction hs generalizing ps qs with
  | nil => simpa [Expr.listed] using h
  | cons hfirst _ ih =>
    intro rest
    rw [listed_cons_cons, listed_cons_cons, List.append_assoc, h, List.cons_append, restore_cons_of_ne_word (by decide)]
    show qs ++ (.comma, ",") :: restore false _ = _
    rw [ih hfirst]
    simp

/-- Arguments follow a name, but they start with a parenthesis. -/
theorem restore_arguments {pss qss : List (List Piece)} (h : List.Forall₂ Restores pss qss) (rest : List Piece) :
    restore true (enclosed true (listed pss) ++ rest) = enclosed true (listed qss) ++ restore true rest := by
  have hopen : restore true (enclosed true (listed pss) ++ rest) = restore false (enclosed true (listed pss) ++ rest) := by
    show restore true ((.leftParen, "(") :: _) = restore false ((.leftParen, "(") :: _)
    rw [restore_cons_of_ne_word (by decide), restore_cons_of_ne_word (by decide)]
  rw [hopen]
  cases h with
  | nil => rfl
  | cons hfirst hs => exact (hfirst.listed hs).enclosed true rest

theorem Restores.apply (s : String) {pss qss : List (List Piece)} (h : List.Forall₂ Restores pss qss) :
    Restores ((.word, s) :: Expr.enclosed true (Expr.listed pss)) ((.word, s) :: Expr.enclosed true (Expr.listed qss)) := by
  intro rest
  rw [List.cons_append, restore_false_cons]
  exact congrArg _ (restore_arguments h rest)

end Restoring

mutual

/-- The words that stand for logical operators are known by where they stand. -/
theorem restores_pieces (e : Expr) : Restores (e.pieces LogicOp.shown) (e.pieces LogicOp.symbol) := by
  intro rest
  cases e with
  | number | text | character | «variable» => exact restore_false_cons ..
  | truth value => cases value <;> exact restore_false_cons ..
  | not operand =>
    rw [pieces, pieces, List.cons_append, restore_false_cons]
    exact congrArg _ (restores_pieces operand rest)
  | binary op left right =>
    rw [pieces, pieces, List.append_assoc, List.cons_append, (restores_pieces left).enclosed, restore_operator,
      (restores_pieces right).enclosed]
    simp
  | call object method arguments =>
    have hcall := Restores.apply method (restores_piecesEach arguments) rest
    cases object with
    | none => exact hcall
    | some object =>
      rw [pieces, pieces, List.cons_append, List.cons_append, restore_false_cons, restore_cons_of_ne_word (by decide)]
      exact congrArg (fun ps => (.word, object) :: (.dot, ".") :: ps) hcall
  | create cls arguments =>
    rw [pieces, pieces, List.cons_append, restore_false_cons]
    exact congrArg _ (Restores.apply cls (restores_piecesEach arguments) rest)

theorem restores_piecesEach (es : List Expr) :
    List.Forall₂ Restores (piecesEach LogicOp.shown es) (piecesEach LogicOp.symbol es) := by
  cases es with
  | nil => exact .nil
  | cons e rest => exact .cons (restores_pieces e) (restores_piecesEach rest)

end

/-! ### Printing pieces -/

/-- Pieces, one after another. -/
def renderAll (ps : List Piece) : List Char := ps.flatMap Piece.render

theorem renderAll_append (ps qs : List Piece) : renderAll (ps ++ qs) = renderAll ps ++ renderAll qs :=
  List.flatMap_append

theorem renderAll_cons (p : Piece) (ps : List Piece) : renderAll (p :: ps) = p.render ++ renderAll ps :=
  List.flatMap_cons

theorem render_operator (op : Operator) : (op.piece LogicOp.symbol).render = ' ' :: (op.print.toList ++ [' ']) := by
  cases op with
  | logic op | compare op | arith op => cases op <;> rfl

theorem renderAll_enclosed {text : String} {ps : List Piece} (parentheses : Bool) (h : renderAll ps = text.toList) :
    renderAll (enclosed parentheses ps) = (grouped parentheses text).toList := by
  rw [toList_grouped, enclosed]
  cases parentheses with
  | false => exact h
  | true =>
    rw [if_pos rfl, if_pos rfl, renderAll_cons, renderAll_append, h]
    rfl

theorem renderAll_listed {texts : List String} {pss : List (List Piece)}
    (h : List.Forall₂ (fun ps text => renderAll ps = text.toList) pss texts) :
    renderAll (listed pss) = (commaList texts).toList := by
  induction h with
  | nil => rfl
  | @cons ps text pss texts hfirst hs ih =>
    cases hs with
    | nil => simpa [listed, commaList] using hfirst
    | cons =>
      rw [listed_cons_cons, commaList_cons_cons, renderAll_append, renderAll_cons, hfirst, ih]
      rfl

mutual

/-- The text of an expression is what its pieces are printed as. -/
theorem renderAll_pieces (e : Expr) : renderAll (e.pieces LogicOp.symbol) = e.print.toList := by
  cases e with
  | number value => simp [pieces, print, renderAll, Piece.render]
  | text value => simp [pieces, print, renderAll, Piece.render, toString]
  | truth value => cases value <;> rfl
  | character value => simp [pieces, print, renderAll, Piece.render, toString]
  | «variable» name => simp [pieces, print, renderAll, Piece.render]
  | not operand =>
    rw [pieces, renderAll_cons, renderAll_pieces operand]
    simp [print, toString, Piece.render]
  | binary op left right =>
    rw [pieces, renderAll_append, renderAll_cons, render_operator, renderAll_enclosed _ (renderAll_pieces left),
      renderAll_enclosed _ (renderAll_pieces right)]
    simp [print, toString]
  | call object method arguments =>
    have harguments := renderAll_enclosed true (renderAll_listed (renderAll_piecesEach arguments))
    cases object with
    | none =>
      rw [pieces, renderAll_cons, harguments, toList_grouped]
      simp [print, toString, Piece.render]
    | some object =>
      rw [pieces, renderAll_cons, renderAll_cons, renderAll_cons, harguments, toList_grouped]
      simp [print, toString, Piece.render]
  | create cls arguments =>
    have harguments := renderAll_enclosed true (renderAll_listed (renderAll_piecesEach arguments))
    rw [pieces, renderAll_cons, renderAll_cons, harguments, toList_grouped]
    simp [print, toString, Piece.render]

theorem renderAll_piecesEach (es : List Expr) :
    List.Forall₂ (fun ps text => renderAll ps = text.toList) (piecesEach LogicOp.symbol es) (printEach es) := by
  cases es with
  | nil => exact .nil
  | cons e rest => exact .cons (renderAll_pieces e) (renderAll_piecesEach rest)

end

theorem pieces_ne_nil (logic : LogicOp → Piece) (e : Expr) : e.pieces logic ≠ [] := by
  cases e with
  | call object method arguments => cases object <;> simp [pieces]
  | _ => simp [pieces]

/-- Expressions that can be written have the same text exactly if they have the same pieces. -/
theorem print_eq_iff_pieces {e e' : Expr} (h : e.isWritable) (h' : e'.isWritable) :
    e.print = e'.print ↔ e.pieces LogicOp.symbol = e'.pieces LogicOp.symbol := by
  constructor
  · intro hprint
    have hphrased := spells_print h [] [] trivial .nil
    have hphrased' := spells_print h' [] [] trivial .nil
    rw [← hprint] at hphrased'
    have hlexes : LexesAs "" _ _ := lexesAs_of_phrased hphrased (by simp [pieces_ne_nil])
    have hlexes' : LexesAs "" _ _ := lexesAs_of_phrased hphrased' (by simp [pieces_ne_nil])
    obtain ⟨tokens, hlex, hfaces⟩ := hlexes
    obtain ⟨tokens', hlex', hfaces'⟩ := hlexes'
    obtain rfl : tokens = tokens' := by
      rw [hlex] at hlex'
      exact Except.ok.inj hlex'
    have hshown := List.append_cancel_right (hfaces.symm.trans hfaces')
    have hrestored := restores_pieces e []
    rw [hshown, restores_pieces e' []] at hrestored
    simpa [restore] using hrestored.symm
  · intro hpieces
    rw [← String.toList_inj, ← renderAll_pieces, hpieces, renderAll_pieces]

/-- Plain expressions with the same pieces are the same. -/
theorem eq_of_pieces_eq {e e' : Expr} (hw : e.isWritable) (hw' : e'.isWritable) (hp : e.isPlain) (hp' : e'.isPlain)
    (h : e.pieces LogicOp.symbol = e'.pieces LogicOp.symbol) : e = e' := by
  -- Any tokens with these pieces will do: both expressions are read from them.
  let ts : List Token := (e.pieces LogicOp.symbol).map fun p => ⟨p.1, .single ⟨1, 1, ""⟩, p.2⟩
  have hts : ts.map Token.face = e.pieces LogicOp.symbol := by
    simp only [ts, List.map_map]
    exact List.map_id _
  have hread : ∀ e' : Expr, Disjunction ts e' → ∃ s, Parser.expression (Reading.ofTokens ts) = .ok e' s := by
    intro e' hderives
    obtain ⟨s, hs, -⟩ := Parser.expression_complete ts.length (Reading.ofTokens ts) ts [] e' (Nat.le_refl _)
      (List.append_nil ts).symm (Nat.le_refl _) (notNext_nil _) hderives
    exact ⟨s, hs⟩
  obtain ⟨s, hs⟩ := hread e (loose_of_pieces hp hw ts hts).disjunction
  obtain ⟨s', hs'⟩ := hread e' (loose_of_pieces hp' hw' ts (hts.trans h)).disjunction
  rw [hs] at hs'
  injection hs'

end Expr

/-! ### The expressions that are read -/

/-- An expression that is read somewhere in a source text. -/
def Expr.Produced (e : Expr) : Prop :=
  ∃ file source tokens s s', lex file source = .ok tokens ∧ s.cursor.tokens = tokens ∧ s.count = tokens.length ∧
    Parser.expression s = .ok e s'

theorem reserved?_eq_none {s : String} (h : (Kind.reserved? s).getD .word = .word) : Kind.reserved? s = none := by
  unfold Kind.reserved? at h ⊢
  split at h <;> simp_all

theorem Lexeme.isName {kind : Kind} {text : String} {written rest : List Char} (h : Lexeme kind text written rest)
    (hkind : kind = .word) : isName text := by
  cases h with
  | word hne hletters _ => simpa [Offside.isName, hne, reserved?_eq_none hkind] using hletters
  | single hk =>
    unfold Kind.single? at hk
    split at hk <;> cases hk <;> cases hkind
  | pair hk =>
    unfold Kind.pair? at hk
    split at hk <;> cases hk <;> cases hkind
  | integer | decimal | text | character | newline => cases hkind

theorem Lexeme.quote_not_mem {kind : Kind} {text : String} {written rest : List Char}
    (h : Lexeme kind text written rest) (hkind : kind = .text) : '"' ∉ text.toList := by
  have hno : kind ∉ [Kind.text, .character, .newline, .indent, .dedent] → False := by simp [hkind]
  cases h with
  | word => exact (hno (reserved_kinds _)).elim
  | single hk => exact (hno (single_kinds hk)).elim
  | pair hk => exact (hno (pair_kinds hk)).elim
  | text hcs => simpa using hcs
  | integer | decimal | character | newline => cases hkind

/-- Tokens of a source text: what stands for characters is a lexeme. -/
def FromText (ts : List Token) : Prop :=
  ∀ t ∈ ts, t.isLexical → ∃ written rest, Lexeme t.kind t.text written rest

namespace FromText

variable {t : Token} {ts us : List Token}

theorem append (h : FromText (ts ++ us)) : FromText ts ∧ FromText us := List.forall_mem_append.mp h

theorem cons (h : FromText (t :: ts)) : FromText ts := (List.forall_mem_cons.mp h).2

theorem isName (h : FromText (t :: ts)) (ht : t.kind = .word) : isName t.text := by
  obtain ⟨_, _, hlex⟩ := h t (List.mem_cons_self ..) (by simp [Token.isLexical, ht])
  exact hlex.isName ht

theorem quote_not_mem (h : FromText (t :: ts)) (ht : t.kind = .text) : '"' ∉ t.text.toList := by
  obtain ⟨_, _, hlex⟩ := h t (List.mem_cons_self ..) (by simp [Token.isLexical, ht])
  exact hlex.quote_not_mem ht

theorem isUnsigned {value : Float} (h : FromText (t :: ts)) (ht : t.kind = .number)
    (hread : Number.read? t.text = some value) : Number.isUnsigned value := by
  obtain ⟨_, _, hlex⟩ := h t (List.mem_cons_self ..) (by simp [Token.isLexical, ht])
  obtain ⟨n, hn⟩ := hlex.numeral ht
  rw [hn] at hread
  exact Number.isUnsigned_of_read? hread

end FromText

namespace Grammar

variable {n : Nat}

/-- What at most so many tokens of a source text stand for in the language has the property. -/
def Gives {α : Type} (n : Nat) (L : Language α) (P : α → Prop) : Prop :=
  ∀ ts a, ts.length ≤ n → FromText ts → L ts a → P a

theorem Gives.chain {op? : Kind → Option Operator} {L : Language Expr} (h : Gives n L (Expr.isWritable ·)) :
    Gives n (Chain op? L) (Expr.isWritable ·) := by
  intro ts e hlen hfrom hchain
  induction hchain with
  | one hl => exact h _ _ hlen hfrom hl
  | more _ _ hr ih =>
    rw [List.length_append, List.length_cons] at hlen
    obtain ⟨hleft, hright⟩ := hfrom.append
    rw [Expr.isWritable, Bool.and_eq_true]
    exact ⟨ih (by omega) hleft, h _ _ (by omega) hright.cons hr⟩

theorem Gives.separated {separator : Kind} {L : Language Expr} (h : Gives n L (Expr.isWritable ·)) :
    Gives n (Separated separator L) (Expr.areWritable ·) := by
  intro ts es hlen hfrom hs
  induction hs with
  | one hl => simp [Expr.areWritable, h _ _ hlen hfrom hl]
  | more hl _ _ ih =>
    rw [List.length_append, List.length_cons] at hlen
    obtain ⟨hfirst, hrest⟩ := hfrom.append
    rw [Expr.areWritable, Bool.and_eq_true]
    exact ⟨h _ _ (by omega) hfirst hl, ih (by omega) hrest.cons⟩

theorem Gives.arguments (h : Gives n Expression (Expr.isWritable ·)) :
    Gives (n + 1) Arguments (Expr.areWritable ·) := by
  rintro _ _ hlen hfrom @⟨opener, ts, es, closer, -, harguments, -⟩
  rw [List.length_cons, List.length_append] at hlen
  cases harguments with
  | absent => rfl
  | present hs => exact h.separated _ _ (by omega) hfrom.cons.append.1 hs

theorem Gives.invocation (h : Gives n Expression (Expr.isWritable ·)) :
    Gives (n + 1) Invocation fun c => c.toExpr.isWritable := by
  intro ts c hlen hfrom hcall
  cases hcall with
  | own hname hargs =>
    have harguments := h.arguments _ _ (Nat.le_of_succ_le hlen) hfrom.cons hargs
    simp [Call.toExpr, Expr.isWritable, harguments, hfrom.isName hname]
  | qualified hobject hq hdot hname hargs =>
    simp only [List.length_cons] at hlen
    have harguments := h.arguments _ _ (by omega) hfrom.cons.cons.cons hargs
    obtain rfl := (Expr.qualifier_of_isName (hfrom.isName hobject)).mp hq
    simp [Call.toExpr, Expr.isWritable, harguments,
      hfrom.isName hobject, hfrom.cons.cons.isName hname]

theorem Gives.primary (h : Gives n Expression (Expr.isWritable ·)) : Gives (n + 1) Primary (Expr.isWritable ·) := by
  intro ts e hlen hfrom hprimary
  cases hprimary with
  | truth | falsity | character => rfl
  | number ht hread => exact hfrom.isUnsigned ht hread
  | text ht => simpa [Expr.isWritable] using hfrom.quote_not_mem ht
  | «variable» ht => exact hfrom.isName ht
  | parenthesized _ hinner _ =>
    rw [List.length_cons, List.length_append] at hlen
    exact h _ _ (by omega) hfrom.cons.append.1 hinner
  | create _ hname hargs =>
    simp only [List.length_cons] at hlen
    have harguments := h.arguments _ _ (by omega) hfrom.cons.cons hargs
    simp [Expr.isWritable, harguments, hfrom.cons.isName hname]
  | call hcall => exact h.invocation _ _ hlen hfrom hcall

theorem Gives.comparison (h : Gives n Expression (Expr.isWritable ·)) :
    Gives (n + 1) Comparison (Expr.isWritable ·) := by
  intro ts e hlen hfrom hcomparison
  cases hcomparison with
  | not _ hoperand =>
    rw [Expr.isWritable]
    exact h _ _ (Nat.le_of_succ_le_succ hlen) hfrom.cons (.one (.one hoperand))
  | sum hs => exact h.primary.chain.chain _ _ hlen hfrom hs
  | compare hl _ hr =>
    rw [List.length_append, List.length_cons] at hlen
    obtain ⟨hleft, hright⟩ := hfrom.append
    rw [Expr.isWritable, Bool.and_eq_true]
    exact ⟨h.primary.chain.chain _ _ (by omega) hleft hl, h.primary.chain.chain _ _ (by omega) hright.cons hr⟩

/-- Whatever is read from a source text can be written. -/
theorem Gives.expression (n : Nat) : Gives n Expression (Expr.isWritable ·) := by
  induction n with
  | zero =>
    intro ts e hlen _ h
    exact absurd (List.length_eq_zero_iff.mp (Nat.le_zero.mp hlen)) (Parser.expression_starts.ne_nil h)
  | succ n ih =>
    intro ts e hlen hfrom h
    cases h with
    | one hand => exact ih.comparison.chain _ _ hlen hfrom hand
    | or hl _ hr =>
      rw [List.length_append, List.length_cons] at hlen
      obtain ⟨hleft, hright⟩ := hfrom.append
      rw [Expr.isWritable, Bool.and_eq_true]
      exact ⟨ih.comparison.chain _ _ (by omega) hleft hl, ih _ _ (by omega) hright.cons hr⟩

end Grammar

namespace Expr

theorem Produced.isWritable {e : Expr} (h : e.Produced) : e.isWritable := by
  obtain ⟨file, source, tokens, s, s', hlex, htokens, hcount, hread⟩ := h
  have hbounded : s.Bounded := by
    rw [Reading.Bounded, hcount, ← htokens, Cursor.tokens, List.length_append]
    omega
  obtain ⟨ts, hmoved, hderives⟩ := Parser.expression_sound s e s' hbounded hread
  refine Gives.expression ts.length ts e (Nat.le_refl _) (fun t ht => exists_lexeme_of_lex hlex ?_) hderives
  rw [← htokens, Cursor.tokens, hmoved.rest]
  simp [ht]

end Expr

/-! ### Every expression that can be written is read somewhere -/

theorem Spells.append {left right : String} {ps qs : List Piece} (hl : Spells left ps) (hr : Spells right qs) :
    Spells s!"{left} {right}" (ps ++ qs) := by
  intro rest faces hrest hfaces
  have hspace : Closed (' ' :: (right.toList ++ rest)) := by simp [Closed, NotFollowed]
  simpa [toString] using hl _ _ hspace (.space (hr _ _ hrest hfaces))

theorem Spells.negation : Spells "!" [(.not, "!")] := by
  intro rest faces hrest hfaces
  exact .single rfl (hrest.notFollowed (by simp [Kind.pair?])) hfaces

theorem Spells.operator (op : Operator) : ∃ text, Spells text [op.piece LogicOp.symbol] := by
  cases op with
  | logic op =>
    cases op with
    | and => exact ⟨"&&", fun rest faces _ hfaces => .lexeme (.pair rfl) (by decide) hfaces⟩
    | or => exact ⟨"||", fun rest faces _ hfaces => .lexeme (.pair rfl) (by decide) hfaces⟩
  | compare op =>
    refine ⟨s!"{op.print} ", fun rest faces _ hfaces => ?_⟩
    have hop : Phrased (op.print.toList ++ ' ' :: rest) ((Operator.compare op).piece LogicOp.symbol :: faces) :=
      .operator (.compare op) hfaces
    simpa [toString] using hop
  | arith op =>
    refine ⟨s!"{op.print} ", fun rest faces _ hfaces => ?_⟩
    have hop : Phrased (op.print.toList ++ ' ' :: rest) ((Operator.arith op).piece LogicOp.symbol :: faces) :=
      .operator (.arith op) hfaces
    simpa [toString] using hop

namespace Expr

/-- Some text is read as the expression wherever an operand may stand. -/
def Written (e : Expr) : Prop :=
  ∃ text pieces, Spells text pieces ∧ ∀ ts, ts.map Token.face = pieces → Primary ts e

/-- What stands by itself is written as it is printed. -/
theorem Written.of_print {e : Expr} (h : e.isWritable) (hplain : e.isPlain) (htight : e.looseness = 0)
    (hpieces : e.pieces LogicOp.shown = e.pieces LogicOp.symbol) : e.Written := by
  refine ⟨e.print, e.pieces LogicOp.shown, spells_print h, fun ts hts => ?_⟩
  have hloose := loose_of_pieces hplain h ts (hts.trans hpieces)
  rwa [htight] at hloose

/-- Anything else is written in parentheses. -/
theorem Written.of_loose {e : Expr} {text : String} {pieces : List Piece} {n : Nat} (h : Spells text pieces)
    (hloose : ∀ ts, ts.map Token.face = pieces → Loose n ts e) : e.Written :=
  ⟨_, _, h.grouped true, fun _ hts => Loose.enclosed hloose (n := 0) (.inl rfl) hts⟩

theorem Written.loose {e : Expr} {pieces : List Piece} (h : ∀ ts, ts.map Token.face = pieces → Primary ts e) (n : Nat)
    {ts : List Token} (hts : ts.map Token.face = pieces) : Loose n ts e :=
  Loose.mono (m := 0) (h ts hts) (Nat.zero_le n)

mutual

theorem written_of_isWritable {e : Expr} (h : e.isWritable) : e.Written := by
  cases e with
  | number | text | truth | character | «variable» => exact .of_print h rfl rfl rfl
  | not operand =>
    rw [isWritable] at h
    obtain ⟨text, pieces, hspells, hprimary⟩ := written_of_isWritable h
    refine .of_loose (Spells.negation.append hspells) (n := 3) fun ts hts => ?_
    obtain ⟨t, us, rfl, ht, hus⟩ := List.map_eq_cons_iff.mp hts
    exact Comparison.not (congrArg Prod.fst ht) (Written.loose hprimary 3 hus)
  | binary op left right =>
    rw [isWritable, Bool.and_eq_true] at h
    obtain ⟨textLeft, piecesLeft, hleft, hprimaryLeft⟩ := written_of_isWritable h.1
    obtain ⟨textRight, piecesRight, hright, hprimaryRight⟩ := written_of_isWritable h.2
    obtain ⟨textOp, hop⟩ := Spells.operator op
    refine .of_loose (hleft.append (hop.append hright)) (n := op.looseness) fun ts hts => ?_
    obtain ⟨us, more, rfl, hus, hmore⟩ := List.map_eq_append_iff.mp hts
    obtain ⟨t, vs, rfl, ht, hvs⟩ := List.map_eq_cons_iff.mp hmore
    exact Loose.binary (Written.loose hprimaryLeft _ hus) ht (Written.loose hprimaryRight _ hvs)
  | call object method arguments =>
    rw [isWritable, Bool.and_eq_true, Bool.and_eq_true] at h
    obtain ⟨⟨hobject, hmethod⟩, hwrites⟩ := h
    obtain ⟨texts, pieces, hspells, hderives⟩ := written_of_areWritable hwrites
    have hcall := Spells.apply hmethod hspells
    cases object with
    | none => exact ⟨_, _, hcall, fun _ hts => primary_call hderives hts⟩
    | some object => exact ⟨_, _, hcall.qualified hobject, fun _ hts => primary_callOf hderives hobject hts⟩
  | create cls arguments =>
    rw [isWritable, Bool.and_eq_true] at h
    obtain ⟨texts, pieces, hspells, hderives⟩ := written_of_areWritable h.2
    exact ⟨_, _, (Spells.apply h.1 hspells).create, fun _ hts => primary_create hderives hts⟩

theorem written_of_areWritable {es : List Expr} (h : areWritable es) :
    ∃ texts pieces, List.Forall₂ Spells texts pieces ∧
      List.Forall₂ (fun e ps => ∀ ts, ts.map Token.face = ps → Disjunction ts e) es pieces := by
  cases es with
  | nil => exact ⟨[], [], .nil, .nil⟩
  | cons e rest =>
    rw [areWritable, Bool.and_eq_true] at h
    obtain ⟨text, pieces, hspells, hprimary⟩ := written_of_isWritable h.1
    obtain ⟨texts, others, hspellsEach, hderives⟩ := written_of_areWritable h.2
    exact ⟨text :: texts, pieces :: others, .cons hspells hspellsEach,
      .cons (fun ts hts => Loose.disjunction (n := 0) (hprimary ts hts)) hderives⟩

end

/-- The expressions that are read from source texts are those that can be written. -/
theorem produced_iff_isWritable {e : Expr} : e.Produced ↔ e.isWritable := by
  refine ⟨Produced.isWritable, fun h => ?_⟩
  obtain ⟨text, pieces, hspells, hprimary⟩ := written_of_isWritable h
  have hphrased := hspells [] [] trivial .nil
  rw [List.append_nil, List.append_nil] at hphrased
  obtain ⟨tokens, s, hlex, hread, -⟩ := expression_of_phrased "" hphrased fun ts hts =>
    Loose.disjunction (n := 0) (hprimary ts hts)
  exact ⟨_, _, tokens, _, s, hlex, rfl, rfl, hread⟩

/-- **What a text tells about its expression.** Expressions that are read from source texts have the same text
exactly if they have the same pieces, and if every operand fits its place or is printed in parentheses they
are then the same expression. -/
theorem print_eq_print_iff {e e' : Expr} (h : e.Produced) (h' : e'.Produced) :
    (e.print = e'.print ↔ e.pieces LogicOp.symbol = e'.pieces LogicOp.symbol) ∧
      (e.isPlain → e'.isPlain → e.print = e'.print → e = e') := by
  have hiff := print_eq_iff_pieces h.isWritable h'.isWritable
  exact ⟨hiff, fun hp hp' hprint => eq_of_pieces_eq h.isWritable h'.isWritable hp hp' (hiff.mp hprint)⟩

/-- A sum on the right gets parentheses, and shows that it is there. -/
theorem print_eq_print_iff_difference :
    let e : Expr := .binary (.arith .subtract) (.variable "a") (.binary (.arith .add) (.variable "b") (.number 1))
    let e' : Expr := .binary (.arith .add) (.binary (.arith .subtract) (.variable "a") (.variable "b")) (.number 1)
    e.Produced ∧ e'.Produced ∧ e.isPlain ∧ e'.isPlain ∧ e.print ≠ e'.print ∧
      ((e.print = e'.print ↔ e.pieces LogicOp.symbol = e'.pieces LogicOp.symbol) ∧
        (e.isPlain → e'.isPlain → e.print = e'.print → e = e')) := by
  have h : Produced (.binary (.arith .subtract) (.variable "a") (.binary (.arith .add) (.variable "b") (.number 1))) :=
    produced_iff_isWritable.mpr (by decide +kernel)
  have h' : Produced (.binary (.arith .add) (.binary (.arith .subtract) (.variable "a") (.variable "b")) (.number 1)) :=
    produced_iff_isWritable.mpr (by decide +kernel)
  exact ⟨h, h', by decide +kernel, by decide +kernel, by decide +kernel, print_eq_print_iff h h'⟩

/-- The parentheses around an operand of `and` are not printed, so two expressions that differ have one text. -/
theorem grouping_not_printed :
    ∃ e e' : Expr, e.Produced ∧ e'.Produced ∧ e.print = "a and b or c" ∧ e'.print = "a and b or c" ∧ e ≠ e' := by
  refine ⟨.binary (.logic .or) (.binary (.logic .and) (.variable "a") (.variable "b")) (.variable "c"),
    .binary (.logic .and) (.variable "a") (.binary (.logic .or) (.variable "b") (.variable "c")),
    produced_iff_isWritable.mpr (by decide +kernel), produced_iff_isWritable.mpr (by decide +kernel),
    by decide +kernel, by decide +kernel, fun h => by cases h⟩

end Expr

end Offside
