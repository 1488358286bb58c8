import Offside.Program.Print
import Offside.Proofs.Number.Literal
import Offside.Proofs.Token.Phrases

/-! The text of an expression, piece by piece.

An expression is printed as a sequence of pieces, each of them the kind and the text of a token. Only the
logical operators are printed otherwise than they are read: as words. `Expr.pieces` leaves open which of
the two it is. The text of an expression is read as the pieces that were printed. -/
namespace Offside

/-- The kind and the text of a token. -/
abbrev Piece := Kind × String

def CompareOp.piece (op : CompareOp) : Piece :=
  (match op with
    | .equal => .equal
    | .notEqual => .notEqual
    | .less => .less
    | .greater => .greater
    | .lessEqual => .lessEqual
    | .greaterEqual => .greaterEqual, op.print)

def ArithOp.piece (op : ArithOp) : Piece :=
  (match op with
    | .add => .plus
    | .subtract => .minus
    | .multiply => .times
    | .divide => .divide
    | .modulo => .modulo, op.print)

/-- A logical operator as it is printed. -/
def LogicOp.shown (op : LogicOp) : Piece := (.word, op.print)

/-- A logical operator as it is read. -/
def LogicOp.symbol : LogicOp → Piece
  | .and => (.and, "&&")
  | .or => (.or, "||")

def Operator.piece (logic : LogicOp → Piece) : Operator → Piece
  | .logic op => logic op
  | .compare op => op.piece
  | .arith op => op.piece

namespace Expr

/-- Pieces in parentheses, or not. -/
def enclosed (parentheses : Bool) (pieces : List Piece) : List Piece :=
  if parentheses then (.leftParen, "(") :: (pieces ++ [(.rightParen, ")")]) else pieces

/-- Arguments with commas between them. -/
def listed (arguments : List (List Piece)) : List Piece := [(.comma, ",")].intercalate arguments

mutual

/-- The pieces of an expression, with its logical operators as `logic` has them. -/
def pieces (logic : LogicOp → Piece) : Expr → List Piece
  | .number value => [(.number, Number.literal value)]
  | .text value => [(.text, value)]
  | .truth value => [if value then (.trueWord, "true") else (.falseWord, "false")]
  | .character value => [(.character, value.toString)]
  | .variable name => [(.word, name)]
  | .not operand => (.not, "!") :: pieces logic operand
  | .binary op left right =>
    enclosed (groupsLeft op left) (pieces logic left) ++
      op.piece logic :: enclosed (groupsRight op right) (pieces logic right)
  | .call none method arguments => (.word, method) :: enclosed true (listed (piecesEach logic arguments))
  | .call (some object) method arguments =>
    (.word, object) :: (.dot, ".") :: (.word, method) :: enclosed true (listed (piecesEach logic arguments))
  | .create cls arguments =>
    (.newWord, "new") :: (.word, cls) :: enclosed true (listed (piecesEach logic arguments))

def piecesEach (logic : LogicOp → Piece) : List Expr → List (List Piece)
  | [] => []
  | e :: rest => pieces logic e :: piecesEach logic rest

end

end Expr

/-! ### What can be read -/

/-- A word that is read as a name. -/
def isName (s : String) : Bool := s ≠ "" && s.toList.all Text.isLetter && (Kind.reserved? s).isNone

namespace Expr

mutual

/-- Every part of an expression can be written as a lexeme: its names are words that are not reserved, its
numbers are finite and have no sign, and its texts have no quote inside. -/
def isWritable : Expr → Bool
  | .number value => Number.isUnsigned value
  | .text value => '"' ∉ value.toList
  | .truth _ | .character _ => true
  | .variable name => isName name
  | .not operand => isWritable operand
  | .binary _ left right => isWritable left && isWritable right
  | .call object method arguments => object.all isName && isName method && areWritable arguments
  | .create cls arguments => isName cls && areWritable arguments

def areWritable : List Expr → Bool
  | [] => true
  | e :: rest => isWritable e && areWritable rest

end

/-! ### Texts -/

theorem toList_grouped (parentheses : Bool) (text : String) :
    (grouped parentheses text).toList = if parentheses then '(' :: (text.toList ++ [')']) else text.toList := by
  cases parentheses <;> simp [grouped, toString]

theorem commaList_cons_cons (t u : String) (texts : List String) :
    (commaList (t :: u :: texts)).toList = t.toList ++ ',' :: ' ' :: (commaList (u :: texts)).toList := by
  simp [commaList]

theorem listed_cons_cons (ps qs : List Piece) (others : List (List Piece)) :
    listed (ps :: qs :: others) = ps ++ (.comma, ",") :: listed (qs :: others) := by
  simp [listed, List.intercalate_cons_cons]

end Expr

/-! ### Texts that spell pieces -/

/-- What may stand after an expression: a space, a comma or a closing parenthesis. -/
def Closed (rest : List Char) : Prop := NotFollowed (· ∉ [' ', ',', ')']) rest

/-- A text that is read as these pieces where an expression may end after it. -/
def Spells (text : String) (pieces : List Piece) : Prop :=
  ∀ rest faces, Closed rest → Phrased rest faces → Phrased (text.toList ++ rest) (pieces ++ faces)

section Spelling

variable {rest : List Char} {faces : List Piece}

theorem closed_cons {c : Char} : Closed (c :: rest) ↔ c ∈ [' ', ',', ')'] := Classical.not_not

/-- What ends an expression goes on with none of its lexemes. -/
theorem Closed.notFollowed {p : Char → Prop} (h : Closed rest) (hp : ∀ c ∈ [' ', ',', ')'], ¬ p c) : NotFollowed p rest :=
  NotFollowed.imp h fun c hc hmem => hp c hmem hc

theorem not_letter_or_digit_of_ends {c : Char} (h : c ∈ [' ', ',', ')']) :
    Text.isLetter c = false ∧ Text.isDecimalDigit c = false := by
  refine Scanner.not_letter_or_digit ?_
  simp only [List.mem_cons, List.not_mem_nil, or_false] at h
  rcases h with rfl | rfl | rfl <;> simp [Scanner.symbols]

theorem Closed.not_letter (h : Closed rest) : NotFollowed (Text.isLetter ·) rest :=
  h.notFollowed fun c hc => by simp [not_letter_or_digit_of_ends hc]

theorem Closed.not_digit (h : Closed rest) : NotFollowed (fun c => Text.isDecimalDigit c ∨ c = '.') rest := by
  refine h.notFollowed fun c hc => ?_
  have hpoint : c ≠ '.' := by
    rintro rfl
    exact absurd hc (by decide)
  simp [not_letter_or_digit_of_ends hc, hpoint]

/-- The words that are printed though they are no names. -/
def printedWords : List String := ["new", "true", "false", "and", "or"]

theorem isLetter_printedWords {s : String} (h : s ∈ printedWords) : s.toList.all Text.isLetter := by
  have hall : printedWords.all fun s => s.toList.all Text.isLetter := by decide +kernel
  exact List.all_eq_true.mp hall s h

theorem Phrased.word {s : String} (hne : s ≠ "") (hletters : s.toList.all Text.isLetter)
    (hrest : NotFollowed (Text.isLetter ·) rest) (h : Phrased rest faces) :
    Phrased (s.toList ++ rest) (((Kind.reserved? s).getD .word, s) :: faces) := by
  have hlex := Lexeme.word (by simpa using hne) (List.all_eq_true.mp hletters) hrest
  rw [String.ofList_toList] at hlex
  refine .lexeme hlex (fun hkind => reserved_kinds s ?_) h
  rw [hkind]
  decide

theorem Phrased.name {s : String} (hs : isName s) (hrest : NotFollowed (Text.isLetter ·) rest)
    (h : Phrased rest faces) : Phrased (s.toList ++ rest) ((.word, s) :: faces) := by
  simp only [isName, Bool.and_eq_true, decide_eq_true_eq, Option.isNone_iff_eq_none] at hs
  obtain ⟨⟨hne, hletters⟩, hreserved⟩ := hs
  have hword := Phrased.word hne hletters hrest h
  rwa [hreserved] at hword

theorem Phrased.single {c : Char} {kind : Kind} (hc : Kind.single? c = some kind)
    (hrest : NotFollowed (fun d => (Kind.pair? c d).isSome) rest) (h : Phrased rest faces) :
    Phrased (c :: rest) ((kind, c.toString) :: faces) :=
  .lexeme (.single hc hrest) (by rintro rfl; exact single_kinds hc (by decide)) h

/-- The symbols that no other can go on with. -/
theorem Phrased.mark {c : Char} {kind : Kind} (hc : Kind.single? c = some kind) (hmark : c ∈ ['(', ')', ',', '.'])
    (h : Phrased rest faces) : Phrased (c :: rest) ((kind, c.toString) :: faces) := by
  refine .single hc ?_ h
  have hpair : ∀ d, Kind.pair? c d = none := by
    intro d
    simp only [List.mem_cons, List.not_mem_nil, or_false] at hmark
    rcases hmark with rfl | rfl | rfl | rfl <;> rfl
  cases rest with
  | nil => trivial
  | cons d rest => simp [NotFollowed, hpair]

theorem Phrased.operator (op : Operator) (h : Phrased rest faces) :
    Phrased (op.print.toList ++ ' ' :: rest) (op.piece LogicOp.shown :: faces) := by
  have hspace : NotFollowed (Text.isLetter ·) (' ' :: rest) := (closed_cons.mpr (by decide)).not_letter
  cases op with
  | logic op => cases op <;> exact .word (by decide) (isLetter_printedWords (by decide)) hspace h.space
  | compare op =>
    cases op with
    | less | greater => exact .single rfl (by simp [NotFollowed, Kind.pair?]) h.space
    | equal | notEqual | lessEqual | greaterEqual => exact .lexeme (.pair rfl) (by decide) h.space
  | arith op => cases op <;> exact .single rfl (by simp [NotFollowed, Kind.pair?]) h.space

namespace Spells

variable {text : String} {pieces : List Piece}

theorem of_name {s : String} (hs : isName s) : Spells s [(.word, s)] := by
  intro rest faces hrest h
  exact .name hs hrest.not_letter h

theorem grouped (parentheses : Bool) (h : Spells text pieces) :
    Spells (Expr.grouped parentheses text) (Expr.enclosed parentheses pieces) := by
  intro rest faces hrest hfaces
  rw [Expr.toList_grouped, Expr.enclosed]
  cases parentheses with
  | false => exact h _ _ hrest hfaces
  | true =>
    have hclose : Phrased (')' :: rest) ((.rightParen, ")") :: faces) := .mark rfl (by decide) hfaces
    have hinside := h _ _ (closed_cons.mpr (by decide)) hclose
    have hopen : Phrased ('(' :: (text.toList ++ ')' :: rest)) ((.leftParen, "(") :: (pieces ++ (.rightParen, ")") :: faces)) :=
      .mark rfl (by decide) hinside
    simpa using hopen

theorem binary {left right : String} {lefts rights : List Piece} (op : Operator) (hl : Spells left lefts)
    (hr : Spells right rights) : Spells s!"{left} {op.print} {right}" (lefts ++ op.piece LogicOp.shown :: rights) := by
  intro rest faces hrest hfaces
  have hspace : Closed (' ' :: (op.print.toList ++ ' ' :: (right.toList ++ rest))) := closed_cons.mpr (by decide)
  have hall := hl _ _ hspace (.space (.operator op (hr _ _ hrest hfaces)))
  simpa [toString] using hall

/-- Arguments, with the parentheses around them. -/
theorem arguments {texts : List String} {arguments : List (List Piece)} (h : List.Forall₂ Spells texts arguments) :
    Spells s!"({commaList texts})" (Expr.enclosed true (Expr.listed arguments)) := by
  refine grouped true ?_
  induction h with
  | nil =>
    intro rest faces _ hfaces
    exact hfaces
  | @cons text pieces texts others hfirst hothers ih =>
    cases hothers with
    | nil =>
      intro rest faces hrest hfaces
      simpa [commaList, Expr.listed] using hfirst _ _ hrest hfaces
    | cons =>
      intro rest faces hrest hfaces
      rw [Expr.commaList_cons_cons, Expr.listed_cons_cons]
      have hcomma := Phrased.mark (c := ',') rfl (by decide) (.space (ih _ _ hrest hfaces))
      simpa using hfirst _ _ (closed_cons.mpr (by decide)) hcomma

theorem apply {s : String} {texts : List String} {arguments : List (List Piece)} (hs : isName s)
    (h : List.Forall₂ Spells texts arguments) :
    Spells s!"{s}({commaList texts})" ((.word, s) :: Expr.enclosed true (Expr.listed arguments)) := by
  intro rest faces hrest hfaces
  have hletter : NotFollowed (Text.isLetter ·) ((s!"({commaList texts})").toList ++ rest) := by
    have hparen : Text.isLetter '(' = false := (Scanner.not_letter_or_digit (by simp [Scanner.symbols])).1
    simp [NotFollowed, toString, hparen]
  simpa [toString] using Phrased.name hs hletter (Spells.arguments h _ _ hrest hfaces)

theorem qualified {object : String} (hobject : isName object) (h : Spells text pieces) :
    Spells s!"{object}.{text}" ((.word, object) :: (.dot, ".") :: pieces) := by
  intro rest faces hrest hfaces
  have hdot : Phrased ('.' :: (text.toList ++ rest)) ((.dot, ".") :: (pieces ++ faces)) :=
    .mark rfl (by decide) (h _ _ hrest hfaces)
  have hpoint : Text.isLetter '.' = false := (Scanner.not_letter_or_digit (by simp [Scanner.symbols])).1
  have hletter : NotFollowed (Text.isLetter ·) ('.' :: (text.toList ++ rest)) := by simp [NotFollowed, hpoint]
  simpa [toString] using Phrased.name hobject hletter hdot

theorem create (h : Spells text pieces) : Spells s!"new {text}" ((.newWord, "new") :: pieces) := by
  intro rest faces hrest hfaces
  have hspace : NotFollowed (Text.isLetter ·) (' ' :: (text.toList ++ rest)) :=
    (closed_cons.mpr (by decide)).not_letter
  have hnew : Phrased ("new".toList ++ ' ' :: (text.toList ++ rest)) ((.newWord, "new") :: (pieces ++ faces)) :=
    .word (by decide) (isLetter_printedWords (by decide)) hspace (.space (h _ _ hrest hfaces))
  simpa [toString] using hnew

theorem not (h : Spells text pieces) {c : Char} {cs : List Char} (htext : text.toList = c :: cs) (hc : c ≠ '=') :
    Spells s!"!{text}" ((.not, "!") :: pieces) := by
  intro rest faces hrest hfaces
  have hall := h _ _ hrest hfaces
  rw [htext] at hall
  have hpair : Kind.pair? '!' c = none := by
    unfold Kind.pair?
    split <;> simp_all
  have hnot : Phrased ('!' :: (c :: cs ++ rest)) ((.not, "!") :: (pieces ++ faces)) :=
    .single rfl (by simp [NotFollowed, hpair]) hall
  simpa [toString, htext] using hnot

theorem truth (value : Bool) :
    Spells (if value then "true" else "false") [if value then (.trueWord, "true") else (.falseWord, "false")] := by
  intro rest faces hrest hfaces
  cases value <;> exact .word (by decide) (isLetter_printedWords (by decide)) hrest.not_letter hfaces

theorem quoted {value : String} (h : '"' ∉ value.toList) : Spells s!"\"{value}\"" [(.text, value)] := by
  intro rest faces hrest hfaces
  simpa [toString] using Phrased.lexeme (.text h) (by decide) hfaces

theorem character (value : Char) : Spells s!"'{value}'" [(.character, value.toString)] := by
  intro rest faces hrest hfaces
  simpa [toString] using Phrased.lexeme (.character (c := value)) (by decide) hfaces

theorem numeral (n : Numeral) : Spells n.text [(.number, n.text)] := by
  intro rest faces hrest hfaces
  obtain ⟨whole, fraction, hne, hdigits⟩ := n
  have hwhole : ∀ d ∈ whole, Text.isDecimalDigit d := fun d hd => hdigits d (List.mem_append_left _ hd)
  rw [Numeral.text, Numeral.chars, String.toList_ofList]
  cases fraction with
  | none =>
    rw [Option.elim_none, List.append_nil]
    exact .lexeme (.integer hne hwhole hrest.not_digit) (by decide) hfaces
  | some fraction =>
    have hfraction : ∀ d ∈ fraction, Text.isDecimalDigit d := fun d hd => hdigits d (List.mem_append_right _ hd)
    exact .lexeme (.decimal hne hwhole hfraction (hrest.not_digit.imp fun _ => .inl)) (by decide) hfaces

theorem number {value : Float} (h : Number.isUnsigned value) :
    Spells (Number.literal value) [(.number, Number.literal value)] := by
  obtain ⟨n, hn, -, -⟩ := Number.read?_literal h
  rw [hn]
  exact numeral n

end Spells

end Spelling

/-! ### Expressions -/

/-- No name starts with an equals sign. -/
theorem exists_cons_of_isName {s : String} (h : isName s) : ∃ c cs, s.toList = c :: cs ∧ c ≠ '=' := by
  simp only [isName, Bool.and_eq_true, decide_eq_true_eq] at h
  obtain ⟨c, cs, hcs⟩ := List.exists_cons_of_ne_nil (by simpa using h.1.1 : s.toList ≠ [])
  refine ⟨c, cs, hcs, ?_⟩
  rintro rfl
  rw [hcs] at h
  have hletter := List.all_eq_true.mp h.1.2 '=' (List.mem_cons_self ..)
  simp [(Scanner.not_letter_or_digit (by simp [Scanner.symbols] : '=' ∈ _)).1] at hletter

namespace Expr

/-- No expression starts with an equals sign. -/
theorem exists_print_cons {e : Expr} (h : e.isWritable) : ∃ c cs, e.print.toList = c :: cs ∧ c ≠ '=' := by
  cases e with
  | number value =>
    rw [isWritable] at h
    obtain ⟨⟨whole, fraction, hne, hdigits⟩, hn, -, -⟩ := Number.read?_literal h
    obtain ⟨c, cs, rfl⟩ := List.exists_cons_of_ne_nil hne
    refine ⟨c, _, by rw [print, hn, Numeral.text, String.toList_ofList]; rfl, ?_⟩
    rintro rfl
    have hdigit := hdigits '=' (by simp)
    simp [(Scanner.not_letter_or_digit (by simp [Scanner.symbols] : '=' ∈ _)).2] at hdigit
  | text value => exact ⟨'"', _, by simp [print, toString]; rfl, by decide⟩
  | truth value => cases value <;> exact ⟨_, _, rfl, by decide⟩
  | character value => exact ⟨'\'', _, by simp [print, toString]; rfl, by decide⟩
  | «variable» name =>
    rw [isWritable] at h
    obtain ⟨c, cs, hcs, hc⟩ := exists_cons_of_isName h
    exact ⟨c, cs, by rw [print, hcs], hc⟩
  | not operand => exact ⟨'!', _, by simp [print, toString]; rfl, by decide⟩
  | binary op left right =>
    rw [isWritable, Bool.and_eq_true] at h
    obtain ⟨c, cs, hcs, hc⟩ := exists_print_cons h.1
    cases hgroup : groupsLeft op left with
    | false => exact ⟨c, _, by simp [print, toString, hgroup, toList_grouped, hcs]; rfl, hc⟩
    | true => exact ⟨'(', _, by simp [print, toString, hgroup, toList_grouped]; rfl, by decide⟩
  | call object method arguments =>
    rw [isWritable, Bool.and_eq_true, Bool.and_eq_true] at h
    cases object with
    | none =>
      obtain ⟨c, cs, hcs, hc⟩ := exists_cons_of_isName h.1.2
      exact ⟨c, _, by simp [print, toString, hcs]; rfl, hc⟩
    | some object =>
      obtain ⟨c, cs, hcs, hc⟩ := exists_cons_of_isName h.1.1
      exact ⟨c, _, by simp [print, toString, hcs]; rfl, hc⟩
  | create cls arguments => exact ⟨'n', _, by simp [print, toString]; rfl, by decide⟩

mutual

/-- The text of an expression is read as its pieces. -/
theorem spells_print {e : Expr} (h : e.isWritable) : Spells e.print (e.pieces LogicOp.shown) := by
  cases e with
  | number value =>
    rw [isWritable] at h
    exact .number h
  | text value =>
    rw [isWritable, decide_eq_true_eq] at h
    exact .quoted h
  | truth value =>
    rw [print, pieces]
    exact .truth value
  | character value =>
    rw [print, pieces]
    exact .character value
  | «variable» name =>
    rw [isWritable] at h
    rw [print, pieces]
    exact .of_name h
  | not operand =>
    rw [isWritable] at h
    obtain ⟨c, cs, htext, hc⟩ := exists_print_cons h
    rw [print, pieces]
    exact (spells_print h).not htext hc
  | binary op left right =>
    rw [isWritable, Bool.and_eq_true] at h
    rw [print, pieces]
    exact .binary op ((spells_print h.1).grouped _) ((spells_print h.2).grouped _)
  | call object method arguments =>
    rw [isWritable, Bool.and_eq_true, Bool.and_eq_true] at h
    obtain ⟨⟨hobject, hmethod⟩, harguments⟩ := h
    have hcall := Spells.apply hmethod (spells_printEach harguments)
    cases object with
    | none =>
      rw [print, pieces]
      exact hcall
    | some object =>
      have hqualified := hcall.qualified hobject
      simp only [toString, ← String.append_assoc] at hqualified
      rw [print, pieces]
      exact hqualified
  | create cls arguments =>
    rw [isWritable, Bool.and_eq_true] at h
    have hcreate := (Spells.apply h.1 (spells_printEach h.2)).create
    simp only [toString, ← String.append_assoc] at hcreate
    rw [print, pieces]
    exact hcreate

theorem spells_printEach {es : List Expr} (h : areWritable es) :
    List.Forall₂ Spells (printEach es) (piecesEach LogicOp.shown es) := by
  cases es with
  | nil => exact .nil
  | cons e rest =>
    rw [areWritable, Bool.and_eq_true] at h
    exact .cons (spells_print h.1) (spells_printEach h.2)

end

end Expr

end Offside
