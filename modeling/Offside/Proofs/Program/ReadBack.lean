import Offside.Proofs.Grammar.Expression
import Offside.Proofs.Program.Pieces

/-! Expressions that are read back from their text.

Parentheses leave nothing behind in an expression. The printer puts them around operands of arithmetic
operators that are arithmetic themselves, where these would be read otherwise, and nowhere else. If every
other operand fits the place where it stands, the pieces of an expression stand for it and for nothing
else. -/
namespace Offside

open Grammar

/-- How loosely an operator holds its operands together. -/
def Operator.looseness : Operator → Nat
  | .arith op => 3 - op.binding
  | .compare _ => 3
  | .logic .and => 4
  | .logic .or => 5

/-- The loosest operands, left and right, that an operator takes without parentheses. -/
def Operator.room : Operator → Nat × Nat
  | .arith op => (3 - op.binding, 2 - op.binding)
  | .compare _ => (2, 2)
  | .logic .and => (4, 3)
  | .logic .or => (4, 5)

namespace Expr

/-- How loosely an expression holds together. What stands by itself is not loose at all. -/
def looseness : Expr → Nat
  | .not _ => 3
  | .binary op _ _ => op.looseness
  | .number _ | .text _ | .truth _ | .character _ | .variable _ | .call .. | .create .. => 0

mutual

/-- Every operand fits the place where it stands, or is printed in parentheses. -/
def isPlain : Expr → Bool
  | .number _ | .text _ | .truth _ | .character _ | .variable _ => true
  | .not operand => operand.looseness ≤ 3 && isPlain operand
  | .binary op left right =>
    (groupsLeft op left || left.looseness ≤ op.room.1) && (groupsRight op right || right.looseness ≤ op.room.2) &&
      (isPlain left && isPlain right)
  | .call _ _ arguments | .create _ arguments => arePlain arguments

def arePlain : List Expr → Bool
  | [] => true
  | e :: rest => isPlain e && arePlain rest

end

end Expr

/-! ### Looseness -/

namespace Grammar

/-- The expressions that are at most so loose. -/
def Loose : Nat → Language Expr
  | 0 => Primary
  | 1 => Product
  | 2 => Summation
  | 3 => Comparison
  | 4 => Conjunction
  | _ => Disjunction

variable {ts us : List Token} {t : Token} {e l r : Expr} {m n : Nat}

theorem Loose.succ (h : Loose n ts e) : Loose (n + 1) ts e := by
  rcases n with _ | _ | _ | _ | _ | n
  · exact Chain.one h
  · exact Chain.one h
  · exact Comparison.sum h
  · exact Chain.one h
  · exact Disjunction.one h
  · exact h

theorem Loose.mono (h : Loose m ts e) (hle : m ≤ n) : Loose n ts e := by
  induction hle with
  | refl => exact h
  | step _ ih => exact ih.succ

theorem Loose.disjunction (h : Loose n ts e) : Disjunction ts e := h.mono (Nat.le_add_right n 5)

/-- Two operands that an operator has room for, and the operator between them. -/
theorem Loose.binary {op : Operator} (hl : Loose op.room.1 ts l) (ht : t.face = op.piece LogicOp.symbol)
    (hr : Loose op.room.2 us r) : Loose op.looseness (ts ++ t :: us) (.binary op l r) := by
  have hkind : t.kind = (op.piece LogicOp.symbol).1 := congrArg Prod.fst ht
  cases op with
  | arith op => cases op <;> exact Chain.more hl (by rw [hkind]; rfl) hr
  | compare op => exact Comparison.compare hl (by rw [hkind]; cases op <;> rfl) hr
  | logic op =>
    cases op with
    | and => exact Chain.more hl (by rw [hkind]; rfl) hr
    | or => exact Disjunction.or hl hkind hr

/-- Parentheses around what they may stand around. -/
theorem Loose.enclosed {parentheses : Bool} {pieces : List Piece}
    (h : ∀ ts, ts.map Token.face = pieces → Loose m ts e) (hfits : parentheses = true ∨ m ≤ n)
    (hts : ts.map Token.face = Expr.enclosed parentheses pieces) : Loose n ts e := by
  cases parentheses with
  | false => exact (h ts hts).mono (hfits.resolve_left Bool.false_ne_true)
  | true =>
    obtain ⟨opener, more, rfl, hopener, hmore⟩ := List.map_eq_cons_iff.mp hts
    obtain ⟨inside, last, rfl, hinside, hlast⟩ := List.map_eq_append_iff.mp hmore
    obtain ⟨closer, rfl, hcloser⟩ := List.map_eq_singleton_iff.mp hlast
    have hprimary := Primary.parenthesized (congrArg Prod.fst hopener) (h inside hinside).disjunction
      (congrArg Prod.fst hcloser)
    exact Loose.mono (m := 0) hprimary (Nat.zero_le n)

end Grammar

/-! ### Derivations -/

namespace Expr

variable {ts : List Token}

/-- Arguments in parentheses, if each of them is what its pieces stand for. -/
theorem arguments_of_pieces {es : List Expr} {pieces : List (List Piece)}
    (h : List.Forall₂ (fun e ps => ∀ ts, ts.map Token.face = ps → Disjunction ts e) es pieces)
    (hts : ts.map Token.face = enclosed true (listed pieces)) : Arguments ts es := by
  obtain ⟨opener, more, rfl, hopener, hmore⟩ := List.map_eq_cons_iff.mp hts
  obtain ⟨inside, last, rfl, hinside, hlast⟩ := List.map_eq_append_iff.mp hmore
  obtain ⟨closer, rfl, hcloser⟩ := List.map_eq_singleton_iff.mp hlast
  refine .mk (congrArg Prod.fst hopener) ?_ (congrArg Prod.fst hcloser)
  clear hts hmore
  cases h with
  | nil =>
    obtain rfl := List.map_eq_nil_iff.mp hinside
    exact .absent
  | @cons e ps es others he hes =>
    refine .present ?_
    induction hes generalizing e ps inside with
    | nil => exact .one (he inside (by simpa [listed] using hinside))
    | @cons e' ps' es others he' _ ih =>
      rw [listed_cons_cons] at hinside
      obtain ⟨first, more, rfl, hfirst, hmore⟩ := List.map_eq_append_iff.mp hinside
      obtain ⟨comma, rest, rfl, hcomma, hrest⟩ := List.map_eq_cons_iff.mp hmore
      exact .more (he first hfirst) (congrArg Prod.fst hcomma) (ih rest he' hrest)

theorem qualifier_of_isName {s : String} (h : isName s) {q : Option String} :
    Qualifier s q ↔ q = some s := by
  simp only [isName, Bool.and_eq_true, decide_eq_true_eq] at h
  constructor
  · rintro (_ | _)
    · exact absurd rfl h.1.1
    · rfl
  · rintro rfl
    exact .present h.1.1

section Calls

variable {es : List Expr} {pss : List (List Piece)} {object method cls : String}

theorem primary_call (h : List.Forall₂ (fun e ps => ∀ ts, ts.map Token.face = ps → Disjunction ts e) es pss)
    (hts : ts.map Token.face = (.word, method) :: enclosed true (listed pss)) :
    Primary ts (.call none method es) := by
  obtain ⟨t, us, rfl, ht, hus⟩ := List.map_eq_cons_iff.mp hts
  obtain rfl : t.text = method := congrArg Prod.snd ht
  exact .call (.own (congrArg Prod.fst ht) (arguments_of_pieces h hus))

theorem primary_callOf (h : List.Forall₂ (fun e ps => ∀ ts, ts.map Token.face = ps → Disjunction ts e) es pss)
    (hobject : isName object)
    (hts : ts.map Token.face = (.word, object) :: (.dot, ".") :: (.word, method) :: enclosed true (listed pss)) :
    Primary ts (.call (some object) method es) := by
  obtain ⟨t, more, rfl, ht, hmore⟩ := List.map_eq_cons_iff.mp hts
  obtain ⟨dot, more', rfl, hdot, hmore'⟩ := List.map_eq_cons_iff.mp hmore
  obtain ⟨name, us, rfl, hname, hus⟩ := List.map_eq_cons_iff.mp hmore'
  obtain rfl : t.text = object := congrArg Prod.snd ht
  obtain rfl : name.text = method := congrArg Prod.snd hname
  exact .call (.qualified (congrArg Prod.fst ht) ((qualifier_of_isName hobject).mpr rfl)
    (congrArg Prod.fst hdot) (congrArg Prod.fst hname) (arguments_of_pieces h hus))

theorem primary_create (h : List.Forall₂ (fun e ps => ∀ ts, ts.map Token.face = ps → Disjunction ts e) es pss)
    (hts : ts.map Token.face = (.newWord, "new") :: (.word, cls) :: enclosed true (listed pss)) :
    Primary ts (.create cls es) := by
  obtain ⟨t, more, rfl, ht, hmore⟩ := List.map_eq_cons_iff.mp hts
  obtain ⟨name, us, rfl, hname, hus⟩ := List.map_eq_cons_iff.mp hmore
  obtain rfl : name.text = cls := congrArg Prod.snd hname
  exact .create (congrArg Prod.fst ht) (congrArg Prod.fst hname) (arguments_of_pieces h hus)

end Calls

mutual

/-- The pieces of a plain expression stand for it. -/
theorem loose_of_pieces {e : Expr} (hp : e.isPlain) (hw : e.isWritable) (ts : List Token)
    (hts : ts.map Token.face = e.pieces LogicOp.symbol) : Loose e.looseness ts e := by
  cases e with
  | number value =>
    rw [isWritable] at hw
    rw [pieces] at hts
    obtain ⟨t, rfl, ht⟩ := List.map_eq_singleton_iff.mp hts
    obtain ⟨n, hn, -, hread⟩ := Number.read?_literal hw
    have htext : t.text = n.text := (congrArg Prod.snd ht).trans hn
    exact Primary.number (congrArg Prod.fst ht) (by rw [htext, hread])
  | text value =>
    rw [pieces] at hts
    obtain ⟨t, rfl, ht⟩ := List.map_eq_singleton_iff.mp hts
    obtain rfl : t.text = value := congrArg Prod.snd ht
    exact Primary.text (congrArg Prod.fst ht)
  | truth value =>
    rw [pieces] at hts
    obtain ⟨t, rfl, ht⟩ := List.map_eq_singleton_iff.mp hts
    cases value with
    | true => exact Primary.truth (congrArg Prod.fst ht)
    | false => exact Primary.falsity (congrArg Prod.fst ht)
  | character value =>
    rw [pieces] at hts
    obtain ⟨t, rfl, ht⟩ := List.map_eq_singleton_iff.mp hts
    have htext : t.text.toList = value.toString.toList := congrArg (String.toList ∘ Prod.snd) ht
    rw [Char.toString_eq_singleton, String.toList_singleton] at htext
    exact Primary.character (congrArg Prod.fst ht) htext
  | «variable» name =>
    rw [pieces] at hts
    obtain ⟨t, rfl, ht⟩ := List.map_eq_singleton_iff.mp hts
    obtain rfl : t.text = name := congrArg Prod.snd ht
    exact Primary.variable (congrArg Prod.fst ht)
  | not operand =>
    rw [isPlain, Bool.and_eq_true, decide_eq_true_eq] at hp
    rw [isWritable] at hw
    rw [pieces] at hts
    obtain ⟨t, us, rfl, ht, hus⟩ := List.map_eq_cons_iff.mp hts
    exact Comparison.not (congrArg Prod.fst ht) ((loose_of_pieces hp.2 hw us hus).mono hp.1)
  | binary op left right =>
    simp only [isPlain, Bool.and_eq_true, Bool.or_eq_true, decide_eq_true_eq] at hp
    rw [isWritable, Bool.and_eq_true] at hw
    rw [pieces] at hts
    obtain ⟨⟨hfitsLeft, hfitsRight⟩, hleft, hright⟩ := hp
    obtain ⟨us, more, rfl, hus, hmore⟩ := List.map_eq_append_iff.mp hts
    obtain ⟨t, vs, rfl, ht, hvs⟩ := List.map_eq_cons_iff.mp hmore
    exact Loose.binary (.enclosed (loose_of_pieces hleft hw.1) hfitsLeft hus) ht
      (.enclosed (loose_of_pieces hright hw.2) hfitsRight hvs)
  | call object method arguments =>
    rw [isPlain] at hp
    rw [isWritable, Bool.and_eq_true, Bool.and_eq_true] at hw
    obtain ⟨⟨hobject, hmethod⟩, hwrites⟩ := hw
    have harguments := disjunctions_of_pieces hp hwrites
    cases object with
    | none =>
      rw [pieces] at hts
      exact primary_call harguments hts
    | some object =>
      rw [pieces] at hts
      exact primary_callOf harguments hobject hts
  | create cls arguments =>
    rw [isPlain] at hp
    rw [isWritable, Bool.and_eq_true] at hw
    rw [pieces] at hts
    exact primary_create (disjunctions_of_pieces hp hw.2) hts

theorem disjunctions_of_pieces {es : List Expr} (hp : arePlain es) (hw : areWritable es) :
    List.Forall₂ (fun e ps => ∀ ts, ts.map Token.face = ps → Disjunction ts e) es
      (piecesEach LogicOp.symbol es) := by
  cases es with
  | nil => exact .nil
  | cons e rest =>
    rw [arePlain, Bool.and_eq_true] at hp
    rw [areWritable, Bool.and_eq_true] at hw
    exact .cons (fun ts hts => (loose_of_pieces hp.1 hw.1 ts hts).disjunction) (disjunctions_of_pieces hp.2 hw.2)

end

end Expr

/-! ### The expressions that are read back -/

namespace Expr

mutual

/-- Arithmetic over names, literals and calls, and if it may be a `condition` also a comparison of two of
these and negations of conditions. Arguments are conditions. -/
def isLegible (condition : Bool) : Expr → Bool
  | .variable name => isName name
  | .number value => Number.isUnsigned value
  | .truth _ | .character _ => true
  | .text value => '"' ∉ value.toList
  | .call object method arguments => object.all isName && isName method && areLegible arguments
  | .create cls arguments => isName cls && areLegible arguments
  | .binary (.arith _) left right => isLegible false left && isLegible false right
  | .binary (.compare _) left right => condition && (isLegible false left && isLegible false right)
  | .not operand => condition && isLegible true operand
  | .binary (.logic _) _ _ => false

def areLegible : List Expr → Bool
  | [] => true
  | e :: rest => isLegible true e && areLegible rest

end

variable {e l r : Expr} {condition : Bool}

/-- An operand of arithmetic is arithmetic itself, or stands by itself. -/
theorem looseness_of_isLegible (h : e.isLegible false) :
    e.looseness = e.arithOp?.elim 0 fun op => 3 - op.binding := by
  cases e with
  | binary op left right =>
    cases op with
    | arith op => rfl
    | compare | logic => simp [isLegible] at h
  | not => simp [isLegible] at h
  | number | text | truth | character | «variable» | call | create => rfl

theorem looseness_le_two (h : e.isLegible false) : e.looseness ≤ 2 := by
  have hbinding : ∀ op : ArithOp, 1 ≤ op.binding := by
    intro op
    cases op <;> decide
  rw [looseness_of_isLegible h]
  cases e.arithOp? with
  | none => exact Nat.zero_le 2
  | some op =>
    have hop := hbinding op
    rw [Option.elim_some]
    omega

theorem looseness_le_three (h : e.isLegible condition) : e.looseness ≤ 3 := by
  cases e with
  | binary op left right =>
    cases op with
    | arith op => exact Nat.sub_le 3 _
    | compare => exact Nat.le_refl 3
    | logic => simp [isLegible] at h
  | not => exact Nat.le_refl 3
  | number | text | truth | character | «variable» | call | create => exact Nat.zero_le 3

/-- A left operand of arithmetic fits, or gets parentheses. -/
theorem fits_left (op : ArithOp) (h : e.isLegible false) :
    groupsLeft (.arith op) e = true ∨ e.looseness ≤ (Operator.arith op).room.1 := by
  rw [looseness_of_isLegible h]
  unfold groupsLeft
  cases e.arithOp? with
  | none => exact .inr (Nat.zero_le _)
  | some inner =>
    show decide (inner.binding < op.binding) = true ∨ 3 - inner.binding ≤ 3 - op.binding
    rw [decide_eq_true_eq]
    omega

/-- A right operand of arithmetic fits, or gets parentheses. -/
theorem fits_right (op : ArithOp) (h : e.isLegible false) :
    groupsRight (.arith op) e = true ∨ e.looseness ≤ (Operator.arith op).room.2 := by
  rw [looseness_of_isLegible h, groupsRight]
  cases e.arithOp? with
  | none => exact .inr (Nat.zero_le _)
  | some inner => exact .inl rfl

/-- What it takes that an expression is read back from its text. -/
structure ReadsBack (e : Expr) : Prop where
  plain : e.isPlain
  writable : e.isWritable
  -- No logical operator, or none that is printed otherwise than it is read.
  pieces : e.pieces LogicOp.shown = e.pieces LogicOp.symbol

structure EachReadsBack (es : List Expr) : Prop where
  plain : arePlain es
  writable : areWritable es
  pieces : piecesEach LogicOp.shown es = piecesEach LogicOp.symbol es

theorem ReadsBack.binary {op : Operator} (hl : l.ReadsBack) (hr : r.ReadsBack)
    (hleft : groupsLeft op l = true ∨ l.looseness ≤ op.room.1)
    (hright : groupsRight op r = true ∨ r.looseness ≤ op.room.2)
    (hop : op.piece LogicOp.shown = op.piece LogicOp.symbol) : (Expr.binary op l r).ReadsBack where
  plain := by
    simp only [isPlain, Bool.and_eq_true, Bool.or_eq_true, decide_eq_true_eq]
    exact ⟨⟨hleft, hright⟩, hl.plain, hr.plain⟩
  writable := by
    rw [isWritable, Bool.and_eq_true]
    exact ⟨hl.writable, hr.writable⟩
  pieces := by rw [Expr.pieces, Expr.pieces, hl.pieces, hr.pieces, hop]

mutual

theorem readsBack_of_isLegible {e : Expr} {condition : Bool} (h : e.isLegible condition) : e.ReadsBack := by
  cases e with
  | binary op left right =>
    cases op with
    | arith op =>
      rw [isLegible, Bool.and_eq_true] at h
      exact .binary (readsBack_of_isLegible h.1) (readsBack_of_isLegible h.2) (fits_left op h.1) (fits_right op h.2) rfl
    | compare op =>
      rw [isLegible, Bool.and_eq_true, Bool.and_eq_true] at h
      exact .binary (readsBack_of_isLegible h.2.1) (readsBack_of_isLegible h.2.2) (.inr (looseness_le_two h.2.1))
        (.inr (looseness_le_two h.2.2)) rfl
    | logic op => simp [isLegible] at h
  | not operand =>
    rw [isLegible, Bool.and_eq_true] at h
    obtain ⟨hplain, hwritable, hpieces⟩ := readsBack_of_isLegible h.2
    have hle := looseness_le_three h.2
    exact ⟨by simp [isPlain, hle, hplain], hwritable, by rw [pieces, pieces, hpieces]⟩
  | call object method arguments =>
    rw [isLegible, Bool.and_eq_true] at h
    obtain ⟨hplain, hwritable, hpieces⟩ := eachReadsBack_of_areLegible h.2
    refine ⟨hplain, by rw [isWritable, h.1, hwritable]; rfl, ?_⟩
    cases object <;> rw [pieces, pieces, hpieces]
  | create cls arguments =>
    rw [isLegible, Bool.and_eq_true] at h
    obtain ⟨hplain, hwritable, hpieces⟩ := eachReadsBack_of_areLegible h.2
    exact ⟨hplain, by rw [isWritable, h.1, hwritable]; rfl, by rw [pieces, pieces, hpieces]⟩
  | number | text | truth | character | «variable» => exact ⟨rfl, h, rfl⟩

theorem eachReadsBack_of_areLegible {es : List Expr} (h : areLegible es) : EachReadsBack es := by
  cases es with
  | nil => exact ⟨rfl, rfl, rfl⟩
  | cons e rest =>
    rw [areLegible, Bool.and_eq_true] at h
    obtain ⟨hplain, hwritable, hpieces⟩ := readsBack_of_isLegible h.1
    obtain ⟨hplains, hwritables, hpiecesEach⟩ := eachReadsBack_of_areLegible h.2
    exact ⟨by rw [arePlain, hplain, hplains]; rfl, by rw [areWritable, hwritable, hwritables]; rfl,
      by rw [piecesEach, piecesEach, hpieces, hpiecesEach]⟩

end

/-- A line whose lexemes stand for an expression is read as that expression. -/
theorem expression_of_phrased (file : String) {source : List Char} {pieces : List Piece} {e : Expr}
    (hsource : Phrased source pieces) (hderives : ∀ ts, ts.map Token.face = pieces → Disjunction ts e) :
    ∃ tokens s, lex file source = .ok tokens ∧
      Parser.expression (Reading.ofTokens tokens) = .ok e s ∧ s.cursor.rest.map Token.face = [(.newline, "")] := by
  have hne : pieces ≠ [] := by
    rintro rfl
    exact Parser.expression_starts.ne_nil (hderives [] rfl) rfl
  have hlexes : LexesAs file source _ := lexesAs_of_phrased hsource hne
  obtain ⟨tokens, hlex, hfaces⟩ := hlexes
  obtain ⟨ts, rest, rfl, hts, hrest⟩ := List.map_eq_append_iff.mp hfaces
  obtain ⟨t, rfl, ht⟩ := List.map_eq_singleton_iff.mp hrest
  have hnext : NotNext Parser.expressionTails [t] := by
    rw [notNext_cons, show t.kind = .newline from congrArg Prod.fst ht]
    decide
  obtain ⟨s, hread, hmoved⟩ := Parser.expression_complete ts.length (Reading.ofTokens (ts ++ [t])) ts [t] e
    (Nat.le_refl _) rfl (Nat.le_refl _) hnext (hderives ts hts)
  refine ⟨ts ++ [t], s, hlex, hread, ?_⟩
  rw [hmoved.rest_eq rfl]
  exact hrest

/-- **What is printed is read back.** The text of a condition is cut into tokens, and reading an expression
from them gives that condition and leaves the end of the line. -/
theorem expression_print (file : String) {e : Expr} (h : e.isLegible true) :
    ∃ tokens s, lex file e.print.toList = .ok tokens ∧
      Parser.expression (Reading.ofTokens tokens) = .ok e s ∧ s.cursor.rest.map Token.face = [(.newline, "")] := by
  obtain ⟨hplain, hwritable, hpieces⟩ := readsBack_of_isLegible h
  have hphrased := spells_print hwritable [] [] trivial .nil
  rw [List.append_nil, List.append_nil, hpieces] at hphrased
  exact expression_of_phrased file hphrased fun ts hts => (loose_of_pieces hplain hwritable ts hts).disjunction

/-- Arithmetic in a comparison under a negation, a qualified call, and texts with blanks and quotes. -/
theorem expression_print_negation :
    ∃ e : Expr, e.print = "!(a + 2.5) * b <= f.g(\"x\n y\", ''', !new C())" ∧ e.isLegible true ∧
      ∃ tokens s, lex "f" e.print.toList = .ok tokens ∧
        Parser.expression (Reading.ofTokens tokens) = .ok e s ∧ s.cursor.rest.map Token.face = [(.newline, "")] :=
  ⟨.not (.binary (.compare .lessEqual)
      (.binary (.arith .multiply) (.binary (.arith .add) (.variable "a") (.number 2.5)) (.variable "b"))
      (.call (some "f") "g" [.text "x\n y", .character '\'', .not (.create "C" [])])),
    by decide +kernel, by decide +kernel, expression_print "f" (by decide +kernel)⟩

end Expr

end Offside
