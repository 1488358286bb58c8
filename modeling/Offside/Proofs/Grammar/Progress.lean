import Offside.Proofs.Grammar.Tolerance

/-! Reading ends because it goes on.

Every loop of the grammar and every production that holds itself is one pass followed by the rest of
the reading. `Recurs pass p` says that `p` is the reading that comes of such passes, and that each of
them has taken a token before the rest begins, or fails: whatever does as `p` does where fewer than
`n` tokens are left gives, with one pass before it, what does as `p` does where there is one more. So
no bound on the number of passes is ever felt, and without one there would be no more of them than
there are tokens. -/
namespace Offside.Parser

open Reading Grammar

variable {α β ι : Type} {n : Nat} {p q : Parser α}

/-! ### Readers that coincide -/

/-- The readers do the same where fewer than `n` tokens are left. -/
def Coincide (n : Nat) (q p : Parser α) : Prop := ∀ s, s.Under n → q s = p s

/-- The reader only ever takes tokens. -/
def Onward (p : Parser α) : Prop := ∀ s a s', s.Bounded → p s = .ok a s' → ∃ ts, Moved s ts s'

theorem Sound.onward {L : Language α} (h : Sound p L) : Onward p := by
  intro s a s' hb hrun
  obtain ⟨ts, hm, -⟩ := h s a s' hb hrun
  exact ⟨ts, hm⟩

theorem Still.onward (h : Still p) : Onward p := fun s a s' hb => h.forward.ok s a s' hb

theorem expectAny_onward (kinds : List Kind) : Onward (expectAny kinds) :=
  fun _ _ _ _ hrun => ⟨_, (expectAny_sound hrun).2⟩

theorem accept_onward (kind : Kind) : Onward (accept kind) := by
  intro s b s' _ hrun
  rcases accept_cases hrun with ⟨-, t, -, hm⟩ | ⟨-, rfl, -⟩
  · exact ⟨[t], hm⟩
  · exact ⟨[], .refl _⟩

theorem operator?_onward {Op : Type} (op? : Kind → Option Op) : Onward (operator? op?) := by
  intro s r s' _ hrun
  rcases operator?_cases hrun with ⟨-, rfl⟩ | ⟨t, -, -, -, hm⟩
  · exact ⟨[], .refl _⟩
  · exact ⟨[t], hm⟩

theorem countOf_onward (kind : Kind) : Onward (withBound (countOf kind)) := by
  intro s a s' hb hrun
  obtain ⟨s₁, h₁, hm⟩ := countOf_run kind s.count s hb
  rw [withBound_run, h₁] at hrun
  cases hrun
  exact ⟨_, hm⟩

theorem skipNewlines_onward : Onward skipNewlines := by
  intro s a s' hb hrun
  obtain ⟨ns, hm, -⟩ := skipNewlines_sound hb hrun
  exact ⟨ns, hm⟩

theorem lineEnd_onward : Onward lineEnd := by
  intro s a s' hb hrun
  obtain ⟨ns, hm, -⟩ := lineEnd_sound hb hrun
  exact ⟨ns, hm⟩

namespace Coincide

theorem refl : Coincide n p p := fun _ _ => rfl

theorem zero : Coincide 0 q p := fun _ hs => absurd hs.length (Nat.not_lt_zero _)

theorem of_ok {f g : α → Parser β} {s s' : Reading} {a : α} (h : p s = .ok a s') (hf : f a s' = g a s') :
    (p >>= f) s = (p >>= g) s := by
  rw [bind_of_ok h, bind_of_ok h, hf]

/-- What follows a reader that went through its tokens. -/
theorem bind_of_moved {f g : α → Parser β} {s : Reading} (h : q s = p s)
    (hf : ∀ a s', p s = .ok a s' → f a s' = g a s') : (q >>= f) s = (p >>= g) s := by
  show EStateM.bind q f s = EStateM.bind p g s
  unfold EStateM.bind
  rw [h]
  cases hrun : p s with
  | ok a s' => exact hf a s' hrun
  | error e s' => rfl

theorem bind {f g : α → Parser β} (h : Coincide n q p) (hp : Onward p)
    (hf : ∀ a, Coincide n (f a) (g a)) : Coincide n (q >>= f) (p >>= g) := by
  intro s hs
  refine bind_of_moved (h s hs) fun a s' hrun => hf a s' ?_
  obtain ⟨ts, hm⟩ := hp s a s' hs.bounded hrun
  exact (hs.moved hm (Nat.zero_le _)).mono (Nat.sub_le _ _)

/-- What follows a phrase has fewer tokens left. -/
theorem bind_of_starts {L : Language α} {kinds : List Kind} {f g : α → Parser β}
    (h : Coincide (n + 1) q p) (hp : Sound p L) (hstart : Starts kinds L)
    (hf : ∀ a, Coincide n (f a) (g a)) : Coincide (n + 1) (q >>= f) (p >>= g) := by
  intro s hs
  refine bind_of_moved (h s hs) fun a s' hrun => hf a s' ?_
  obtain ⟨ts, hm, hl⟩ := hp s a s' hs.bounded hrun
  exact hs.moved hm (List.length_pos_iff.mpr (hstart.ne_nil hl))

theorem expectAny {kinds : List Kind} {f g : Token → Parser β} (hf : ∀ t, Coincide n (f t) (g t)) :
    Coincide (n + 1) (expectAny kinds >>= f) (expectAny kinds >>= g) := by
  intro s hs
  refine bind_of_moved rfl fun t s' hrun => hf t s' ?_
  exact hs.moved (expectAny_sound hrun).2 (Nat.le_refl _)

theorem expect {kind : Kind} {f g : Token → Parser β} (hf : ∀ t, Coincide n (f t) (g t)) :
    Coincide (n + 1) (expect kind >>= f) (expect kind >>= g) := expectAny hf

theorem accept {kind : Kind} {f g : Bool → Parser β} (hyes : Coincide n (f true) (g true))
    (hno : Coincide (n + 1) (f false) (g false)) :
    Coincide (n + 1) (accept kind >>= f) (accept kind >>= g) := by
  intro s hs
  refine bind_of_moved rfl fun b s' hrun => ?_
  rcases accept_cases hrun with ⟨rfl, t, -, hm⟩ | ⟨rfl, rfl, -⟩
  · exact hyes s' (hs.moved hm (Nat.le_refl _))
  · exact hno s' hs

theorem operator? {Op : Type} {op? : Kind → Option Op} {f g : Option Op → Parser β}
    (hsome : ∀ op, Coincide n (f (some op)) (g (some op))) (hnone : Coincide (n + 1) (f none) (g none)) :
    Coincide (n + 1) (operator? op? >>= f) (operator? op? >>= g) := by
  intro s hs
  refine bind_of_moved rfl fun r s' hrun => ?_
  rcases operator?_cases hrun with ⟨rfl, rfl⟩ | ⟨t, op, rfl, -, hm⟩
  · exact hnone s' hs
  · exact hsome op s' (hs.moved hm (Nat.le_refl _))

theorem nextIs {offset : Int} {kinds : List Kind} {f g : Bool → Parser β}
    (hf : ∀ b, Coincide n (f b) (g b)) : Coincide n (nextIs offset kinds >>= f) (nextIs offset kinds >>= g) :=
  refl.bind (nextIs_still offset kinds).onward hf

theorem withBound {P Q : Nat → Parser α} (h : ∀ bound, Coincide n (Q bound) (P bound)) :
    Coincide n (withBound Q) (withBound P) := fun s hs => h s.count s hs

end Coincide

/-! ### Recurring passes -/

/-- Readings that come of passes, each of which takes a token before the rest; an argument may change
from pass to pass. -/
def RecursWith (pass : (ι → Parser α) → ι → Parser α) (p : ι → Parser α) : Prop :=
  ∀ q n, (∀ i, Coincide n (q i) (p i)) → ∀ i, Coincide (n + 1) (pass q i) (p i)

/-- A reading that comes of passes, each of which takes a token before the rest. -/
def Recurs (pass : Parser α → Parser α) (p : Parser α) : Prop :=
  ∀ q n, Coincide n q p → Coincide (n + 1) (pass q) p

section Bounds
variable {pass : (ι → Parser α) → ι → Parser α} {P : Nat → ι → Parser α}

/-- A bound is a number of passes: one more than there are tokens left is as good as any. -/
theorem bounds_coincide (hidle : ∀ i, Idle (P · i)) (hsucc : ∀ b i, P (b + 1) i = pass (P b) i)
    (hpass : ∀ q n b, (∀ i, Coincide n (q i) (P b i)) → ∀ i, Coincide (n + 1) (pass q i) (pass (P b) i))
    {n b b' : Nat} (hb : n ≤ b + 1) (hb' : n ≤ b' + 1) (i : ι) : Coincide n (P b i) (P b' i) := by
  -- A bound of none is as good as one, since it is met where nothing is left only.
  have hround : ∀ {n b : Nat} {i : ι} {s : Reading}, n ≤ b → s.Under (n + 1) →
      P b i s = pass (P (b - 1)) i s := by
    intro n b i s hb hs
    cases b with
    | zero =>
      have hlen := hs.length
      rw [← hsucc]
      exact hidle i s (List.length_eq_zero_iff.mp (by omega))
    | succ b => rw [hsucc, Nat.add_sub_cancel]
  induction n generalizing b b' i with
  | zero => exact .zero
  | succ n ih =>
    intro s hs
    rw [hround (Nat.le_of_succ_le_succ hb) hs, hround (Nat.le_of_succ_le_succ hb') hs]
    exact hpass _ n (b' - 1) (fun i => ih (by omega) (by omega) i) i s hs

theorem recursWith_of_bounds (hidle : ∀ i, Idle (P · i)) (hsucc : ∀ b i, P (b + 1) i = pass (P b) i)
    (hpass : ∀ q n b, (∀ i, Coincide n (q i) (P b i)) → ∀ i, Coincide (n + 1) (pass q i) (pass (P b) i)) :
    RecursWith pass fun i => withBound (P · i) := by
  intro q n hq i s hs
  have hbounds := @bounds_coincide _ _ _ _ hidle hsucc hpass
  have hcount : s.cursor.rest.length ≤ s.count := hs.bounded
  have hlen := hs.length
  have hhere : s.Under (s.cursor.rest.length + 1) := ⟨hs.bounded, Nat.lt_succ_self _⟩
  have hpassed : P s.count i s = pass (P s.count) i s := by
    rw [← hsucc]
    exact hbounds (by omega) (by omega) i s hhere
  show pass q i s = P s.count i s
  rw [hpassed]
  refine hpass q _ s.count (fun j s' hs' => ?_) i s hhere
  have hcount' : s'.cursor.rest.length ≤ s'.count := hs'.bounded
  have hlen' := hs'.length
  have hhere' : s'.Under (s'.cursor.rest.length + 1) := ⟨hs'.bounded, Nat.lt_succ_self _⟩
  rw [hq j s' (hs'.mono (by omega))]
  exact hbounds (by omega) (by omega) j s' hhere'

theorem recurs_of_bounds {pass : Parser α → Parser α} {P : Nat → Parser α} (hidle : Idle P)
    (hsucc : ∀ b, P (b + 1) = pass (P b))
    (hpass : ∀ q n b, Coincide n q (P b) → Coincide (n + 1) (pass q) (pass (P b))) :
    Recurs pass (withBound P) := by
  have hrecurs : RecursWith (fun (q : Unit → Parser α) i => pass (q i)) fun _ => withBound P :=
    recursWith_of_bounds (P := fun b _ => P b) (fun _ => hidle) (fun b _ => hsucc b)
      fun q n b hq i => hpass (q i) n b (hq i)
  exact fun q n hq => hrecurs (fun _ => q) n (fun _ => hq) ()

end Bounds

/-! ### Loops -/

/-- A token of the kind, and the rest. -/
def countPass (kind : Kind) (rest : Parser Nat) : Parser Nat := do
  if ← accept kind then return (← rest) + 1 else return 0

/-- An item after a separator, and the rest. -/
def separatorPass (separator : Kind) (item : Parser α) (rest : Parser (List α)) : Parser (List α) := do
  if ← accept separator then
    let first ← item
    return first :: (← rest)
  else return []

/-- An item of a block, and the rest. -/
def blockPass (item : Parser α) (rest : Parser (List α)) : Parser (List α) := do
  skipNewlines
  if ← accept .dedent then return []
  else
    let first ← item
    return first :: (← rest)

/-- An operand after an operator, and the rest. -/
def chainPass (op? : Kind → Option Operator) (operand : Parser Expr) (rest : Expr → Parser Expr)
    (left : Expr) : Parser Expr := do
  match ← operator? op? with
  | none => return left
  | some op => rest (.binary op left (← operand))

/-- An argument, and the rest. -/
def argumentPass (argument : Parser Expr) (rest : Parser (List Expr)) : Parser (List Expr) := do
  let first ← argument
  let next ← expectAny [.comma, .rightParen]
  if next.kind = .rightParen then return [first]
  else return first :: (← rest)

/-- A word in front of a method, and the rest. -/
def modifierPass (rest : Parser (Bool × Bool)) : Parser (Bool × Bool) := do
  if ← accept .privateWord then return (true, (← rest).2)
  else if ← accept .sharedWord then return ((← rest).1, true)
  else return (false, false)

/-- An interface or a class, and the rest. -/
def programPass (rest : Parser (List Program)) : Parser (List Program) := do
  if (← cursor).done then return []
  else
    let first ← programItem
    skipNewlines
    return first :: (← rest)

/-- What is done with the rest is the same. -/
theorem Coincide.map {f : α → β} (h : Coincide n q p) :
    Coincide n (q >>= fun a => pure (f a)) (p >>= fun a => pure (f a)) :=
  fun s hs => bind_of_moved (h s hs) fun _ _ _ => rfl

theorem countOf_recurs (kind : Kind) : Recurs (countPass kind) (withBound (countOf kind)) := by
  refine recurs_of_bounds (countOf_idle kind) (fun b => rfl) fun q n b hq => ?_
  exact .accept hq.map .refl

theorem afterSeparators_recurs (separator : Kind) {item : Parser α} (hitem : Onward item) :
    Recurs (separatorPass separator item) (withBound (afterSeparators separator item)) := by
  refine recurs_of_bounds (afterSeparators_idle separator item) (fun b => rfl) fun q n b hq => ?_
  exact .accept (.bind .refl hitem fun first => hq.map) .refl

theorem untilDedent_recurs {item : Parser α} {L : Language α} {kinds : List Kind} (hitem : Sound item L)
    (hstart : Starts kinds L) : Recurs (blockPass item) (withBound (untilDedent item)) := by
  refine recurs_of_bounds (untilDedent_idle hitem hstart) (fun b => rfl) fun q n b hq => ?_
  refine .bind .refl skipNewlines_onward fun _ => .accept .refl ?_
  exact .bind_of_starts .refl hitem hstart fun first => hq.map

theorem chainAfter_recurs (op? : Kind → Option Operator) {operand : Parser Expr}
    (hoperand : Onward operand) :
    RecursWith (chainPass op? operand) fun left => withBound fun b => chainAfter op? operand b left := by
  refine recursWith_of_bounds (chainAfter_idle op? operand) (fun b left => rfl) fun q n b hq left => ?_
  exact .operator? (fun op => .bind .refl hoperand fun right => hq _) .refl

theorem argumentsLeft_recurs {argument : Parser Expr} (hargument : Sound argument Expression) :
    Recurs (argumentPass argument) (withBound (argumentsLeft argument)) := by
  refine recurs_of_bounds (argumentsLeft_idle hargument) (fun b => rfl) fun q n b hq => ?_
  refine .bind .refl hargument.onward fun first => .expectAny fun next => ?_
  split
  · exact .refl
  · exact hq.map

theorem modifiers_recurs : Recurs modifierPass (withBound modifiers) := by
  refine recurs_of_bounds modifiers_idle (fun b => rfl) fun q n b hq => ?_
  exact .accept hq.map (.accept hq.map .refl)

theorem programItems_recurs : Recurs programPass (withBound programItems) := by
  refine recurs_of_bounds programItems_idle (fun b => rfl) fun q n b hq s hs => ?_
  refine Coincide.of_ok (cursor_run s) ?_
  cases s.cursor.done with
  | true => rfl
  | false =>
    have hrest : ∀ first, Coincide n (skipNewlines >>= fun _ => q >>= fun rest => pure (first :: rest))
        (skipNewlines >>= fun _ => programItems b >>= fun rest => pure (first :: rest)) :=
      fun first => .bind .refl skipNewlines_onward fun _ => hq.map
    exact Coincide.bind_of_starts .refl programItem_sound programItem_starts hrest s hs

/-! ### Expressions -/

theorem afterSeparators_coincide (separator : Kind) {item item' : Parser α} (h : Coincide n item item')
    (honward : Onward item') (bound : Nat) :
    Coincide n (afterSeparators separator item bound) (afterSeparators separator item' bound) := by
  induction bound with
  | zero => exact .refl
  | succ bound ih =>
    refine .bind .refl (accept_onward separator) fun more => ?_
    cases more with
    | false => exact .refl
    | true => exact .bind h honward fun first => ih.map

section Operands
variable {single single' : Parser Expr} {L : Language Expr}

theorem chain_coincide (op? : Kind → Option Operator) (h : Coincide n single single')
    (hs : Sound single' L) : Coincide n (chain op? single) (chain op? single') := by
  refine .bind h hs.onward fun first => .withBound fun bound => ?_
  induction bound generalizing first with
  | zero => exact .refl
  | succ bound ih =>
    refine .bind .refl (operator?_onward op?) fun op => ?_
    cases op with
    | none => exact .refl
    | some op => exact .bind h hs.onward fun right => ih _

theorem sum_coincide (h : Coincide n single single') (hs : Sound single' Primary) :
    Coincide n (sum single) (sum single') :=
  chain_coincide _ (chain_coincide _ h hs) (chain_sound hs)

theorem comparison_coincide (h : Coincide n single single') (hs : Sound single' Primary) :
    Coincide n (comparison single) (comparison single') := by
  have hsum := sum_coincide h hs
  refine .bind .refl (countOf_onward .not) fun negations =>
    .bind hsum (sum_sound hs).onward fun left => .bind .refl (operator?_onward Parser.compareOp?) fun op => ?_
  cases op with
  | none => exact .refl
  | some op => exact .bind hsum (sum_sound hs).onward fun right => .refl

theorem conjunction_coincide (h : Coincide n single single') (hs : Sound single' Primary) :
    Coincide n (conjunction single) (conjunction single') := by
  unfold conjunction
  exact chain_coincide _ (comparison_coincide h hs) (comparison_sound hs)

theorem disjunction_coincide (h : Coincide n single single') (hs : Sound single' Primary) :
    Coincide n (disjunction single) (disjunction single') := by
  have hsingle := conjunction_coincide h hs
  have honward := (conjunction_sound hs).onward
  unfold disjunction
  exact .bind hsingle honward fun first => .map (.withBound (afterSeparators_coincide .or hsingle honward))

end Operands

section Nested
variable {nested nested' : Parser Expr}

theorem arguments_coincide (h : Coincide n nested nested') (hs : Sound nested' Expression) :
    Coincide n (arguments nested) (arguments nested') := by
  refine .bind .refl (accept_onward .rightParen) fun none => ?_
  cases none with
  | true => exact .refl
  | false =>
    refine .withBound fun bound => ?_
    induction bound with
    | zero => exact h.map
    | succ bound ih =>
      refine .bind h hs.onward fun first => .bind .refl (expectAny_onward _) fun next => ?_
      split
      · exact .refl
      · exact ih.map

theorem call_coincide (h : Coincide n nested nested') (hs : Sound nested' Expression) :
    Coincide (n + 1) (call nested) (call nested') := by
  have harguments := arguments_coincide h hs
  refine .expect fun name => .bind .refl (accept_onward .dot) fun qualified => ?_
  cases qualified with
  | true =>
    exact .bind .refl (expectAny_onward _) fun method => .bind .refl (expectAny_onward _) fun _ =>
      harguments.map
  | false => exact .bind .refl (expectAny_onward _) fun _ => harguments.map

/-- What is nested in an expression comes after a token. -/
theorem primary_coincide (h : Coincide n nested nested') (hs : Sound nested' Expression) :
    Coincide (n + 1) (primary nested) (primary nested') := by
  intro s hu
  unfold primary
  refine Coincide.of_ok (cursor_run s) ?_
  cases s.cursor.peek? 0 with
  | none => rfl
  | some token =>
    dsimp only
    cases token.kind with
    | leftParen => exact Coincide.expect (fun _ => .bind h hs.onward fun inner => .refl) s hu
    | newWord =>
      refine Coincide.expect (fun _ => .bind .refl (expectAny_onward _) fun cls => ?_) s hu
      exact .bind .refl (expectAny_onward _) fun _ => (arguments_coincide h hs).map
    | word =>
      refine Coincide.nextIs (fun called => ?_) s hu
      cases called with
      | true => exact (call_coincide h hs).map
      | false => exact .refl
    | _ => rfl

end Nested

/-- What nests in an expression comes after a token of it. -/
theorem expression_recurs : Recurs (fun nested => disjunction (primary nested)) expression :=
  recurs_of_bounds expressionOf_idle (fun _ => rfl) fun _ _ b hq =>
    disjunction_coincide (primary_coincide hq (expressionOf_sound b)) (primary_sound (expressionOf_sound b))

/-! ### Statements -/

/-- A statement, with those that it holds. -/
def statementPass (nested : Parser Stmt) : Parser Stmt := do
  if ← nextIs 0 [.ifWord] then branch nested
  else if ← nextIs 0 [.loopWord] then loop nested
  else if ← nextIs 0 [.word] then
    let statement ← simpleStatement
    lineEnd
    return statement
  else complain [.ifWord, .loopWord, .word]

section Statements
variable {nested nested' : Parser Stmt}

theorem block_coincide (h : Coincide n nested nested') (hs : Sound nested' Statement) :
    Coincide n (block nested) (block nested') := by
  refine .bind .refl (expectAny_onward _) fun _ => .withBound fun bound => ?_
  induction bound with
  | zero => exact h.map
  | succ bound ih =>
    refine .bind .refl skipNewlines_onward fun _ => .bind .refl (accept_onward .dedent) fun closed => ?_
    cases closed with
    | true => exact .refl
    | false => exact .bind h hs.onward fun first => ih.map

theorem branch_coincide (h : Coincide n nested nested') (hs : Sound nested' Statement) :
    Coincide (n + 1) (branch nested) (branch nested') := by
  have hblock := block_coincide h hs
  have hblocks : Onward (block nested') := (block_sound hs statement_starts).onward
  refine .expect fun _ => .bind .refl expression_sound.onward fun condition =>
    .bind .refl (spanFrom_still _).onward fun span => .bind .refl lineEnd_onward fun _ =>
    .bind hblock hblocks fun yes => .bind .refl (accept_onward .elseWord) fun more => ?_
  cases more with
  | true => exact .bind .refl lineEnd_onward fun _ => hblock.map
  | false => exact .refl

theorem loopTarget_onward : Onward loopTarget := by
  intro s target s' _ hrun
  obtain ⟨ts, hm, -⟩ := loopTarget_sound hrun
  exact ⟨ts, hm⟩

theorem loop_coincide (h : Coincide n nested nested') (hs : Sound nested' Statement) :
    Coincide (n + 1) (loop nested) (loop nested') := by
  refine .expect fun _ => .bind .refl loopTarget_onward fun target =>
    .bind .refl expression_sound.onward fun source => .bind .refl (spanFrom_still _).onward fun span =>
    .bind .refl lineEnd_onward fun _ => .nextIs fun indented => ?_
  cases indented with
  | true => exact (block_coincide h hs).map
  | false => exact .refl

end Statements

/-- The statements that a statement holds come after a token of it. -/
theorem statement_recurs : Recurs statementPass statement := by
  refine recurs_of_bounds statementOf_idle (fun b => rfl) fun q n b hq => ?_
  have hs := statementOf_sound b
  refine .nextIs fun branches => ?_
  cases branches with
  | true => exact branch_coincide hq hs
  | false =>
    refine .nextIs fun loops => ?_
    cases loops with
    | true => exact loop_coincide hq hs
    | false => exact .refl

end Offside.Parser
