import Offside.Proofs.Grammar.Lookahead

/-! Which numbers are called malformed.

A reader fails where a token is of the wrong kind or missing, and these failures say so. One place
alone calls a number malformed: where no number was read from the token's text. So every failure of
every production is `Earned`. -/
namespace Offside

/-- The error calls no number malformed, or one that cannot be read. -/
def ParseError.Earned (e : ParseError) : Prop :=
  ∀ text, e.cause = .malformedNumber text → Number.read? text = none

theorem ParseError.earned_of_ne {e : ParseError} (h : ∀ text, e.cause ≠ .malformedNumber text) : e.Earned :=
  fun text hcause => absurd hcause (h text)

theorem Cursor.complaint_earned (c : Cursor) (kinds : List Kind) : (c.complaint kinds).Earned := by
  unfold Cursor.complaint
  split <;> exact ParseError.earned_of_ne nofun

namespace Parser

variable {α β : Type} {p q : Parser α}

/-- Every failure of the reader is earned. -/
def Earns (p : Parser α) : Prop := ∀ s e s', p s = .error e s' → e.Earned

theorem Earns.bind {f : α → Parser β} (hp : Earns p) (hf : ∀ a, Earns (f a)) : Earns (p >>= f) := by
  intro s e s' h
  rcases bind_eq_error.mp h with h | ⟨a, s₁, -, h⟩
  · exact hp s e s' h
  · exact hf a s₁ e s' h

theorem Earns.ite {c : Prop} [Decidable c] (hp : Earns p) (hq : Earns q) : Earns (if c then p else q) := by
  split
  · exact hp
  · exact hq

theorem Earns.withBound {P : Nat → Parser α} (h : ∀ bound, Earns (P bound)) : Earns (withBound P) :=
  fun s => h s.count s

theorem Never.earns (h : Never p) : Earns p := fun s e s' he => absurd he (h s e s')

theorem Still.earns (h : Still p) : Earns p := h.never.earns

theorem pure_earns {a : α} : Earns (pure a : Parser α) := (pure_never a).earns

theorem Earns.map {f : α → β} (hp : Earns p) : Earns (do return f (← p)) := hp.bind fun _ => pure_earns

theorem throw_earns {e : ParseError} (h : e.Earned) : Earns (throw e : Parser α) := by
  intro s e' s' he
  cases he
  exact h

/-! ### Tokens and repetitions -/

theorem cursor_earns : Earns cursor := Still.earns fun s => ⟨_, s, rfl, .refl s⟩

theorem nextIs_earns {offset : Int} {kinds : List Kind} : Earns (nextIs offset kinds) :=
  Still.earns (nextIs_still offset kinds)

theorem spanFrom_earns {start : Position} : Earns (spanFrom start) := Still.earns (spanFrom_still start)

theorem passing_earns {m : Milestone} : Earns (passing m) := Still.earns (passing_still m)

theorem accept_earns {kind : Kind} : Earns (accept kind) := (accept_never kind).earns

theorem complain_earns {kinds : List Kind} : Earns (complain kinds : Parser α) :=
  .bind cursor_earns fun c => throw_earns (c.complaint_earned kinds)

theorem expectAny_earns {kinds : List Kind} : Earns (expectAny kinds) := by
  refine .bind cursor_earns fun c => ?_
  unfold Cursor.expect
  cases c.matchFirst? kinds with
  | none => exact throw_earns (c.complaint_earned kinds)
  | some taken => exact .bind (Never.earns nofun) fun _ => pure_earns

theorem expect_earns {kind : Kind} : Earns (expect kind) := expectAny_earns

theorem skipNewlines_earns : Earns skipNewlines := skipNewlines_never.earns

theorem lineEnd_earns : Earns lineEnd := .bind expect_earns fun _ => skipNewlines_earns

theorem afterSeparators_earns {separator : Kind} (hp : Earns p) :
    Earns (withBound (afterSeparators separator p)) := by
  refine .withBound fun bound => ?_
  induction bound with
  | zero => exact pure_earns
  | succ bound ih => exact .bind accept_earns fun _ => .ite (.bind hp fun _ => .map ih) pure_earns

theorem separated_earns {separator : Kind} (hp : Earns p) : Earns (separated separator p) :=
  .bind hp fun _ => .map (afterSeparators_earns hp)

theorem block_earns (hp : Earns p) : Earns (block p) := by
  refine .bind expect_earns fun _ => .withBound fun bound => ?_
  induction bound with
  | zero => exact .map hp
  | succ bound ih =>
    refine .bind skipNewlines_earns fun _ => .bind accept_earns fun _ => .ite pure_earns ?_
    exact .bind hp fun _ => .map ih

/-! ### Expressions -/

theorem chain_earns {op? : Kind → Option Operator} {operand : Parser Expr} (hoperand : Earns operand) :
    Earns (chain op? operand) := by
  refine .bind hoperand fun first => .withBound fun bound => ?_
  induction bound generalizing first with
  | zero => exact pure_earns
  | succ bound ih =>
    refine .bind (operator?_never op?).earns fun op => ?_
    cases op with
    | none => exact pure_earns
    | some op => exact .bind hoperand fun right => ih (.binary op first right)

section Levels
variable {single : Parser Expr} (hsingle : Earns single)
include hsingle

theorem sum_earns : Earns (sum single) := chain_earns (chain_earns hsingle)

theorem comparison_earns : Earns (comparison single) := by
  refine .bind (withBound_never (countOf_never _)).earns fun _ => .bind (sum_earns hsingle) fun left => ?_
  refine .bind (operator?_never _).earns fun op => ?_
  cases op with
  | none => exact pure_earns
  | some op => exact .map (sum_earns hsingle)

theorem disjunction_earns : Earns (disjunction single) := by
  have hconjunction : Earns (conjunction single) := chain_earns (comparison_earns hsingle)
  exact .bind hconjunction fun _ => .map (afterSeparators_earns hconjunction)

end Levels

/-- The one place that calls a number malformed. -/
theorem numberOf_earns (t : Token) : Earns (numberOf t) := by
  unfold numberOf
  cases hread : Number.read? t.text with
  | some value => exact pure_earns
  | none =>
    refine throw_earns fun text hcause => ?_
    cases hcause
    exact hread

theorem characterOf_earns (t : Token) : Earns (characterOf t) := by
  unfold characterOf
  split
  · exact pure_earns
  · exact throw_earns (ParseError.earned_of_ne nofun)

section Nested
variable {nested : Parser Expr} (hnested : Earns nested)
include hnested

theorem arguments_earns : Earns (arguments nested) := by
  refine .bind accept_earns fun _ => .ite pure_earns (.withBound fun bound => ?_)
  induction bound with
  | zero => exact .map hnested
  | succ bound ih => exact .bind hnested fun _ => .bind expectAny_earns fun _ => .ite pure_earns (.map ih)

theorem call_earns : Earns (call nested) := by
  have harguments := arguments_earns hnested
  refine .bind expect_earns fun _ => .bind accept_earns fun _ => .ite ?_ ?_
  · exact .bind expect_earns fun _ => .bind expect_earns fun _ => .map harguments
  · exact .bind expect_earns fun _ => .map harguments

theorem primary_earns : Earns (primary nested) := by
  have hword {kind : Kind} {e : Expr} : Earns (do let _ ← expect kind; return e) := .map expect_earns
  refine .bind cursor_earns fun c => ?_
  split
  · exact .bind cursor_earns fun _ => throw_earns (ParseError.earned_of_ne nofun)
  · split
    · exact hword
    · exact hword
    · exact .bind expect_earns fun _ => numberOf_earns _
    · exact hword
    · exact .bind expect_earns fun _ => characterOf_earns _
    · exact .bind expect_earns fun _ => .bind hnested fun _ => .map expect_earns
    · refine .bind expect_earns fun _ => .bind expect_earns fun _ => .bind expect_earns fun _ => ?_
      exact .map (arguments_earns hnested)
    · exact .bind nextIs_earns fun _ => .ite (.map (call_earns hnested)) hword
    · exact complain_earns

end Nested

theorem expression_earns : Earns expression := by
  refine .withBound fun bound => ?_
  induction bound with
  | zero => exact .bind cursor_earns fun _ => throw_earns (ParseError.earned_of_ne nofun)
  | succ bound ih => exact disjunction_earns (primary_earns ih)

theorem callExpression_earns : Earns callExpression := call_earns expression_earns

/-! ### Statements -/

theorem receivingCall_earns {start : Position} : Earns (receivingCall start) := by
  refine .bind (separated_earns (.map expect_earns)) fun _ => .bind expect_earns fun _ => ?_
  exact .bind callExpression_earns fun _ => .map spanFrom_earns

theorem assignment_earns {start : Position} : Earns (assignment start) :=
  .bind expect_earns fun _ => .bind expect_earns fun _ => .bind expression_earns fun _ => .map spanFrom_earns

theorem simpleStatement_earns : Earns simpleStatement := by
  refine .bind (Still.earns position_still) fun _ => .bind nextIs_earns fun _ => .ite ?_ ?_
  · exact .bind callExpression_earns fun _ => .map spanFrom_earns
  refine .bind nextIs_earns fun _ => .ite receivingCall_earns (.bind nextIs_earns fun _ => .ite ?_ ?_)
  · exact .bind nextIs_earns fun _ => .bind nextIs_earns fun _ => .ite receivingCall_earns assignment_earns
  · exact .bind expect_earns fun _ => complain_earns

theorem loopTarget_earns : Earns loopTarget := by
  refine .bind nextIs_earns fun _ => .bind nextIs_earns fun _ => .ite ?_ pure_earns
  exact .bind expect_earns fun _ => .map expect_earns

section Nested
variable {nested : Parser Stmt} (hnested : Earns nested)
include hnested

theorem branch_earns : Earns (branch nested) := by
  refine .bind expect_earns fun _ => .bind expression_earns fun _ => .bind spanFrom_earns fun _ => ?_
  refine .bind lineEnd_earns fun _ => .bind (block_earns hnested) fun _ => .bind accept_earns fun _ => ?_
  exact .ite (.bind lineEnd_earns fun _ => .map (block_earns hnested)) pure_earns

theorem loop_earns : Earns (loop nested) := by
  refine .bind expect_earns fun _ => .bind loopTarget_earns fun _ => .bind expression_earns fun _ => ?_
  refine .bind spanFrom_earns fun _ => .bind lineEnd_earns fun _ => .bind nextIs_earns fun _ => ?_
  exact .ite (.map (block_earns hnested)) pure_earns

end Nested

theorem statement_earns : Earns statement := by
  refine .withBound fun bound => ?_
  induction bound with
  | zero => exact complain_earns
  | succ bound ih =>
    refine .bind nextIs_earns fun _ => .ite (branch_earns ih) (.bind nextIs_earns fun _ => ?_)
    refine .ite (loop_earns ih) (.bind nextIs_earns fun _ => .ite ?_ complain_earns)
    exact .bind simpleStatement_earns fun _ => .map lineEnd_earns

/-! ### Declarations -/

theorem declaration_earns : Earns declaration := .bind expect_earns fun _ => .map expect_earns

theorem declarations_earns : Earns declarations :=
  .bind nextIs_earns fun _ => .ite (separated_earns declaration_earns) pure_earns

theorem parameters_earns : Earns parameters :=
  .bind expect_earns fun _ => .bind declarations_earns fun _ => .map expect_earns

theorem header_earns : Earns header := by
  refine .bind expect_earns fun _ => .bind parameters_earns fun _ => .bind accept_earns fun _ => ?_
  refine .ite (.bind declarations_earns fun _ => .ite ?_ pure_earns) pure_earns
  refine .bind cursor_earns fun _ => .bind (throw_earns (ParseError.earned_of_ne nofun)) fun _ => ?_
  exact pure_earns

theorem interfaceDecl_earns : Earns interfaceDecl := by
  refine .bind expect_earns fun _ => .bind expect_earns fun _ => .bind spanFrom_earns fun _ => ?_
  refine .bind passing_earns fun _ => .bind lineEnd_earns fun _ => .map (block_earns ?_)
  exact .bind header_earns fun _ => .map lineEnd_earns

theorem body_earns : Earns body := by
  refine .map (block_earns (.bind nextIs_earns fun _ => .bind nextIs_earns fun _ => ?_))
  exact .ite (.bind declaration_earns fun _ => .map lineEnd_earns) (.map statement_earns)

theorem fieldBody_earns {opener : Kind} : Earns (fieldBody opener) := by
  refine .bind accept_earns fun _ => .ite (.bind expect_earns fun _ => ?_) pure_earns
  refine .bind lineEnd_earns fun _ => .bind (block_earns statement_earns) fun _ => ?_
  exact .map skipNewlines_earns

theorem member_earns : Earns member := by
  refine .bind declaration_earns fun _ => .bind lineEnd_earns fun _ => .bind accept_earns fun _ => ?_
  refine .ite (.bind skipNewlines_earns fun _ => ?_) pure_earns
  exact .bind fieldBody_earns fun _ => .bind fieldBody_earns fun _ => .map expect_earns

theorem constructorDecl_earns : Earns constructorDecl := by
  refine .bind expect_earns fun _ => .bind parameters_earns fun _ => .bind spanFrom_earns fun _ => ?_
  refine .bind lineEnd_earns fun _ => .bind nextIs_earns fun _ => ?_
  exact .ite (.map body_earns) pure_earns

theorem modifiers_earns : Earns (withBound modifiers) := by
  refine .withBound fun bound => ?_
  induction bound with
  | zero => exact pure_earns
  | succ bound ih =>
    exact .bind accept_earns fun _ => .ite (.map ih)
      (.bind accept_earns fun _ => .ite (.map ih) pure_earns)

theorem methodDecl_earns : Earns methodDecl := by
  refine .bind (Still.earns position_still) fun _ => .bind modifiers_earns fun _ => ?_
  refine .bind header_earns fun _ => .bind spanFrom_earns fun _ => .bind passing_earns fun _ => ?_
  exact .bind lineEnd_earns fun _ => .map body_earns

theorem classItem_earns : Earns classItem := by
  refine .bind nextIs_earns fun _ => .ite (.map constructorDecl_earns) (.bind nextIs_earns fun _ => ?_)
  refine .ite (.map methodDecl_earns) (.bind nextIs_earns fun _ => .ite ?_ complain_earns)
  refine .bind nextIs_earns fun _ => .ite (.map methodDecl_earns) (.bind nextIs_earns fun _ => ?_)
  exact .ite (.map member_earns) (.bind expect_earns fun _ => complain_earns)

theorem classDecl_earns : Earns classDecl := by
  have himplemented : Earns implemented :=
    .bind accept_earns fun _ => .ite (separated_earns (.map expect_earns)) pure_earns
  refine .bind expect_earns fun _ => .bind expect_earns fun _ => .bind himplemented fun _ => ?_
  refine .bind spanFrom_earns fun _ => .bind passing_earns fun _ => .bind lineEnd_earns fun _ => ?_
  exact .map (block_earns classItem_earns)

theorem programItem_earns : Earns programItem := by
  refine .bind nextIs_earns fun _ => .ite (.map interfaceDecl_earns) (.bind nextIs_earns fun _ => ?_)
  exact .ite (.map classDecl_earns) complain_earns

theorem program_earns : Earns program := by
  refine .bind skipNewlines_earns fun _ => .map (.withBound fun bound => ?_)
  induction bound with
  | zero => exact pure_earns
  | succ bound ih =>
    refine .bind cursor_earns fun _ => .ite pure_earns (.bind programItem_earns fun _ => ?_)
    exact .bind skipNewlines_earns fun _ => .map ih

end Parser

/-- A number that is called malformed is a token that cannot be read. -/
theorem malformed_of_parse {tokens : List Token} {e : ParseError} {text : String}
    (h : parse tokens = .error e) (hcause : e.cause = .malformedNumber text) :
    ⟨.number, e.span, text⟩ ∈ tokens ∧ Number.read? text = none := by
  obtain ⟨s', hrun, -⟩ := parse_eq_error h
  refine ⟨?_, Parser.program_earns _ e s' hrun text hcause⟩
  -- Such an error ends in the token that it blames, so that token was read.
  obtain ⟨ts, hm, hends, -⟩ := Parser.program_leads.fails _ (Parser.bounded_ofTokens tokens) e s' hrun
  obtain ⟨us, rfl⟩ := hends ⟨.number, e.span, text⟩ (by simp [ParseError.taken?, hcause])
  have hrest : tokens = us ++ [⟨.number, e.span, text⟩] ++ s'.cursor.rest := hm.rest
  simp [hrest]

end Offside
