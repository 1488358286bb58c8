import Offside.Proofs.Grammar.Blame

/-! What was read ahead of the token that is blamed can always be completed.

One lemma for each production, in the order of the reader: the tokens that it has read when it
fails, the blamed one aside, are the start of some phrase of its language. -/
namespace Offside.Parser

open Reading Grammar

variable {V : List Token → Prop}

/-! ### Expressions -/

section Operators
variable {α Op : Type} {op? : Kind → Option Op}

theorem operator?_never (op? : Kind → Option Op) : Never (operator? op?) := by
  intro s e s' h
  by_cases hn : ∀ t ∈ s.cursor.rest.head?, op? t.kind = none
  · rw [operator?_of_none hn] at h
    cases h
  · cases hr : s.cursor.rest with
    | nil => simp [hr] at hn
    | cons t k =>
      obtain ⟨op, hop⟩ := Option.ne_none_iff_exists'.mp (by simpa [hr] using hn)
      obtain ⟨s₁, h₁, -⟩ := operator?_of_next hr hop
      rw [h₁] at h
      cases h

/-- An operator that may be there. -/
inductive OperatorOf (op? : Kind → Option Op) : Language (Option Op)
  | absent : OperatorOf op? [] none
  | present {t op} : op? t.kind = some op → OperatorOf op? [t] (some op)

theorem operatorOf_sound (op? : Kind → Option Op) : Sound (operator? op?) (OperatorOf op?) := by
  intro s o s' _ h
  rcases operator?_cases h with ⟨rfl, rfl⟩ | ⟨t, op, rfl, hop, hm⟩
  · exact ⟨[], Moved.refl s', .absent⟩
  · exact ⟨[t], hm, .present hop⟩

theorem Leads.operator {f : Option Op → Parser α} (hnone : Leads V (f none))
    (hsome : ∀ t op, op? t.kind = some op → Leads (fun us => V (t :: us)) (f (some op))) :
    Leads V (operator? op? >>= f) := by
  refine .bind (operatorOf_sound op?) ((operator?_never op?).leads (.of_mem ⟨none, .absent⟩))
    fun ts o h => ?_
  cases h with
  | absent => exact hnone
  | present hop => exact hsome _ _ hop

end Operators

section Chains
variable {op? : Kind → Option Operator} {operand : Parser Expr} {L : Language Expr}

theorem chainAfter_leads (hs : Sound operand L) (hoperand : Leads (Phrase L) operand) (bound : Nat)
    {ts : List Token}
    {left : Expr} (h : Chain op? L ts left) :
    Leads (fun us => Phrase (Chain op? L) (ts ++ us)) (chainAfter op? operand bound left) := by
  have hend : ∀ {ts left}, Chain op? L ts left →
    Viable (fun us => Phrase (Chain op? L) (ts ++ us)) [] :=
    fun h => ⟨[], _, by simpa using h⟩
  induction bound generalizing ts left with
  | zero => exact pure_leads (hend h)
  | succ bound ih =>
    refine .operator (pure_leads (hend h)) fun t op hop =>
      .bind hs hoperand fun us right hright => ?_
    simpa only [List.append_assoc, List.cons_append] using ih (.more h hop hright)

theorem chain_leads (hs : Sound operand L) (hoperand : Leads (Phrase L) operand) :
    Leads (Phrase (Chain op? L)) (chain op? operand) :=
  .bind hs hoperand fun _ _ he => .withBound fun bound =>
    chainAfter_leads hs hoperand bound (.one he)

end Chains

section Expressions
variable {single : Parser Expr}

theorem sum_leads (hs : Sound single Primary) (hsingle : Leads (Phrase Primary) single) :
    Leads (Phrase Summation) (sum single) := by
  rw [sum_eq]
  exact chain_leads (chain_sound hs) (chain_leads hs hsingle)

/-- Negations, and how many they are. -/
inductive Negations : Language Nat
  | mk {ns} : (∀ t ∈ ns, t.kind = .not) → Negations ns ns.length

theorem negations_sound : Sound (withBound (countOf .not)) Negations := by
  intro s m s' hb h
  obtain ⟨s₁, h₁, hm⟩ := countOf_run .not s.count s hb
  rw [withBound_of_ok h₁] at h
  cases h
  refine ⟨_, hm, .mk fun t ht => ?_⟩
  simpa using List.all_eq_true.mp List.all_takeWhile t ht

theorem comparison_leads (hs : Sound single Primary) (hsingle : Leads (Phrase Primary) single) :
    Leads (Phrase Comparison) (comparison single) := by
  have hnone : Negations [] 0 := .mk (by simp)
  refine .bind negations_sound
    ((withBound_never (countOf_never .not)).leads (.of_mem ⟨_, hnone⟩)) ?_
  rintro ns _ ⟨hns⟩
  refine .bind (sum_sound hs) (sum_leads hs hsingle) fun ts left hleft =>
    .operator (pure_leads ?_) fun t op hop => ?_
  · exact .of_mem ⟨_, by simpa using comparison_of_negations hns (.sum hleft)⟩
  · refine .bind (sum_sound hs) (sum_leads hs hsingle) fun us right hright => ?_
    refine .final
      (pure_leads (.of_mem ⟨Nat.repeat Expr.not ns.length (.binary (.compare op) left right), ?_⟩))
      fun _ => pure_never _
    simpa using comparison_of_negations hns (.compare hleft (compareOp?_of_read hop) hright)

theorem disjunction_leads (hs : Sound single Primary) (hsingle : Leads (Phrase Primary) single) :
    Leads (Phrase Expression) (disjunction single) := by
  have hconjunction : Leads (Phrase Conjunction) (conjunction single) := by
    rw [conjunction_eq]
    exact chain_leads (comparison_sound hs) (comparison_leads hs hsingle)
  refine .bind (conjunction_sound hs) hconjunction fun ts first hfirst =>
    .final (.withBound fun bound => ?_) fun _ => pure_never _
  refine (afterSeparators_leads (conjunction_sound hs) hconjunction bound (.one hfirst)).within ?_
  rintro us ⟨es, hes⟩
  cases es with
  | nil => exact absurd rfl hes.ne_nil
  | cons e es => exact .of_mem ⟨_, disjunction_of_separated hes⟩

end Expressions

section Arguments
variable {nested : Parser Expr} {opener : Token}

/-- An argument may stand after the tokens. -/
def AwaitsArgument (ts : List Token) : Prop :=
  ∀ us e, Expression us e → ∃ es, Separated .comma Expression (ts ++ us) es

theorem argumentsLeft_leads (hs : Sound nested Expression)
    (hnested : Leads (Phrase Expression) nested)
    (ho : opener.kind = .leftParen) (bound : Nat) {ts : List Token} (hts : AwaitsArgument ts) :
    Leads (fun us => Phrase Arguments (opener :: (ts ++ us))) (argumentsLeft nested bound) := by
  induction bound generalizing ts with
  | zero =>
    refine .bind hs hnested fun us e he => pure_leads ⟨[Token.sample .rightParen], ?_⟩
    obtain ⟨es, hes⟩ := hts us e he
    have hclose : (Token.sample .rightParen).kind = .rightParen := rfl
    exact ⟨es, by simpa using Arguments.mk ho (.present hes) hclose⟩
  | succ bound ih =>
    have hkind : Kind.rightParen ∈ [Kind.comma, .rightParen] := by decide
    refine .bind hs hnested fun us e he => .expectAny hkind fun next hnext => ?_
    obtain ⟨es, hes⟩ := hts us e he
    split
    · next hclose =>
        exact pure_leads (.of_mem ⟨es, by simpa using Arguments.mk ho (.present hes) hclose⟩)
    · next hcomma =>
      have hnext : next.kind = .comma := by simpa [hcomma] using hnext
      have hrest : AwaitsArgument (ts ++ us ++ [next]) := by
        intro vs e' he'
        exact ⟨es ++ [e'], by simpa using hes.snoc hnext he'⟩
      refine .final ?_ fun _ => pure_never _
      simpa only [List.append_assoc, List.singleton_append] using ih hrest

theorem arguments_leads (hs : Sound nested Expression) (hnested : Leads (Phrase Expression) nested)
    (ho : opener.kind = .leftParen) :
    Leads (fun us => Phrase Arguments (opener :: us)) (arguments nested) := by
  have hfirst : AwaitsArgument [] := fun us e he => ⟨[e], .one he⟩
  refine .accept (fun closer hc => pure_leads (.of_mem ⟨[], .mk ho .absent hc⟩)) ?_
  exact .withBound fun bound => argumentsLeft_leads hs hnested ho bound hfirst

theorem call_leads (hs : Sound nested Expression) (hnested : Leads (Phrase Expression) nested) :
    Leads (Phrase Invocation) (call nested) := by
  refine .expect fun name hname => .accept (fun dot hdot => ?_) ?_
  · refine .expect fun method hmethod => .expect fun opener ho => .final ?_ fun _ => pure_never _
    refine (arguments_leads hs hnested ho).within ?_
    rintro us ⟨es, hes⟩
    exact .of_mem ⟨_, .qualified hname (qualifier_iff.mpr rfl) hdot hmethod hes⟩
  · refine .expect fun opener ho => .final ?_ fun _ => pure_never _
    refine (arguments_leads hs hnested ho).within ?_
    rintro us ⟨es, hes⟩
    exact .of_mem ⟨_, .own hname hes⟩

end Arguments

section Primary
variable {nested : Parser Expr}

theorem viable_primary : Viable (Phrase Primary) [] := ⟨[Token.sample .trueWord], _, .truth rfl⟩

/-- A token that stands for a value is blamed itself if it stands for none. -/
theorem literal_fails {kind : Kind} {t : Token} {k : List Token} {f : Parser Expr} {s : Reading}
    (hb : s.Bounded) (hr : s.cursor.rest = t :: k)
    (hf : ∀ s e s', f s = .error e s' → s' = s ∧ e.taken? = some t) :
    FailsAt (Phrase Primary) (expect kind >>= fun _ => f) s := by
  intro e s'' h
  rcases bind_eq_error.mp h with h | ⟨u, s', h₁, h₂⟩
  · exact (expectAny_leads viable_primary).fails s hb e s'' h
  · obtain ⟨rfl, he⟩ := hf s' e s'' h₂
    obtain ⟨rfl, -, hm⟩ := expect_next hr h₁
    refine ⟨[u], hm, fun v hv => ⟨[], ?_⟩, ?_⟩
    · rw [he] at hv
      cases hv
      rfl
    · have hahead : e.ahead [u] = [] := e.ahead_concat he []
      rw [hahead]
      exact viable_primary

theorem numberOf_eq_error {t : Token} (ht : t.kind = .number) {s s' : Reading} {e : ParseError}
    (h : numberOf t s = .error e s') : s' = s ∧ e.taken? = some t := by
  unfold numberOf at h
  cases hread : Number.read? t.text with
  | some value =>
    simp only [hread] at h
    cases h
  | none =>
    simp only [hread] at h
    cases h
    exact ⟨rfl, by simp only [ParseError.taken?, ← ht]⟩

theorem characterOf_eq_error {t : Token} (ht : t.kind = .character) {s s' : Reading}
    {e : ParseError}
    (h : characterOf t s = .error e s') : s' = s ∧ e.taken? = some t := by
  unfold characterOf at h
  cases htext : t.text.toList with
  | cons c cs =>
    simp only [htext] at h
    cases h
  | nil =>
    simp only [htext] at h
    cases h
    have htext : t.text = "" := by simpa using htext
    exact ⟨rfl, by simp only [ParseError.taken?, ← ht, ← htext]⟩

theorem primary_leads (hs : Sound nested Expression) (hnested : Leads (Phrase Expression) nested) :
    Leads (Phrase Primary) (primary nested) := by
  refine ⟨viable_primary, fun s hb => ?_⟩
  have hword :
    ∀ {kind : Kind} {e : Expr}, Leads (Phrase Primary) (expect kind >>= fun _ => pure e) :=
    .final (expectAny_leads viable_primary) fun _ => pure_never _
  unfold primary
  refine .of_ok (cursor_run s) (Moved.refl s) ?_
  cases hr : s.cursor.rest with
  | nil =>
    have hpeek : s.cursor.peek? 0 = none := by
      show s.cursor.rest[0]? = none
      rw [hr]
      rfl
    simp only [hpeek]
    exact (throw_leads viable_primary fun _ => rfl).fails s hb
  | cons t k =>
    simp only [peek?_zero hr]
    cases ht : t.kind with
    | trueWord => exact hword.fails s hb
    | falseWord => exact hword.fails s hb
    | text => exact hword.fails s hb
    | number => exact literal_fails hb hr fun _ _ _ => numberOf_eq_error ht
    | character => exact literal_fails hb hr fun _ _ _ => characterOf_eq_error ht
    | leftParen =>
      refine Leads.fails
        (.expect fun opener ho => .bind hs hnested fun ts e he => .expect fun closer hc => ?_) s hb
      exact pure_leads (.of_mem ⟨e, .parenthesized ho he hc⟩)
    | newWord =>
      refine Leads.fails
        (.expect fun first hfirst => .expect fun name hname => .expect fun opener ho => ?_) s hb
      refine .final ((arguments_leads hs hnested ho).within ?_) fun _ => pure_never _
      rintro us ⟨es, hes⟩
      exact .of_mem ⟨_, .create hfirst hname hes⟩
    | word =>
      refine Leads.fails (.still (nextIs_still _ _) fun b => ?_) s hb
      cases b with
      | false => exact hword
      | true =>
        refine .final ((call_leads hs hnested).within ?_) fun _ => pure_never _
        rintro us ⟨c, hc⟩
        exact .of_mem ⟨_, .call hc⟩
    | _ => exact (complain_leads viable_primary).fails s hb

end Primary

theorem expression_of_primary {ts : List Token} {e : Expr} (h : Primary ts e) : Expression ts e :=
  .one (.one (.sum (.one (.one h))))

theorem expressionOf_leads (bound : Nat) : Leads (Phrase Expression) (expressionOf bound) := by
  induction bound with
  | zero =>
    refine throw_leads (viable_primary.within ?_) fun _ => rfl
    rintro ts ⟨e, he⟩
    exact .of_mem ⟨e, expression_of_primary he⟩
  | succ bound ih =>
    have hs := expressionOf_sound bound
    exact disjunction_leads (primary_sound hs) (primary_leads hs ih)

theorem expression_leads : Leads (Phrase Expression) expression := .withBound expressionOf_leads

theorem callExpression_leads : Leads (Phrase Invocation) callExpression :=
  call_leads expression_sound expression_leads

/-! ### Statements -/

theorem name_leads : Leads (Phrase Name) name :=
  .expect fun _ ht => pure_leads (.of_mem ⟨_, .mk ht⟩)

/-- Variables, an equals sign and a call are a statement, however the call starts. -/
theorem receiving_simple {ts us : List Token} {names : List String} {eq : Token} {c : Call}
    (hnames : Separated .comma Name ts names) (heq : eq.kind = .assign) (hc : Invocation us c) :
    Phrase Simple (ts ++ eq :: us) := by
  rcases names_second hnames with ⟨t, rfl, ht, rfl⟩ | ⟨_, _, _, _, _, _, hlen⟩
  · by_cases hstart : StartsCall us
    · exact ⟨_, .receiveOne ht heq hc hstart⟩
    · exact ⟨_, .assign ht heq (expression_of_primary (.call hc)) hstart⟩
  · exact ⟨_, .receiveMany hnames hlen heq hc⟩

theorem receivingCall_leads (start : Position) : Leads (Phrase Simple) (receivingCall start) := by
  refine .bind (separated_sound name_sound) (separated_leads name_sound name_leads)
    fun ts names hnames => ?_
  refine .expect fun eq heq => .bind callExpression_sound callExpression_leads fun us c hc => ?_
  refine .still (spanFrom_still _) fun _ => pure_leads (.of_mem ?_)
  simpa using receiving_simple hnames heq hc

theorem startsCall_of_prefix {ts us : List Token} (h : StartsCall ts) (hus : ts <+: us) :
    StartsCall us := by
  obtain ⟨vs, rfl⟩ := hus
  cases ts with
  | nil => exact h.elim
  | cons t ts =>
    cases ts with
    | nil => exact h.elim
    | cons u ts => exact h

/-- What starts a value, though not as a call does, can be completed to be assigned: one word by
itself is a value already. -/
theorem viable_assign {t eq : Token} {us : List Token} (ht : t.kind = .word)
    (heq : eq.kind = .assign)
    (hus : Viable (Phrase Expression) us) (hstart : ¬ StartsCall us) :
    Viable (fun us => Phrase Simple (t :: eq :: us)) us := by
  obtain ⟨vs, e, he⟩ := hus
  cases us with
  | nil =>
    refine ⟨[Token.sample .trueWord], _, .assign ht heq (expression_of_primary (.truth rfl)) ?_⟩
    simp [StartsCall]
  | cons u us =>
    cases us with
    | cons u' us => exact ⟨vs, _, .assign ht heq he hstart⟩
    | nil =>
      by_cases hu : u.kind = .word
      · exact ⟨[], _, .assign ht heq (expression_of_primary (.variable hu)) hstart⟩
      · refine ⟨vs, _, .assign ht heq he fun hcall => ?_⟩
        cases vs with
        | nil => exact hcall.elim
        | cons v vs => exact hu hcall.1

theorem viable_simple : Viable (Phrase Simple) [] :=
  callExpression_leads.viable.within fun _ ⟨_, hc⟩ => .of_mem ⟨_, .call hc⟩

theorem assignment_fails (start : Position) {s : Reading} (hb : s.Bounded)
    (hcall : (s.cursor.peekIs 2 [.word] && s.cursor.peekIs 3 [.leftParen]) = false) :
    FailsAt (Phrase Simple) (assignment start) s := by
  refine .expect hb viable_simple fun t s₁ ht hm₁ => ?_
  have hassign : ∀ {eq : Token}, eq.kind = .assign →
    Viable (fun us => Phrase Simple (t :: eq :: us)) [] :=
    fun heq => viable_assign ht heq expression_leads.viable (by simp [StartsCall])
  obtain ⟨us, hus⟩ := hassign (show (Token.sample .assign).kind = .assign from rfl)
  refine .expect (hm₁.bounded hb) ⟨Token.sample .assign :: us, hus⟩ fun eq s₂ heq hm₂ => ?_
  have hb₂ := hm₂.bounded (hm₁.bounded hb)
  refine .final ((expression_leads.fails s₂ hb₂).within ?_) fun _ =>
    (spanFrom_still _).never.bind fun _ => pure_never _
  intro us hnext hus
  refine viable_assign ht heq hus fun hstart => ?_
  have hrest : s.cursor.rest = t :: eq :: s₂.cursor.rest := by
    rw [hm₁.rest, hm₂.rest]
    rfl
  have hstart := startsCall_of_prefix hstart hnext
  cases hr₂ : s₂.cursor.rest with
  | nil => simp [hr₂, StartsCall] at hstart
  | cons a k =>
    cases k with
    | nil => simp [hr₂, StartsCall] at hstart
    | cons b k =>
      rw [hr₂] at hstart hrest
      simp [Cursor.peekIs, Cursor.peek?, hrest, hstart.1, hstart.2] at hcall

theorem simpleStatement_leads : Leads (Phrase Simple) simpleStatement := by
  refine ⟨viable_simple, fun s hb => ?_⟩
  have hstill : ∀ {α β : Type} {V : List Token → Prop} {p : Parser α} {f : α → Parser β} {a : α},
    p s = .ok a s →
      FailsAt V (f a) s → FailsAt V (p >>= f) s := fun hp hf => .of_ok hp (Moved.refl s) hf
  refine hstill rfl (hstill (nextIs_run ..) ?_)
  split
  · refine Leads.fails (.bind callExpression_sound callExpression_leads fun us c hc => ?_) s hb
    exact .still (spanFrom_still _) fun _ => pure_leads (.of_mem ⟨_, by simpa using Simple.call hc⟩)
  refine hstill (nextIs_run ..) ?_
  split
  · exact (receivingCall_leads _).fails s hb
  refine hstill (nextIs_run ..) ?_
  split
  · refine hstill (nextIs_run ..) (hstill (nextIs_run ..) ?_)
    split
    · exact (receivingCall_leads _).fails s hb
    · next hcall => exact assignment_fails _ hb (by simpa using hcall)
  · refine Leads.fails
      (.expect fun t ht =>
      complain_leads ⟨[Token.sample .leftParen, Token.sample .rightParen], ?_⟩) s hb
    exact ⟨_, .call (.own ht (.mk rfl .absent rfl))⟩

section Statements
variable {nested : Parser Stmt} (hs : Sound nested Statement)
    (hnested : Leads (Phrase Statement) nested)
include hs hnested

theorem branch_leads : Leads (Phrase Statement) (branch nested) := by
  have hblock := block_leads hs hnested
  have hsblock := block_sound hs statement_starts
  refine .expect fun first hfirst => .bind expression_sound expression_leads fun ts e he => ?_
  refine .still (spanFrom_still _) fun _ => .lineEnd fun ns hn =>
    .bind hsblock hblock fun us yes hyes => ?_
  refine .accept
    (fun other hother => .lineEnd fun ms hms => .bind hsblock hblock fun vs no hno => ?_) ?_
  · exact pure_leads
      (.of_mem ⟨_, by simpa using Statement.branchElse hfirst he hn hyes hother hms hno⟩)
  · exact pure_leads (.of_mem ⟨_, by simpa using Statement.branch hfirst he hn hyes⟩)

omit hs hnested in
theorem loopTarget_leads : Leads (Phrase Target) loopTarget := by
  refine .still (nextIs_still _ _) fun _ => .still (nextIs_still _ _) fun _ => ?_
  split
  · exact .expect fun _ hname => .expect fun _ heq => pure_leads (.of_mem ⟨_, .present hname heq⟩)
  · exact pure_leads (.of_mem ⟨_, .absent⟩)

theorem loop_leads : Leads (Phrase Statement) (loop nested) := by
  have hloop : Sound loopTarget Target := fun _ _ _ _ => loopTarget_sound
  refine .expect fun first hfirst => .bind hloop loopTarget_leads fun ws target htarget => ?_
  refine .bind expression_sound expression_leads fun ts e he =>
    .still (spanFrom_still _) fun _ => ?_
  refine .lineEnd fun ns hn => .still (nextIs_still _ _) fun _ => ?_
  split
  · refine .bind (block_sound hs statement_starts) (block_leads hs hnested) fun us body hbody => ?_
    exact pure_leads
      (.of_mem ⟨_, by simpa using Statement.loop hfirst htarget he hn (.present hbody)⟩)
  · exact pure_leads (.of_mem ⟨_, by simpa using Statement.loop hfirst htarget he hn .absent⟩)

end Statements

theorem simple_sound : Sound simpleStatement Simple := by
  intro s stmt s' hb h
  cases hr : s.cursor.rest with
  | cons t k => exact simpleStatement_sound hb hr h
  | nil =>
    have hpeek : ∀ kinds, ¬ s.cursor.peekIs 1 kinds = true := by
      intro kinds
      simp [Cursor.peekIs, Cursor.peek?, hr]
    have hposition : position s = .ok s.cursor.location.start s := rfl
    rw [simpleStatement, bind_of_ok hposition, bind_of_ok (nextIs_run ..), if_neg (hpeek _),
      bind_of_ok (nextIs_run ..), if_neg (hpeek _), bind_of_ok (nextIs_run ..),
        if_neg (hpeek _)] at h
    obtain ⟨_, _, _, h⟩ := bind_eq_ok.mp h
    exact absurd h (complain_run_ne_ok _ _ _ _)

theorem line_leads {α : Type} {p : Parser α} {L : Language α} (hs : Sound p L)
    (hp : Leads (Phrase L) p) :
    Leads (Phrase (Line L)) (line p) :=
  .bind hs hp fun _ _ ha => .lineEnd fun _ hn =>
    pure_leads (.of_mem ⟨_, by simpa using Line.mk ha hn⟩)

theorem statementOf_leads (bound : Nat) : Leads (Phrase Statement) (statementOf bound) := by
  have hline : Leads (Phrase Statement) (line simpleStatement) :=
    (line_leads simple_sound simpleStatement_leads).within fun _ ⟨_, hl⟩ => .of_mem ⟨_, .simple hl⟩
  have hcomplain : Leads (Phrase Statement) (complain [.ifWord, .loopWord, .word] : Parser Stmt) :=
    complain_leads hline.viable
  induction bound with
  | zero => exact hcomplain
  | succ bound ih =>
    have hs := statementOf_sound bound
    refine .still (nextIs_still _ _) fun _ => ?_
    split
    · exact branch_leads hs ih
    refine .still (nextIs_still _ _) fun _ => ?_
    split
    · exact loop_leads hs ih
    refine .still (nextIs_still _ _) fun _ => ?_
    split
    · exact hline
    · exact hcomplain

theorem statement_leads : Leads (Phrase Statement) statement := .withBound statementOf_leads

theorem statements_leads : Leads (Phrase (Block Statement)) statements :=
  block_leads statement_sound statement_leads

/-! ### Declarations -/

theorem declaration_leads : Leads (Phrase Declaration) declaration :=
  .expect fun _ htype => .expect fun _ hname => pure_leads (.of_mem ⟨_, .mk htype hname⟩)

theorem declarations_leads : Leads (Phrase (Optional Declarations)) declarations := by
  refine .still (nextIs_still _ _) fun _ => ?_
  split
  · exact (separated_leads declaration_sound declaration_leads).within fun _ ⟨_, hds⟩ =>
      .of_mem ⟨_, .present hds⟩
  · exact pure_leads (.of_mem ⟨_, .absent⟩)

theorem parameters_leads : Leads (Phrase Parameters) parameters :=
  .expect fun _ ho => .bind declarations_sound declarations_leads fun _ _ hds =>
    .expect fun _ hc => pure_leads (.of_mem ⟨_, .mk ho hds hc⟩)

theorem header_leads : Leads (Phrase HeaderLine) header := by
  refine .expect fun name hname =>
    .bind parameters_sound parameters_leads fun ts params hparams => ?_
  refine .accept
    (fun colon hcolon => .bind declarations_sound declarations_leads fun us rets hrets => ?_) ?_
  · cases hrets with
    | absent =>
      -- Nothing follows the colon: it could have been a declaration.
      obtain ⟨vs, d, hd⟩ := declaration_leads.viable
      refine leads_of_error ⟨vs, _, .mk hname hparams (.present hcolon (.one hd))⟩
        fun s e s' h => ?_
      cases h
      exact ⟨rfl, rfl⟩
    | present hrets =>
      have hsome : rets.isEmpty = false := by simpa using hrets.ne_nil
      simp only [hsome]
      exact pure_leads
        (.of_mem ⟨_, by simpa using HeaderLine.mk hname hparams (.present hcolon hrets)⟩)
  · exact pure_leads (.of_mem ⟨_, by simpa using HeaderLine.mk hname hparams .absent⟩)

theorem interfaceDecl_leads : Leads (Phrase Interface) interfaceDecl := by
  have hsound := block_sound (line_sound header_sound) (line_starts header_starts)
  refine .expect fun first hfirst => .expect fun name hname => .still (spanFrom_still _) fun _ => ?_
  refine .still (passing_still _) fun _ => .lineEnd fun ns hn => ?_
  refine .bind hsound (block_leads (line_sound header_sound) (line_leads header_sound header_leads))
    fun ts methods hts => ?_
  exact pure_leads (.of_mem ⟨_, by simpa using Interface.mk hfirst hname hn hts⟩)

theorem bodyItem_leads : Leads (Phrase BodyLine) bodyItem := by
  refine .still (nextIs_still _ _) fun _ => .still (nextIs_still _ _) fun _ => ?_
  split
  · refine .bind declaration_sound declaration_leads fun ts d hd => .lineEnd fun ns hn => ?_
    exact pure_leads (.of_mem ⟨_, by simpa using BodyLine.decl (.mk hd hn)⟩)
  · refine .final (statement_leads.within ?_) fun _ => pure_never _
    rintro ts ⟨stmt, hstmt⟩
    exact .of_mem ⟨_, .stmt hstmt⟩

theorem body_leads : Leads (Phrase Body) body := by
  refine .final ((block_leads bodyItem_sound bodyItem_leads).within ?_) fun _ => pure_never _
  rintro ts ⟨items, hitems⟩
  exact .of_mem ⟨_, .mk hitems⟩

theorem fieldBody_leads (opener : Kind) : Leads (Phrase (FieldBody opener)) (fieldBody opener) := by
  refine .accept (fun t ht => .expect fun colon hcolon => .lineEnd fun ns hn => ?_)
    (pure_leads (.of_mem ⟨_, .absent⟩))
  refine .bind statements_sound statements_leads fun ts body hbody => .skipNewlines fun ms hms => ?_
  exact pure_leads (.of_mem ⟨_, by simpa using FieldBody.present ht hcolon hn hbody hms⟩)

theorem member_leads : Leads (Phrase MemberItem) member := by
  refine .bind declaration_sound declaration_leads fun ts d hd => .lineEnd fun ns hn =>
    .accept (fun opener ho => ?_) ?_
  · refine .skipNewlines fun ms hms => ?_
    refine .bind (fieldBody_sound _) (fieldBody_leads _) fun us accessor hus => ?_
    refine .bind (fieldBody_sound _) (fieldBody_leads _) fun vs mutator hvs =>
      .expect fun closer hc => ?_
    exact pure_leads
      (.of_mem ⟨_, by simpa using MemberItem.withBodies (.mk hd hn) ho hms hus hvs hc⟩)
  · exact pure_leads (.of_mem ⟨_, by simpa using MemberItem.plain (.mk hd hn)⟩)

theorem constructorDecl_leads : Leads (Phrase ConstructorItem) constructorDecl := by
  refine .expect fun first hfirst =>
    .bind parameters_sound parameters_leads fun ts params hparams => ?_
  refine .still (spanFrom_still _) fun _ => .lineEnd fun ns hn =>
    .still (nextIs_still _ _) fun _ => ?_
  split
  · refine .bind body_sound body_leads fun us body hbody => ?_
    exact pure_leads (.of_mem ⟨_, by simpa using ConstructorItem.withBody hfirst hparams hn hbody⟩)
  · exact pure_leads (.of_mem ⟨_, by simpa using ConstructorItem.plain hfirst hparams hn⟩)

theorem modifiers_never (bound : Nat) : Never (modifiers bound) := by
  induction bound with
  | zero => exact pure_never _
  | succ bound ih =>
    refine (accept_never _).bind fun b => ?_
    split
    · exact ih.bind fun _ => pure_never _
    refine (accept_never _).bind fun b => ?_
    split
    · exact ih.bind fun _ => pure_never _
    · exact pure_never _

theorem methodDecl_leads : Leads (Phrase MethodItem) methodDecl := by
  have hs : Sound (withBound modifiers) fun ms _ => Modifiers ms := by
    intro s r s' _ h
    obtain ⟨ms, hm, hms, -⟩ := modifiers_sound s.count s r s' h
    exact ⟨ms, hm, hms⟩
  have hnone : Modifiers [] := by simp [Modifiers]
  refine .still position_still fun _ => ?_
  refine .bind hs ((withBound_never modifiers_never).leads (.of_mem ⟨(false, false), hnone⟩))
    fun ms r hms => ?_
  refine .bind header_sound header_leads fun ts hd hhd => .still (spanFrom_still _) fun _ => ?_
  refine .still (passing_still _) fun _ => .lineEnd fun ns hn =>
    .bind body_sound body_leads fun us body hbody => ?_
  exact pure_leads (.of_mem ⟨_, by simpa using MethodItem.mk hms hhd hn hbody⟩)

theorem classItem_leads : Leads (Phrase ClassPart) classItem := by
  have hmethod : Leads (Phrase ClassPart) (methodDecl >>= fun m =>
      pure (([], [], [m]) : ClassBody)) :=
    .final (methodDecl_leads.within fun _ ⟨_, hm⟩ => .of_mem ⟨_, .method hm⟩) fun _ => pure_never _
  refine .still (nextIs_still _ _) fun _ => ?_
  split
  · exact .final (constructorDecl_leads.within fun _ ⟨_, hc⟩ => .of_mem ⟨_, .constructor hc⟩)
      fun _ => pure_never _
  refine .still (nextIs_still _ _) fun _ => ?_
  split
  · exact hmethod
  refine .still (nextIs_still _ _) fun _ => ?_
  split
  · refine .still (nextIs_still _ _) fun _ => ?_
    split
    · exact hmethod
    refine .still (nextIs_still _ _) fun _ => ?_
    split
    · exact .final (member_leads.within fun _ ⟨_, hm⟩ => .of_mem ⟨_, .member hm⟩) fun _ =>
        pure_never _
    · -- A word that nothing follows could be the type of a member.
      refine .expect fun type htype =>
        complain_leads ⟨[Token.sample .word, Token.sample .newline], ?_⟩
      have hd : Declaration [type, Token.sample .word] _ := .mk htype rfl
      exact ⟨_, .member (.plain (.mk hd lineEnd_sample))⟩
  · exact complain_leads hmethod.viable

theorem implemented_leads : Leads (Phrase Implemented) implemented := by
  refine .accept (fun t ht => ?_) (pure_leads (.of_mem ⟨_, .absent⟩))
  exact (separated_leads name_sound name_leads).within fun _ ⟨_, hnames⟩ =>
    .of_mem ⟨_, .present ht hnames⟩

theorem classDecl_leads : Leads (Phrase ClassDeclaration) classDecl := by
  refine .expect fun first hfirst => .expect fun name hname =>
    .bind implemented_sound implemented_leads fun ts names hts => ?_
  refine .still (spanFrom_still _) fun _ => .still (passing_still _) fun _ =>
    .lineEnd fun ns hn => ?_
  refine .bind (block_sound classItem_sound classItem_starts)
    (block_leads classItem_sound classItem_leads) fun us items hus => ?_
  exact pure_leads (.of_mem ⟨_, by simpa using ClassDeclaration.mk hfirst hname hts hn hus⟩)

/-! ### Programs -/

theorem programItem_leads : Leads (Phrase ProgramPart) programItem := by
  have hclass : Leads (Phrase ProgramPart) (classDecl >>= fun c => pure (⟨[], [c]⟩ : Program)) :=
    .final (classDecl_leads.within fun _ ⟨_, hc⟩ => .of_mem ⟨_, .cls hc⟩) fun _ => pure_never _
  refine .still (nextIs_still _ _) fun _ => ?_
  split
  · exact .final (interfaceDecl_leads.within fun _ ⟨_, hi⟩ => .of_mem ⟨_, .interface hi⟩) fun _ =>
      pure_never _
  refine .still (nextIs_still _ _) fun _ => ?_
  split
  · exact hclass
  · exact complain_leads hclass.viable

theorem programItems_leads (bound : Nat) {ts : List Token} {items : List Program}
    (h : ProgramParts ts items) :
    Leads (fun us => Phrase ProgramParts (ts ++ us)) (programItems bound) := by
  have hend : ∀ {ts items}, ProgramParts ts items →
    Viable (fun us => Phrase ProgramParts (ts ++ us)) [] :=
    fun h => ⟨[], _, by simpa using h⟩
  induction bound generalizing ts items with
  | zero => exact pure_leads (hend h)
  | succ bound ih =>
    have hcursor : Still cursor := fun s => ⟨_, s, rfl, Moved.refl s⟩
    refine .still hcursor fun c => ?_
    split
    · exact pure_leads (hend h)
    · refine .bind programItem_sound programItem_leads fun us item hitem =>
        .skipNewlines fun ns hn => ?_
      refine .final ?_ fun _ => pure_never _
      simpa only [List.append_assoc] using ih (h.snoc hitem hn)

theorem program_leads : Leads (Phrase WholeProgram) program := by
  refine .skipNewlines fun ns hn => .final (.withBound fun bound => ?_) fun _ => pure_never _
  refine (programItems_leads bound .nil).within ?_
  rintro ts ⟨items, hitems⟩
  exact .of_mem ⟨_, .mk hn hitems⟩

end Offside.Parser
