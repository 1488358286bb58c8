import Offside.Proofs.Grammar.Promptness
import Offside.Proofs.Grammar.Viability

/-! No production looks past the token that it blames. -/
namespace Offside.Parser

open Reading Grammar

variable {n₁ n₂ : Nat}

/-! ### Expressions -/

section Operators
variable {α Op : Type} {op? : Kind → Option Op}

theorem operator?_prompt (op? : Kind → Option Op) :
    Prompt n₁ n₂ (operator? op?) (operator? op?) := by
  refine ⟨(operator?_never op?).forward (operatorOf_sound op?), fun s₁ s₂ _ _ => ?_⟩
  refine .of_next fun t k₁ k₂ _ hr₁ hr₂ => ?_
  cases hop : op? t.kind with
  | none =>
    have h₁ : operator? op? s₁ = .ok none s₁ := operator?_of_none (by simp [hr₁, hop])
    have h₂ : operator? op? s₂ = .ok none s₂ := operator?_of_none (by simp [hr₂, hop])
    exact .of_oks h₁ (Moved.refl s₁) h₂ (Moved.refl s₂)
  | some op =>
    obtain ⟨s₁', h₁, hm₁⟩ := operator?_of_next hr₁ hop
    obtain ⟨s₂', h₂, hm₂⟩ := operator?_of_next hr₂ hop
    exact .of_oks h₁ hm₁ h₂ hm₂

theorem Prompt.operator {f g : Option Op → Parser α} (hnone : Prompt n₁ n₂ (f none) (g none))
    (hsome : ∀ op, Prompt (n₁ - 1) (n₂ - 1) (f (some op)) (g (some op))) :
    Prompt n₁ n₂ (operator? op? >>= f) (operator? op? >>= g) := by
  refine (operator?_prompt op?).bind_of_takes (fun o => o.isSome.toNat) (fun s ts o s' _ h hm => ?_)
    fun o => ?_
  · rcases operator?_cases h with ⟨rfl, -⟩ | ⟨t, op, rfl, -, hm'⟩
    · exact Nat.zero_le _
    · obtain rfl := hm.unique hm'
      exact Nat.le_refl 1
  · cases o with
    | none => exact hnone
    | some op => exact hsome op

end Operators

theorem chain_prompt {op? : Kind → Option Operator} {operand operand' : Parser Expr}
    (hoperand : Prompt n₁ n₂ operand operand') :
    Prompt n₁ n₂ (chain op? operand) (chain op? operand') := by
  refine hoperand.bind fun first => ?_
  refine Prompt.loopWith (fun left => pure_forward left) (fun b₁ b₂ m₁ m₂ h₁ h₂ ih left => ?_) first
  refine .operator (pure_prompt left) fun op => ?_
  exact (hoperand.mono (by omega) (by omega)).bind fun right => ih (.binary op left right)

section Levels
variable {single single' : Parser Expr} (hsingle : Prompt n₁ n₂ single single')
include hsingle

theorem sum_prompt : Prompt n₁ n₂ (sum single) (sum single') := chain_prompt (chain_prompt hsingle)

theorem comparison_prompt : Prompt n₁ n₂ (comparison single) (comparison single') := by
  refine (countOf_prompt .not).bind fun _ => (sum_prompt hsingle).bind fun left =>
    .operator ?_ fun op => ?_
  · exact (pure_prompt left).bind fun _ => pure_prompt _
  · have hsum := (sum_prompt hsingle).mono (Nat.sub_le n₁ 1) (Nat.sub_le n₂ 1)
    exact hsum.bind fun right => (pure_prompt _).bind fun _ => pure_prompt _

theorem disjunction_prompt : Prompt n₁ n₂ (disjunction single) (disjunction single') := by
  have hconjunction : Prompt n₁ n₂ (conjunction single) (conjunction single') :=
    chain_prompt (comparison_prompt hsingle)
  exact hconjunction.bind fun _ => (afterSeparators_prompt hconjunction).bind fun _ => pure_prompt _

end Levels

section Nested
variable {nested nested' : Parser Expr}

theorem arguments_prompt (hnested : Prompt n₁ n₂ nested nested') :
    Prompt n₁ n₂ (arguments nested) (arguments nested') := by
  refine .accept (pure_prompt _)
    (.loop (hnested.forward.bind fun _ => pure_forward _) fun b₁ b₂ m₁ m₂ h₁ h₂ ih => ?_)
  refine (hnested.mono h₁ h₂).bind fun first => .expectAny fun next => ?_
  split
  · exact pure_prompt _
  · exact ih.bind fun _ => pure_prompt _

theorem call_prompt (hnested : Prompt (n₁ - 1) (n₂ - 1) nested nested') :
    Prompt n₁ n₂ (call nested) (call nested') := by
  refine .expect fun name =>
    .accept (.expect fun method => .expect fun _ => ?_) (.expect fun _ => ?_)
  · exact (arguments_prompt (hnested.mono (by omega) (by omega))).bind fun _ => pure_prompt _
  · exact (arguments_prompt (hnested.mono (by omega) (by omega))).bind fun _ => pure_prompt _

theorem numberOf_cases (t : Token) :
    (∃ value, numberOf t = pure value) ∨ ∃ e, numberOf t = throw e := by
  unfold numberOf
  cases Number.read? t.text with
  | some value => exact .inl ⟨_, rfl⟩
  | none => exact .inr ⟨_, rfl⟩

theorem characterOf_cases (t : Token) :
    (∃ value, characterOf t = pure value) ∨ ∃ e, characterOf t = throw e := by
  unfold characterOf
  cases t.text.toList with
  | cons c cs => exact .inl ⟨_, rfl⟩
  | nil => exact .inr ⟨_, rfl⟩

/-- Whether a token stands for a value is told by that token alone. -/
theorem literal_follows {t : Token} {kind : Kind} {k₁ k₂ : List Token} {s₁ s₂ : Reading}
    {f : Parser Expr}
    (hr₁ : s₁.cursor.rest = t :: k₁) (hr₂ : s₂.cursor.rest = t :: k₂) (ht : t.kind = kind)
    (hf : (∃ value, f = pure value) ∨ ∃ e, f = throw e) :
    Follows (expect kind >>= fun _ => f) (expect kind >>= fun _ => f) s₁ s₂ := by
  obtain ⟨s₁', h₁, hm₁⟩ := expect_of_next hr₁ ht
  obtain ⟨s₂', h₂, hm₂⟩ := expect_of_next hr₂ ht
  rcases hf with ⟨value, rfl⟩ | ⟨e, rfl⟩
  · exact .of_oks (bind_of_ok h₁) hm₁ (bind_of_ok h₂) hm₂
  · exact .of_errors (bind_of_ok h₁) (bind_of_ok h₂) rfl

theorem call_reaches (hnested : Forward nested) {s : Reading} {t : Token} {k : List Token}
    (hb : s.Bounded)
    (hr : s.cursor.rest = t :: k) (ht : t.kind = .word) : Reaches 1 (call nested) s := by
  have hnested : Prompt 0 0 nested nested := .zero_left hnested
  have harguments := (arguments_prompt hnested).forward
  refine .expect hb hr ht fun name =>
    ((accept_never .dot).forward (accepted_sound _)).bind fun b => ?_
  cases b with
  | true =>
    refine (expectAny_forward _).bind fun _ => (expectAny_forward _).bind fun _ => ?_
    exact harguments.bind fun _ => pure_forward _
  | false => exact (expectAny_forward _).bind fun _ => harguments.bind fun _ => pure_forward _

/-- A word by itself is a variable, and with a dot or a parenthesis after it a call. -/
theorem word_follows {s₁ s₂ : Reading} {t : Token} {k₁ : List Token} (hs₁ : s₁.Fits n₁)
    (hs₂ : s₂.Fits n₂)
    (hr₁ : s₁.cursor.rest = t :: k₁) (ht : t.kind = .word)
    (hnested : Prompt (n₁ - 1) (n₂ - 1) nested nested')
    (text : String) :
    Follows (do
        if ← nextIs 1 [.dot, .leftParen] then return (← call nested).toExpr
        else
          let _ ← expect .word
          return .variable text)
      (do
        if ← nextIs 1 [.dot, .leftParen] then return (← call nested').toExpr
        else
          let _ ← expect .word
          return .variable text) s₁ s₂ := by
  have hcall := call_prompt hnested
  have hreach : Reaches 1 (do
      if ← nextIs 1 [.dot, .leftParen] then return (← call nested).toExpr
      else
        let _ ← expect .word
        return .variable text) s₁ := by
    refine .of_ok (nextIs_run ..) ?_
    split
    · exact (call_reaches hnested.forward hs₁.bounded hr₁ ht).bind hs₁.bounded hcall.forward
        fun _ => pure_forward _
    · exact .expect hs₁.bounded hr₁ ht fun _ => pure_forward _
  refine .of_reaches hreach fun ts hlen htwin => .nextIs (i := 1) _ htwin (by omega) fun b _ => ?_
  cases b with
  | true => exact (hcall.bind fun _ => pure_prompt _).follows s₁ s₂ hs₁ hs₂
  | false => exact Prompt.follows (.expect fun _ => pure_prompt _) s₁ s₂ hs₁ hs₂

theorem primary_prompt (hs : Sound nested Expression) (hleads : Leads (Phrase Expression) nested)
    (hnested : Prompt (n₁ - 1) (n₂ - 1) nested nested') :
    Prompt n₁ n₂ (primary nested) (primary nested') := by
  refine ⟨(primary_leads hs hleads).forward (primary_sound hs), fun s₁ s₂ hs₁ hs₂ => ?_⟩
  refine .of_next fun t k₁ k₂ _ hr₁ hr₂ => ?_
  have hword : ∀ kind (e : Expr),
      Prompt n₁ n₂ (expect kind >>= fun _ => pure e) (expect kind >>= fun _ => pure e) :=
    fun kind e => .expect fun _ => pure_prompt e
  unfold primary
  refine .of_ok (cursor_run s₁) (cursor_run s₂) ?_
  simp only [peek?_zero hr₁, peek?_zero hr₂]
  cases ht : t.kind with
  | trueWord => exact (hword _ _).follows s₁ s₂ hs₁ hs₂
  | falseWord => exact (hword _ _).follows s₁ s₂ hs₁ hs₂
  | text => exact (hword _ _).follows s₁ s₂ hs₁ hs₂
  | number => exact literal_follows hr₁ hr₂ ht (numberOf_cases t)
  | character => exact literal_follows hr₁ hr₂ ht (characterOf_cases t)
  | leftParen =>
    refine Prompt.follows (.expect fun _ => hnested.bind fun _ => .expect fun _ => ?_) s₁ s₂ hs₁ hs₂
    exact pure_prompt _
  | newWord =>
    refine Prompt.follows (.expect fun _ => .expect fun _ => .expect fun _ => ?_) s₁ s₂ hs₁ hs₂
    exact (arguments_prompt (hnested.mono (by omega) (by omega))).bind fun _ => pure_prompt _
  | word => exact word_follows hs₁ hs₂ hr₁ ht hnested t.text
  | _ => exact (complain_prompt _).follows s₁ s₂ hs₁ hs₂

end Nested

theorem expression_prompt : Prompt n₁ n₂ expression expression := by
  have hthrow : Prompt 0 0 (expressionOf 0) (expressionOf 0) :=
    blame_prompt (fun _ => rfl) fun _ => rfl
  refine .loop hthrow.forward fun b₁ b₂ m₁ m₂ _ _ ih => ?_
  exact disjunction_prompt (primary_prompt (expressionOf_sound b₁) (expressionOf_leads b₁) ih)

theorem callExpression_prompt : Prompt n₁ n₂ callExpression callExpression :=
  call_prompt expression_prompt

/-! ### Statements -/

theorem name_prompt : Prompt n₁ n₂ name name := .expect fun _ => pure_prompt _

theorem receivingCall_prompt (start : Position) :
    Prompt n₁ n₂ (receivingCall start) (receivingCall start) :=
  (separated_prompt name_prompt).bind fun _ => .expect fun _ => callExpression_prompt.bind fun _ =>
    (spanFrom_prompt _).bind fun _ => pure_prompt _

theorem assignment_prompt (start : Position) : Prompt n₁ n₂ (assignment start) (assignment start) :=
  .expect fun _ => .expect fun _ => expression_prompt.bind fun _ =>
    (spanFrom_prompt _).bind fun _ => pure_prompt _

section Equations
variable {s : Reading} {t eq w : Token} {ts : List Token} (hb : s.Bounded) (ht : t.kind = .word)
    (heq : eq.kind = .assign)
  (hw : w.kind = .word) (hts : ts <+: s.cursor.rest) (hne : ts ≠ []) (hbegins : ts <+: [t, eq, w])
include hb ht heq hw hts hne hbegins

omit hb ht heq hw in
theorem rest_of_prefix : ∃ k, s.cursor.rest = t :: k := by
  obtain ⟨k, hk⟩ := hts
  cases ts with
  | nil => exact absurd rfl hne
  | cons u ts =>
    rw [(List.cons_prefix_cons.mp hbegins).1] at hk
    exact ⟨ts ++ k, hk.symm⟩

/-- Variables that receive what a call returns are read up to the name of the call at least. -/
theorem receivingCall_reaches : Reaches ts.length (receivingCall t.span.start) s := by
  have hlen : ts.length ≤ 3 := hbegins.length_le
  obtain ⟨k, hr⟩ := rest_of_prefix hts hne hbegins
  obtain ⟨vs, hvs⟩ := hbegins
  have hcall : Invocation [w, Token.sample .leftParen, Token.sample .rightParen] _ :=
    .own hw (.mk rfl .absent rfl)
  have hrest :
      (s.onto (ts ++ (vs ++ [Token.sample .leftParen, Token.sample .rightParen]))).cursor.rest =
        [t] ++ eq :: [w, Token.sample .leftParen, Token.sample .rightParen] ++ [] := by
    show ts ++ (vs ++ [Token.sample .leftParen, Token.sample .rightParen]) = _
    rw [← List.append_assoc, hvs]
    rfl
  obtain ⟨s', hrun, -⟩ :=
    receivingCall_complete (onto_bounded _ _) hrest hrest (.one (.mk ht)) heq hcall
  refine reaches_of_accepted ts _ (fun _ _ => receivingCall_prompt _) hb hts hrun
    fun us stmt s'' h hm => ?_
  obtain ⟨ns, names, eq', ws, c, hm', hnames, -, hc, -⟩ := receivingCall_sound hb hr h
  obtain ⟨_, _, _, rfl, -, -⟩ := invocation_second hc
  have hns : ns ≠ [] := by
    rcases names_second hnames with ⟨_, rfl, -, -⟩ | ⟨_, _, _, rfl, -, -, -⟩ <;> exact List.cons_ne_nil _ _
  have hpos := List.length_pos_iff.mpr hns
  rw [hm.unique hm', List.length_append]
  simp only [List.length_cons]
  omega

/-- A value that is assigned is read beyond a word that it starts with. -/
theorem assignment_reaches : Reaches ts.length (assignment t.span.start) s := by
  have hlen : ts.length ≤ 3 := hbegins.length_le
  obtain ⟨k, hr⟩ := rest_of_prefix hts hne hbegins
  obtain ⟨vs, hvs⟩ := hbegins
  have hrest : (s.onto (ts ++ vs)).cursor.rest = t :: eq :: ([w] ++ []) := hvs
  obtain ⟨s', hrun, -⟩ := assignment_complete (onto_bounded _ _) hrest ht heq
    (expression_of_primary (.variable hw)) (notNext_nil _)
  refine reaches_of_accepted ts _ (fun _ _ => assignment_prompt _) hb hts hrun
    fun us stmt s'' h hm => ?_
  obtain ⟨eq', ws, e, hm', -, -, he, -⟩ := assignment_sound hb hr h
  have hpos := List.length_pos_iff.mpr (expression_starts.ne_nil he)
  rw [hm.unique hm']
  simp only [List.length_cons]
  omega

end Equations

section Simple
variable {s₁ s₂ : Reading} {t : Token} (hs₁ : s₁.Fits n₁) (hs₂ : s₂.Fits n₂) (ht : t.kind = .word)
include hs₁ hs₂ ht

/-- Whether an equation is an assignment or receives what a call returns depends on the third token
after the variable, which is looked at only if the second is a word that either of them takes. -/
theorem equation_follows {eq : Token} {k : List Token} (hr : s₁.cursor.rest = t :: eq :: k)
    (heq : eq.kind = .assign) :
    Follows (do
        if (← nextIs 2 [.word]) && (← nextIs 3 [.leftParen]) then receivingCall t.span.start
        else assignment t.span.start)
      (do
        if (← nextIs 2 [.word]) && (← nextIs 3 [.leftParen]) then receivingCall t.span.start
        else assignment t.span.start) s₁ s₂ := by
  have hreach : ∀ {ts w}, w.kind = .word → ts <+: s₁.cursor.rest → ts ≠ [] → ts <+: [t, eq, w] →
    ∀ b c : Bool,
      Reaches ts.length
        (if (b && c) = true then receivingCall t.span.start else assignment t.span.start) s₁ := by
    intro ts w hw hts hne hbegins b c
    split
    · exact receivingCall_reaches hs₁.bounded ht heq hw hts hne hbegins
    · exact assignment_reaches hs₁.bounded ht heq hw hts hne hbegins
  have hword : (Token.sample .word).kind = .word := rfl
  have htwo : [t, eq] <+: [t, eq, Token.sample .word] := ⟨_, rfl⟩
  have hreach₂ := hreach hword ⟨k, hr.symm⟩ (List.cons_ne_nil _ _) htwo
  refine .of_reaches (n := 2) (.of_ok (nextIs_run ..) (.of_ok (nextIs_run ..) (hreach₂ _ _)))
    fun ts hlen htwin => ?_
  refine .nextIs (i := 2) _ htwin (by omega) fun b hb => ?_
  cases b with
  | false => exact .of_ok (nextIs_run ..) (nextIs_run ..) ((assignment_prompt _).follows s₁ s₂ hs₁ hs₂)
  | true =>
    obtain ⟨w, k, rfl, hw⟩ := next_of_peekIs [t, eq] hr hb
    have hreach₃ :=
      hreach (List.mem_singleton.mp hw) ⟨k, hr.symm⟩ (List.cons_ne_nil _ _)
      (List.prefix_refl [t, eq, w])
    refine .of_reaches (n := 3) (.of_ok (nextIs_run ..) (hreach₃ _ _)) fun ts hlen htwin => ?_
    refine .nextIs (i := 3) _ htwin (by omega) fun c _ => ?_
    cases c with
    | false => exact (assignment_prompt _).follows s₁ s₂ hs₁ hs₂
    | true => exact (receivingCall_prompt _).follows s₁ s₂ hs₁ hs₂

/-- A statement that starts with a word: the next token tells which it is, and no kind of statement
ends or fails before that one. -/
theorem simpleStatement_follows {k₁ k₂ : List Token} (hr₁ : s₁.cursor.rest = t :: k₁)
    (hr₂ : s₂.cursor.rest = t :: k₂) :
    Follows simpleStatement simpleStatement s₁ s₂ := by
  have hb := hs₁.bounded
  have hone : [t] <+: s₁.cursor.rest := ⟨k₁, hr₁.symm⟩
  have hbegins : [t] <+: [t, Token.sample .assign, Token.sample .word] := ⟨_, rfl⟩
  have hreceiving := receivingCall_reaches hb ht rfl rfl hone (List.cons_ne_nil _ _) hbegins
  have hassignment := assignment_reaches hb ht rfl rfl hone (List.cons_ne_nil _ _) hbegins
  unfold simpleStatement
  refine .of_ok (position_run hr₁) (position_run hr₂)
    (.of_reaches (n := 1) ?_ fun ts hlen htwin => ?_)
  · refine .of_ok (nextIs_run ..) ?_
    split
    · have hforward := expression_leads.forward expression_sound
      have hcall := callExpression_leads.forward callExpression_sound
      exact (call_reaches hforward hb hr₁ ht).bind hb hcall fun _ =>
        (spanFrom_still _).forward.bind fun _ => pure_forward _
    refine .of_ok (nextIs_run ..) ?_
    split
    · exact hreceiving
    refine .of_ok (nextIs_run ..) ?_
    split
    · refine .of_ok (nextIs_run ..) (.of_ok (nextIs_run ..) ?_)
      split
      · exact hreceiving
      · exact hassignment
    · exact .expect hb hr₁ ht fun _ => complain_forward _
  · refine .nextIs (i := 1) _ htwin (by omega) fun b _ => ?_
    cases b with
    | true =>
      refine Prompt.follows (callExpression_prompt.bind fun _ => ?_) s₁ s₂ hs₁ hs₂
      exact (spanFrom_prompt _).bind fun _ => pure_prompt _
    | false =>
    refine .nextIs (i := 1) _ htwin (by omega) fun b _ => ?_
    cases b with
    | true => exact (receivingCall_prompt _).follows s₁ s₂ hs₁ hs₂
    | false =>
    refine .nextIs (i := 1) _ htwin (by omega) fun b hb => ?_
    cases b with
    | true =>
      obtain ⟨eq, k, rfl, heq⟩ := next_of_peekIs [t] hr₁ hb
      exact equation_follows hs₁ hs₂ ht hr₁ (List.mem_singleton.mp heq)
    | false => exact Prompt.follows (.expect fun _ => complain_prompt _) s₁ s₂ hs₁ hs₂

end Simple

theorem expression_reaches {s : Reading} {t : Token} {k : List Token} (hb : s.Bounded)
    (hr : s.cursor.rest = t :: k)
    (ht : t.kind = .word) : Reaches 1 expression s := by
  have hvariable := expression_of_primary (.variable ht)
  obtain ⟨s', hrun, -⟩ :=
    expression_complete 1 (s.onto [t]) [t] [] _ (onto_bounded _ _) rfl (Nat.le_refl 1)
    (notNext_nil _) hvariable
  exact reaches_of_starts (fun _ _ => expression_prompt) expression_sound expression_starts hb
    hr hrun

section Statements
variable {nested nested' : Parser Stmt} (hs : Sound nested Statement)
    (hnested : Prompt (n₁ - 1) (n₂ - 1) nested nested')
include hs hnested

theorem branch_prompt : Prompt n₁ n₂ (branch nested) (branch nested') := by
  have hblock := block_prompt hs statement_starts hnested
  refine .expect fun _ => expression_prompt.bind fun _ => (spanFrom_prompt _).bind fun _ =>
    lineEnd_prompt.bind fun _ => ?_
  refine hblock.bind fun _ => .accept (lineEnd_prompt.bind fun _ => ?_) (pure_prompt _)
  exact (hblock.mono (by omega) (by omega)).bind fun _ => pure_prompt _

omit hs hnested in
/-- The variable of a loop is told from what is looped over by the token after it. -/
theorem loopTarget_prompt {f g : Option String → Expr → Parser Stmt}
    (hf : ∀ target e, Prompt n₁ n₂ (f target e) (g target e)) :
    Prompt n₁ n₂ (loopTarget >>= fun target => expression >>= f target)
      (loopTarget >>= fun target => expression >>= g target) := by
  have heq : ∀ h : Option String → Parser Stmt, (loopTarget >>= h) = (do
      if (← nextIs 0 [.word]) && (← nextIs 1 [.assign]) then
        let name ← expect .word
        let _ ← expect .assign
        h (some name.text)
      else h none) := by
    intro h
    simp only [loopTarget, bind_assoc]
    refine bind_congr fun a => bind_congr fun b => ?_
    split
    · simp only [bind_assoc, pure_bind]
    · rw [pure_bind]
  have hexpression : ∀ target {n₁ n₂}, (∀ e, Prompt n₁ n₂ (f target e) (g target e)) →
      Prompt n₁ n₂ (expression >>= f target) (expression >>= g target) :=
        fun target _ _ h => expression_prompt.bind h
  rw [heq, heq]
  refine .ifWord _ (.expect fun name => .expect fun _ => ?_) (hexpression none (hf none))
    fun s t k hb hr ht => ⟨?_, ?_⟩
  · exact hexpression _ fun e => (hf _ e).mono (by omega) (by omega)
  · refine .expect hb hr ht fun _ => (expectAny_forward _).bind fun _ => ?_
    exact (hexpression _ (hf _)).forward
  · exact (expression_reaches hb hr ht).bind hb (expression_leads.forward expression_sound) fun e =>
      (hf none e).forward

theorem loop_prompt : Prompt n₁ n₂ (loop nested) (loop nested') := by
  refine .expect fun _ => loopTarget_prompt fun target e => (spanFrom_prompt _).bind fun _ =>
    lineEnd_prompt.bind fun _ => ?_
  refine (nextIs_prompt _).bind fun b => ?_
  split
  · exact (block_prompt hs statement_starts hnested).bind fun _ => pure_prompt _
  · exact (pure_prompt _).bind fun _ => pure_prompt _

end Statements

theorem statement_prompt : Prompt n₁ n₂ statement statement := by
  refine .loop (complain_forward _) fun b₁ b₂ m₁ m₂ _ _ ih => ?_
  have hs := statementOf_sound b₁
  refine ⟨(statementOf_leads (b₁ + 1)).forward (statementOf_sound (b₁ + 1)),
    fun s₁ s₂ hs₁ hs₂ => ?_⟩
  refine .of_next fun t k₁ k₂ htaken hr₁ hr₂ => ?_
  have htwin : Twin s₁ s₂ [t] := ⟨htaken, ⟨k₁, hr₁.symm⟩, ⟨k₂, hr₂.symm⟩⟩
  refine .nextIs (i := 0) _ htwin (by simp) fun b _ => ?_
  cases b with
  | true => exact (branch_prompt hs ih).follows s₁ s₂ hs₁ hs₂
  | false =>
  refine .nextIs (i := 0) _ htwin (by simp) fun b _ => ?_
  cases b with
  | true => exact (loop_prompt hs ih).follows s₁ s₂ hs₁ hs₂
  | false =>
  refine .nextIs (i := 0) _ htwin (by simp) fun b hb => ?_
  cases b with
  | true =>
    have ht : t.kind = .word := by simpa [peekIs_zero hr₁] using hb
    have hsimple := simpleStatement_leads.forward simple_sound
    have hline : ∀ stmt, Prompt m₁ m₂ (lineEnd >>= fun _ => pure stmt : Parser Stmt)
        (lineEnd >>= fun _ => pure stmt) :=
      fun stmt => lineEnd_prompt.bind fun _ => pure_prompt stmt
    have hfollows := simpleStatement_follows hs₁ hs₂ ht hr₁ hr₂
    refine .bind hs₁.bounded hsimple (fun stmt => (hline stmt).forward) hfollows
      fun ts stmt s₁' s₂' _ hm₁ hm₂ => ?_
    exact (hline stmt).follows s₁' s₂' (hs₁.moved hm₁ (Nat.zero_le _))
      (hs₂.moved hm₂ (Nat.zero_le _))
  | false => exact (complain_prompt _).follows s₁ s₂ hs₁ hs₂

/-- A statement that starts with a word takes it. -/
theorem statement_reaches {s : Reading} {t : Token} {k : List Token} (hb : s.Bounded)
    (hr : s.cursor.rest = t :: k)
    (ht : t.kind = .word) : Reaches 1 statement s := by
  have hcall : Invocation [t, Token.sample .leftParen, Token.sample .rightParen] _ :=
    .own ht (.mk rfl .absent rfl)
  obtain ⟨-, s', hrun, -, -⟩ :=
    statement_complete _ (s.onto _) _ [] _ (onto_bounded _ _) (List.append_nil _).symm
    (Nat.le_refl _) (notNext_nil _) (.simple (.mk (.call hcall) lineEnd_sample))
  exact reaches_of_starts (fun _ _ => statement_prompt) statement_sound statement_starts hb hr hrun

theorem statements_prompt : Prompt n₁ n₂ statements statements :=
  block_prompt statement_sound statement_starts statement_prompt

/-! ### Declarations -/

theorem declaration_prompt : Prompt n₁ n₂ declaration declaration :=
  .expect fun _ => .expect fun _ => pure_prompt _

theorem declaration_reaches {s : Reading} {t : Token} {k : List Token} (hb : s.Bounded)
    (hr : s.cursor.rest = t :: k)
    (ht : t.kind = .word) : Reaches 1 declaration s :=
  .expect hb hr ht fun _ => (expectAny_forward _).bind fun _ => pure_forward _

theorem declarations_prompt : Prompt n₁ n₂ declarations declarations := by
  refine (nextIs_prompt _).bind fun b => ?_
  split
  · exact separated_prompt declaration_prompt
  · exact pure_prompt _

theorem parameters_prompt : Prompt n₁ n₂ parameters parameters :=
  .expect fun _ => declarations_prompt.bind fun _ => .expect fun _ => pure_prompt _

theorem header_prompt : Prompt n₁ n₂ header header := by
  refine .expect fun name => parameters_prompt.bind fun params =>
    .accept (declarations_prompt.bind fun rets => ?_) (pure_prompt _)
  split
  · exact blame_prompt (fun _ => rfl) fun _ => rfl
  · exact pure_prompt _

theorem interfaceDecl_prompt : Prompt n₁ n₂ interfaceDecl interfaceDecl := by
  have hline : Prompt (n₁ - 1 - 1) (n₂ - 1 - 1) (line header) (line header) :=
    header_prompt.bind fun _ => lineEnd_prompt.bind fun _ => pure_prompt _
  have hblock := block_prompt (line_sound header_sound) (line_starts header_starts) hline
  refine .expect fun _ => .expect fun _ => (spanFrom_prompt _).bind fun _ =>
    (passing_prompt _).bind fun _ => ?_
  exact lineEnd_prompt.bind fun _ => hblock.bind fun _ => pure_prompt _

theorem bodyItem_prompt : Prompt n₁ n₂ bodyItem bodyItem := by
  refine .ifWord _ (declaration_prompt.bind fun _ => lineEnd_prompt.bind fun _ => pure_prompt _)
    (statement_prompt.bind fun _ => pure_prompt _) fun s t k hb hr ht => ⟨?_, ?_⟩
  · refine (declaration_reaches hb hr ht).bind hb (declaration_leads.forward declaration_sound)
      fun _ => ?_
    have hline : Prompt n₁ n₂ lineEnd lineEnd := lineEnd_prompt
    exact hline.forward.bind fun _ => pure_forward _
  · exact (statement_reaches hb hr ht).bind hb (statement_leads.forward statement_sound) fun _ =>
      pure_forward _

theorem body_prompt : Prompt n₁ n₂ body body :=
  (block_prompt bodyItem_sound bodyItem_starts bodyItem_prompt).bind fun _ => pure_prompt _

theorem fieldBody_prompt (opener : Kind) : Prompt n₁ n₂ (fieldBody opener) (fieldBody opener) := by
  refine .accept (.expect fun _ => lineEnd_prompt.bind fun _ => ?_) (pure_prompt _)
  exact statements_prompt.bind fun _ => skipNewlines_prompt.bind fun _ => pure_prompt _

theorem member_prompt : Prompt n₁ n₂ member member := by
  refine declaration_prompt.bind fun _ => lineEnd_prompt.bind fun _ => .accept ?_ (pure_prompt _)
  refine skipNewlines_prompt.bind fun _ => (fieldBody_prompt _).bind fun _ =>
    (fieldBody_prompt _).bind fun _ => ?_
  exact .expect fun _ => pure_prompt _

theorem constructorDecl_prompt : Prompt n₁ n₂ constructorDecl constructorDecl := by
  refine .expect fun _ => parameters_prompt.bind fun _ => (spanFrom_prompt _).bind fun _ =>
    lineEnd_prompt.bind fun _ => ?_
  refine (nextIs_prompt _).bind fun b => ?_
  split
  · exact body_prompt.bind fun _ => pure_prompt _
  · exact (pure_prompt _).bind fun _ => pure_prompt _

theorem modifiers_prompt : Prompt n₁ n₂ (withBound modifiers) (withBound modifiers) := by
  refine .loop (pure_forward _) fun b₁ b₂ m₁ m₂ _ _ ih => ?_
  exact .accept (ih.bind fun _ => pure_prompt _)
    (.accept (ih.bind fun _ => pure_prompt _) (pure_prompt _))

theorem methodDecl_prompt : Prompt n₁ n₂ methodDecl methodDecl := by
  refine position_prompt.bind fun _ => modifiers_prompt.bind fun _ => header_prompt.bind fun _ => ?_
  refine (spanFrom_prompt _).bind fun _ => (passing_prompt _).bind fun _ =>
    lineEnd_prompt.bind fun _ => ?_
  exact body_prompt.bind fun _ => pure_prompt _

theorem member_reaches {s : Reading} {t : Token} {k : List Token} (hb : s.Bounded)
    (hr : s.cursor.rest = t :: k)
    (ht : t.kind = .word) : Reaches 1 member s := by
  have hstart : Starts [.word] MemberItem := by
    intro ts m h
    obtain ⟨u, v, us, rfl, hu, -⟩ := member_second h
    exact ⟨u, v :: us, rfl, by simp [hu]⟩
  have hd : Declaration [t, Token.sample .word] _ := .mk ht rfl
  obtain ⟨-, s', hrun, -, -⟩ :=
    member_complete _ (s.onto _) _ [] _ (onto_bounded _ _) (List.append_nil _).symm
    (Nat.le_refl _) (notNext_nil _) (.plain (.mk hd lineEnd_sample))
  exact reaches_of_starts (fun _ _ => member_prompt) member_sound hstart hb hr hrun

theorem methodDecl_reaches {s : Reading} {t : Token} {k : List Token} (hb : s.Bounded)
    (hr : s.cursor.rest = t :: k)
    (ht : t.kind = .word) : Reaches 1 methodDecl s := by
  have hstart : Starts [.sharedWord, .privateWord, .word] MethodItem := by
    intro ts m h
    obtain ⟨u, us, rfl, hu | ⟨hu, -⟩⟩ := method_starts h
    · exact ⟨u, us, rfl, List.mem_append_left [Kind.word] hu⟩
    · exact ⟨u, us, rfl, by simp [hu]⟩
  have hheader : HeaderLine [t, Token.sample .leftParen, Token.sample .rightParen] _ :=
    .mk ht (.mk rfl .absent rfl) .absent
  have hbody : Body [Token.sample .indent, Token.sample .dedent] _ :=
    .mk (.mk rfl .nil blank_nil rfl)
  have hmodifiers : Modifiers [] := by simp [Modifiers]
  obtain ⟨s', hrun, -⟩ :=
    methodDecl_complete _ (s.onto _) _ [] _ (onto_bounded _ _) (List.append_nil _).symm
    (Nat.le_refl _) (notNext_nil _) (.mk hmodifiers hheader lineEnd_sample hbody)
  exact reaches_of_starts (fun _ _ => methodDecl_prompt) methodDecl_sound hstart hb hr hrun

/-- A part of a class that starts with a word: the next token tells a method from a member, and both
take the word. -/
theorem classItem_prompt : Prompt n₁ n₂ classItem classItem := by
  refine ⟨classItem_leads.forward classItem_sound, fun s₁ s₂ hs₁ hs₂ =>
    .of_next fun t k₁ k₂ htaken hr₁ hr₂ => ?_⟩
  have hb := hs₁.bounded
  have htwin : Twin s₁ s₂ [t] := ⟨htaken, ⟨k₁, hr₁.symm⟩, ⟨k₂, hr₂.symm⟩⟩
  have hmethod : Prompt n₁ n₂ (methodDecl >>= fun m => pure (([], [], [m]) : ClassBody))
      (methodDecl >>= fun m => pure ([], [], [m])) := methodDecl_prompt.bind fun _ => pure_prompt _
  have hmember : Prompt n₁ n₂ (member >>= fun m => pure (([m], [], []) : ClassBody))
      (member >>= fun m => pure ([m], [], [])) := member_prompt.bind fun _ => pure_prompt _
  refine .nextIs (i := 0) _ htwin (by simp) fun b _ => ?_
  cases b with
  | true => exact (constructorDecl_prompt.bind fun _ => pure_prompt _).follows s₁ s₂ hs₁ hs₂
  | false =>
  refine .nextIs (i := 0) _ htwin (by simp) fun b hmodifier => ?_
  cases b with
  | true => exact hmethod.follows s₁ s₂ hs₁ hs₂
  | false =>
  refine .nextIs (i := 0) _ htwin (by simp) fun b hword => ?_
  cases b with
  | false => exact (complain_prompt _).follows s₁ s₂ hs₁ hs₂
  | true =>
  have ht : t.kind = .word := by simpa [peekIs_zero hr₁] using hword
  refine .of_reaches (n := 1) ?_ fun ts hlen htwin => ?_
  · refine .of_ok (nextIs_run ..) ?_
    split
    · exact (methodDecl_reaches hb hr₁ ht).bind hb (methodDecl_leads.forward methodDecl_sound)
        fun _ => pure_forward _
    refine .of_ok (nextIs_run ..) ?_
    split
    · exact (member_reaches hb hr₁ ht).bind hb (member_leads.forward member_sound) fun _ =>
        pure_forward _
    · exact .expect hb hr₁ ht fun _ => complain_forward _
  · refine .nextIs (i := 1) _ htwin (by omega) fun b _ => ?_
    cases b with
    | true => exact hmethod.follows s₁ s₂ hs₁ hs₂
    | false =>
    refine .nextIs (i := 1) _ htwin (by omega) fun b _ => ?_
    cases b with
    | true => exact hmember.follows s₁ s₂ hs₁ hs₂
    | false => exact Prompt.follows (.expect fun _ => complain_prompt _) s₁ s₂ hs₁ hs₂

theorem implemented_prompt : Prompt n₁ n₂ implemented implemented :=
  .accept (separated_prompt name_prompt) (pure_prompt _)

theorem classDecl_prompt : Prompt n₁ n₂ classDecl classDecl := by
  have hblock : ∀ {n₁ n₂}, Prompt n₁ n₂ (block classItem) (block classItem) :=
    block_prompt classItem_sound classItem_starts classItem_prompt
  refine .expect fun _ => .expect fun _ => implemented_prompt.bind fun _ =>
    (spanFrom_prompt _).bind fun _ => ?_
  exact (passing_prompt _).bind fun _ => lineEnd_prompt.bind fun _ => hblock.bind fun _ =>
    pure_prompt _

/-! ### Programs -/

theorem programItem_prompt : Prompt n₁ n₂ programItem programItem := by
  refine (nextIs_prompt _).bind fun b => ?_
  split
  · exact interfaceDecl_prompt.bind fun _ => pure_prompt _
  refine (nextIs_prompt _).bind fun b => ?_
  split
  · exact classDecl_prompt.bind fun _ => pure_prompt _
  · exact complain_prompt _

theorem programItems_prompt : Prompt n₁ n₂ (withBound programItems) (withBound programItems) := by
  refine .loop (pure_forward _) fun b₁ b₂ m₁ m₂ _ _ ih => ?_
  have hmore : Prompt m₁ m₂ (do
        let first ← programItem
        skipNewlines
        return first :: (← programItems b₁))
      (do
        let first ← programItem
        skipNewlines
        return first :: (← programItems b₂)) := by
    refine programItem_prompt.bind_of_starts programItem_sound programItem_starts fun _ => ?_
    exact skipNewlines_prompt.bind fun _ => ih.bind fun _ => pure_prompt _
  have hcursor : Still cursor := fun s => ⟨_, s, rfl, Moved.refl s⟩
  refine ⟨hcursor.forward.bind fun c => ?_, fun s₁ s₂ hs₁ hs₂ =>
    .of_next fun t k₁ k₂ _ hr₁ hr₂ => ?_⟩
  · split
    · exact pure_forward _
    · exact hmore.forward
  · refine .of_ok (cursor_run s₁) (cursor_run s₂) ?_
    simp only [Cursor.done, hr₁, hr₂]
    exact hmore.follows s₁ s₂ hs₁ hs₂

theorem program_prompt : Prompt n₁ n₂ program program :=
  skipNewlines_prompt.bind fun _ => programItems_prompt.bind fun _ => pure_prompt _

end Offside.Parser

namespace Offside

open Offside.Parser Reading

/-- The place of the token that is blamed, where reading stopped: that of the next token, or of the
last one taken. -/
def ParseError.place (e : ParseError) (c : Cursor) : Nat :=
  if e.taken?.isSome then c.taken.length - 1 else c.taken.length

theorem ParseError.length_ahead (e : ParseError) {s s' : Reading} {ts : List Token}
    (hs : s.cursor.taken = []) (hm : Moved s ts s') : (e.ahead ts).length = e.place s'.cursor := by
  have htaken : s'.cursor.taken.length = ts.length := by
    rw [hm.taken, hs, List.append_nil, List.length_reverse]
  unfold ahead place
  rw [htaken]
  split
  · exact List.length_dropLast
  · rfl

theorem parse_eq_error {ts : List Token} {e : ParseError} (h : parse ts = .error e) :
    ∃ s', Parser.program (.ofTokens ts) = .error e s' ∧
      (Parsed.ofTokens ts).cursor = s'.cursor := by
  unfold parse Parsed.ofTokens EStateM.run at h
  unfold Parsed.ofTokens EStateM.run
  cases hrun : Parser.program (.ofTokens ts) with
  | ok p s' => simp [hrun] at h
  | error e' s' =>
    simp only [hrun, Except.error.injEq] at h
    exact ⟨s', by rw [h], rfl⟩

/-- A class with a method that assigns a number without digits. -/
def misnumbered : List Token :=
  [.classWord, .word, .newline, .indent, .word, .leftParen, .rightParen, .newline, .indent, .word,
    .assign, .number, .newline].map Token.sample

end Offside
