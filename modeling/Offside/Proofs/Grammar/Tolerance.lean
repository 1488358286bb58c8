import Offside.Proofs.Grammar.Lookahead
import Offside.Proofs.Grammar.Padding
import Offside.Proofs.Program.Bare

/-! No production notices padding. -/
namespace Offside

namespace Parser

open Reading Grammar

variable {n₁ n₂ : Nat}

/-! ### Expressions -/

section Operators
variable {α γ Op : Type} {view : α → γ} {Q : Reading → Reading → Prop} {op? : Kind → Option Op}

/-- No line may start after an operator. -/
def Inline (op? : Kind → Option Op) : Prop := ∀ kind ∈ lineStarters, op? kind = none

theorem Agrees.operator {f g : Option Op → Parser α} (hop : Inline op?)
    (hnone : Agrees n₁ n₂ Abreast view Q (f none) (g none))
    (hsome : ∀ op, Agrees (n₁ - 1) (n₂ - 1) Abreast view Q (f (some op)) (g (some op))) :
    Agrees n₁ n₂ Abreast view Q (operator? op? >>= f) (operator? op? >>= g) := by
  intro s₁ s₂ hs₁ hs₂ h
  rcases h.next with ⟨h₁, h₂⟩ | ⟨t, u, k₁, k₂, h₁, h₂, hlook⟩
  · exact .of_ok (operator?_of_none (by simp [h₁])) (operator?_of_none (by simp [h₂]))
      (hnone s₁ s₂ hs₁ hs₂ h)
  · have hkind := Token.kind_of_look hlook
    cases ht : op? t.kind with
    | none =>
      have hu : op? u.kind = none := hkind ▸ ht
      exact .of_ok (operator?_of_none (by simp [h₁, ht])) (operator?_of_none (by simp [h₂, hu]))
        (hnone s₁ s₂ hs₁ hs₂ h)
    | some op =>
      obtain ⟨s₁', hr₁, hm₁⟩ := operator?_of_next h₁ ht
      obtain ⟨s₂', hr₂, hm₂⟩ := operator?_of_next h₂ (hkind ▸ ht)
      have hplain : t.kind ∉ lineStarters := by
        intro hmem
        rw [hop _ hmem] at ht
        cases ht
      rw [bind_of_ok hr₁, bind_of_ok hr₂]
      have hnext := hsome op s₁' s₂' (hs₁.moved hm₁ (Nat.le_refl 1)) (hs₂.moved hm₂ (Nat.le_refl 1))
        (h.abreast_of_taken hm₁ hm₂ hplain)
      exact hnext.after hm₁ hm₂ fun _ => List.cons_ne_nil _ _

end Operators

section Chains
variable {op? : Kind → Option Operator} {operand operand' : Parser Expr}

theorem chainAfter_idle (op? : Kind → Option Operator) (operand : Parser Expr) (left : Expr) :
    Idle fun bound => chainAfter op? operand bound left := by
  intro s hr
  show chainAfter op? operand 0 left s = chainAfter op? operand 1 left s
  rw [chainAfter, chainAfter, bind_of_ok (operator?_of_none (by simp [hr]))]

theorem chain_agrees (hop : Inline op?)
    (hoperand : Agrees n₁ n₂ Abreast id Abreast operand operand') :
    Agrees n₁ n₂ Abreast id Abreast (chain op? operand) (chain op? operand') := by
  refine hoperand.bindEq fun first => ?_
  refine .loopWith (chainAfter_idle op? operand) (chainAfter_idle op? operand')
    (fun b₁ b₂ m₁ m₂ h₁ h₂ ih left => ?_) first
  refine .operator hop (pure_agrees rfl) fun op => ?_
  refine (hoperand.mono (by omega) (by omega)).bindEq fun right => ?_
  exact ih (.binary op left right)

end Chains

section Levels
variable {single single' : Parser Expr} (hsingle : Agrees n₁ n₂ Abreast id Abreast single single')
include hsingle

theorem sum_agrees : Agrees n₁ n₂ Abreast id Abreast (sum single) (sum single') :=
  chain_agrees (by simp [Inline, lineStarters, sumOp?])
    (chain_agrees (by simp [Inline, lineStarters, productOp?]) hsingle)

theorem comparison_agrees :
    Agrees n₁ n₂ Abreast id Abreast (comparison single) (comparison single') := by
  refine (countOf_agrees (by decide)).bindEq fun negations => ?_
  refine (sum_agrees hsingle).bindEq fun left => ?_
  refine .operator (by simp [Inline, lineStarters, compareOp?]) (pure_agrees rfl) fun op => ?_
  refine ((sum_agrees hsingle).mono (Nat.sub_le n₁ 1) (Nat.sub_le n₂ 1)).bindEq fun right => ?_
  exact pure_agrees rfl

theorem disjunction_agrees :
    Agrees n₁ n₂ Abreast id Abreast (disjunction single) (disjunction single') := by
  have hconjunction : Agrees n₁ n₂ Abreast id Abreast (conjunction single) (conjunction single') :=
    chain_agrees (by simp [Inline, lineStarters]) (comparison_agrees hsingle)
  refine hconjunction.bindEq fun first => ?_
  refine (afterSeparators_agrees (by decide) hconjunction).bind fun rest rest' h => ?_
  rw [List.map_id, List.map_id] at h
  subst h
  exact pure_agrees rfl

end Levels

section Nested
variable {nested nested' : Parser Expr}

theorem argumentsLeft_idle (hs : Sound nested Expression) : Idle (argumentsLeft nested) := by
  intro s hr
  obtain ⟨e, s', he⟩ := error_of_nil hs expression_starts hr
  have hzero : argumentsLeft nested 0 s = .error e s' := bind_eq_error.mpr (.inl he)
  have hone : argumentsLeft nested 1 s = .error e s' := bind_eq_error.mpr (.inl he)
  rw [hzero, hone]

theorem arguments_agrees (hs : Sound nested Expression) (hs' : Sound nested' Expression)
    (hnested : Agrees n₁ n₂ Abreast id Abreast nested nested') :
    Agrees n₁ n₂ Abreast id Abreast (arguments nested) (arguments nested') := by
  refine .accept (by decide) (pure_agrees rfl)
    (.loop (argumentsLeft_idle hs) (argumentsLeft_idle hs') fun b₁ b₂ m₁ m₂ h₁ h₂ ih => ?_)
  refine (hnested.mono h₁ h₂).bindEq fun first => ?_
  refine .expectAny (leaves_abreast (by decide)) fun t u hlook => ?_
  rw [Token.kind_of_look hlook]
  split
  · exact pure_agrees rfl
  · refine ih.bindEq fun rest => ?_
    exact pure_agrees rfl

theorem call_agrees (hs : Sound nested Expression) (hs' : Sound nested' Expression)
    (hnested : Agrees (n₁ - 1) (n₂ - 1) Abreast id Abreast nested nested') :
    Agrees n₁ n₂ Abreast id Abreast (call nested) (call nested') := by
  have harguments := arguments_agrees hs hs' hnested
  refine .expect (by decide) fun name name' hname => .accept (by decide) ?_ ?_
  · refine .expect (by decide) fun method method' hmethod => .expect (by decide) fun _ _ _ => ?_
    refine (harguments.mono (by omega) (by omega)).bindEq fun es => ?_
    rw [Token.text_of_face hname, Token.text_of_face hmethod]
    exact pure_agrees rfl
  · refine .expect (by decide) fun _ _ _ =>
      (harguments.mono (by omega) (by omega)).bindEq fun es => ?_
    rw [Token.text_of_face hname]
    exact pure_agrees rfl

theorem numberOf_agrees {t u : Token} (h : t.face = u.face) :
    Agrees n₁ n₂ Abreast id Abreast (numberOf t) (numberOf u) := by
  unfold numberOf
  rw [← Token.text_of_face h]
  cases Number.read? t.text with
  | some value => exact pure_agrees rfl
  | none => exact throw_agrees (fun _ => rfl) fun _ => rfl

theorem characterOf_agrees {t u : Token} (h : t.face = u.face) :
    Agrees n₁ n₂ Abreast id Abreast (characterOf t) (characterOf u) := by
  unfold characterOf
  rw [← Token.text_of_face h]
  cases t.text.toList with
  | cons c cs => exact pure_agrees rfl
  | nil => exact throw_agrees (fun _ => rfl) fun _ => rfl

theorem primary_agrees (hs : Sound nested Expression) (hs' : Sound nested' Expression)
    (hnested : Agrees (n₁ - 1) (n₂ - 1) Abreast id Abreast nested nested') :
    Agrees n₁ n₂ Abreast id Abreast (primary nested) (primary nested') := by
  intro s₁ s₂ hs₁ hs₂ h
  unfold primary
  refine .of_ok (cursor_run s₁) (cursor_run s₂) ?_
  rcases h.next with ⟨h₁, h₂⟩ | ⟨t, u, k₁, k₂, h₁, h₂, hlook⟩
  · have hpeek : ∀ {s : Reading}, s.cursor.rest = [] → s.cursor.peek? 0 = none := by
      intro s hr
      show s.cursor.rest[0]? = none
      rw [hr]
      rfl
    rw [hpeek h₁, hpeek h₂]
    exact .error rfl
  have hkind := Token.kind_of_look hlook
  by_cases hline : t.kind = .newline
  · simp only [peek?_zero h₁, peek?_zero h₂, ← hkind, hline]
    exact complain_agrees _ s₁ s₂ hs₁ hs₂ h
  have hface := Token.face_of_look hlook hline
  simp only [peek?_zero h₁, peek?_zero h₂, ← hkind, ← Token.text_of_face hface]
  have hword : ∀ {kind : Kind} (e : Expr), kind ∉ lineStarters →
      Agrees n₁ n₂ Abreast id Abreast (expect kind >>= fun _ => pure e)
        (expect kind >>= fun _ => pure e) :=
    fun e hkind => .expect hkind fun _ _ _ => pure_agrees rfl
  cases ht : t.kind with
  | trueWord => exact hword _ (by decide) s₁ s₂ hs₁ hs₂ h
  | falseWord => exact hword _ (by decide) s₁ s₂ hs₁ hs₂ h
  | text => exact hword _ (by decide) s₁ s₂ hs₁ hs₂ h
  | number =>
    exact Agrees.expect (by decide) (fun _ _ _ => numberOf_agrees hface) s₁ s₂ hs₁ hs₂ h
  | character =>
    exact Agrees.expect (by decide) (fun _ _ _ => characterOf_agrees hface) s₁ s₂ hs₁ hs₂ h
  | leftParen =>
    refine Agrees.expect (by decide) (fun _ _ _ => hnested.bindEq fun inner => ?_) s₁ s₂ hs₁ hs₂ h
    exact .expect (by decide) fun _ _ _ => pure_agrees rfl
  | newWord =>
    refine Agrees.expect (by decide) (fun _ _ _ => .expect (by decide) fun cls cls' hcls =>
      .expect (by decide) fun _ _ _ => ?_) s₁ s₂ hs₁ hs₂ h
    refine ((arguments_agrees hs hs' hnested).mono (by omega) (by omega)).bindEq fun es => ?_
    rw [Token.text_of_face hcls]
    exact pure_agrees rfl
  | word =>
    have hplain : ∀ v ∈ [t], v.kind ∉ lineStarters := by simp [ht, lineStarters]
    refine .nextIs (h.peekIs [t] h₁ hplain _) fun b _ => ?_
    cases b with
    | true =>
      refine (call_agrees hs hs' hnested).bindEq (fun c => ?_) s₁ s₂ hs₁ hs₂ h
      exact pure_agrees rfl
    | false => exact hword _ (by decide) s₁ s₂ hs₁ hs₂ h
  | _ => exact complain_agrees _ s₁ s₂ hs₁ hs₂ h

end Nested

/-- Where nothing is left, an expression is what is missed, whatever the bound. -/
theorem expressionOf_idle : Idle expressionOf := by
  intro s hr
  have hpeek : s.cursor.peek? 0 = none := by
    show s.cursor.rest[0]? = none
    rw [hr]
    rfl
  let e : ParseError := ⟨.endOfExpression, s.cursor.location⟩
  have hprimary : primary (expressionOf 0) s = .error e s := by
    unfold primary
    rw [bind_of_ok (cursor_run s), hpeek]
    rfl
  have hchain : ∀ {op? operand}, operand s = .error e s → chain op? operand s = .error e s :=
    fun h => bind_eq_error.mpr (.inl h)
  have hcount : withBound (countOf .not) s = .ok 0 s := by
    rw [withBound_run]
    cases s.count with
    | zero => rfl
    | succ bound =>
      rw [countOf, bind_of_ok (accept_of_nil .not hr)]
      rfl
  have hcomparison : comparison (primary (expressionOf 0)) s = .error e s := by
    rw [comparison, bind_of_ok hcount]
    exact bind_eq_error.mpr (.inl (hchain (hchain hprimary)))
  have hone : expressionOf 1 s = .error e s := bind_eq_error.mpr (.inl (hchain hcomparison))
  rw [hone]
  rfl

theorem expression_agrees : Agrees n₁ n₂ Abreast id Abreast expression expression := by
  refine .loop expressionOf_idle expressionOf_idle fun b₁ b₂ m₁ m₂ _ _ ih => ?_
  exact disjunction_agrees (primary_agrees (expressionOf_sound b₁) (expressionOf_sound b₂) ih)

theorem callExpression_agrees : Agrees n₁ n₂ Abreast id Abreast callExpression callExpression :=
  call_agrees expression_sound expression_sound expression_agrees

/-! ### Statements -/

theorem name_agrees : Agrees n₁ n₂ Abreast id Abreast name name :=
  .expect (by decide) fun _ _ hface => pure_agrees (Token.text_of_face hface)

theorem names_agrees :
    Agrees n₁ n₂ Abreast id Abreast (separated .comma name) (separated .comma name) :=
  (separated_agrees (by decide) name_agrees).seen fun _ _ h => by simpa using h

theorem receivingCall_agrees (start start' : Position) :
    Agrees n₁ n₂ Abreast Stmt.bare Abreast (receivingCall start) (receivingCall start') := by
  refine names_agrees.bindEq fun targets => ?_
  refine .expect (by decide) fun _ _ _ => callExpression_agrees.bindEq fun c => ?_
  exact (spanFrom_agrees _ _).bind fun _ _ _ => pure_agrees rfl

theorem assignment_agrees (start start' : Position) :
    Agrees n₁ n₂ Abreast Stmt.bare Abreast (assignment start) (assignment start') := by
  refine .expect (by decide) fun target target' htarget => .expect (by decide) fun _ _ _ => ?_
  refine expression_agrees.bindEq fun value => ?_
  rw [Token.text_of_face htarget]
  exact (spanFrom_agrees _ _).bind fun _ _ _ => pure_agrees rfl

/-- The next token is the same word. -/
structure AtWord (s₁ s₂ : Reading) : Prop where
  abreast : Abreast s₁ s₂
  word : ∃ t k, s₁.cursor.rest = t :: k ∧ t.kind = .word

theorem AtWord.of_peekIs {s₁ s₂ : Reading} (h : Abreast s₁ s₂)
    (hpeek : s₁.cursor.peekIs 0 [.word] = true) : AtWord s₁ s₂ := by
  obtain ⟨t, k, hr, ht⟩ := next_of_peekIs [] rfl hpeek
  exact ⟨h, t, k, hr, List.mem_singleton.mp ht⟩

/-- A statement that starts with a word is told by tokens among which nothing is put in. -/
theorem simpleStatement_agrees :
    Agrees n₁ n₂ AtWord Stmt.bare Abreast simpleStatement simpleStatement := by
  rintro s₁ s₂ hs₁ hs₂ ⟨h, t, k, hr, ht⟩
  have hone : ∀ u ∈ [t], u.kind ∉ lineStarters := by simp [ht, lineStarters]
  have hpeek := h.peekIs [t] hr hone
  unfold simpleStatement
  refine .of_ok rfl rfl (.nextIs (hpeek _) fun b _ => ?_)
  cases b with
  | true =>
    refine callExpression_agrees.bindEq (fun c => ?_) s₁ s₂ hs₁ hs₂ h
    exact (spanFrom_agrees _ _).bind fun _ _ _ => pure_agrees rfl
  | false =>
  refine .nextIs (hpeek _) fun b _ => ?_
  cases b with
  | true => exact receivingCall_agrees _ _ s₁ s₂ hs₁ hs₂ h
  | false =>
  refine .nextIs (hpeek _) fun b hassign => ?_
  cases b with
  | false => exact Agrees.expect (by decide) (fun _ _ _ => complain_agrees _) s₁ s₂ hs₁ hs₂ h
  | true =>
  obtain ⟨eq, k, rfl, heq⟩ := next_of_peekIs [t] hr hassign
  have htwo : ∀ u ∈ [t, eq], u.kind ∉ lineStarters := by
    simp [ht, List.mem_singleton.mp heq, lineStarters]
  refine .nextIs (h.peekIs [t, eq] hr htwo _) fun b hword => ?_
  cases b with
  | false => exact .of_ok (nextIs_run ..) (nextIs_run ..) (assignment_agrees _ _ s₁ s₂ hs₁ hs₂ h)
  | true =>
  obtain ⟨w, k, rfl, hw⟩ := next_of_peekIs [t, eq] hr hword
  have hthree : ∀ u ∈ [t, eq, w], u.kind ∉ lineStarters := by
    simp [ht, List.mem_singleton.mp heq, List.mem_singleton.mp hw, lineStarters]
  refine .nextIs (h.peekIs [t, eq, w] hr hthree _) fun b _ => ?_
  cases b with
  | false => exact assignment_agrees _ _ s₁ s₂ hs₁ hs₂ h
  | true => exact receivingCall_agrees _ _ s₁ s₂ hs₁ hs₂ h

section Statements
variable {nested nested' : Parser Stmt} (hs : Sound nested Statement)
    (hs' : Sound nested' Statement)
  (hnested : Agrees (n₁ - 1) (n₂ - 1) Abreast Stmt.bare Near nested nested')
include hs hs' hnested

theorem branch_agrees : Agrees n₁ n₂ Abreast Stmt.bare Near (branch nested) (branch nested') := by
  have hblock := block_agrees hs hs' statement_starts hnested
  refine .expect (by decide) fun _ _ _ => expression_agrees.bindEq fun condition => ?_
  -- The block leaves the readings only near, but where an `else` follows nothing was put in.
  refine (spanFrom_agrees _ _).bind fun _ _ _ => lineEnd_agrees.bind fun _ _ _ =>
    hblock.bind fun yes yes' hyes => .acceptElse (lineEnd_agrees.bind fun _ _ _ => ?_) ?_
  · refine (hblock.mono (by omega) (by omega)).bind fun no no' hno => pure_agrees ?_
    simp only [Stmt.bare, Stmt.bareElse, Stmt.bareAll_eq_map, hyes, hno]
  · refine pure_agrees ?_
    simp only [Stmt.bare, Stmt.bareElse, Stmt.bareAll_eq_map, hyes]

omit hs hs' hnested in
theorem loopTarget_agrees : Agrees n₁ n₂ Abreast id Abreast loopTarget loopTarget := by
  refine .ifWord (.expect (by decide) fun name name' hname => .expect (by decide) fun _ _ _ => ?_)
    (pure_agrees rfl)
  exact pure_agrees (congrArg some (Token.text_of_face hname))

theorem loop_agrees : Agrees n₁ n₂ Abreast Stmt.bare Near (loop nested) (loop nested') := by
  refine .expect (by decide) fun _ _ _ => loopTarget_agrees.bindEq fun target => ?_
  refine expression_agrees.bindEq fun source => ?_
  refine (spanFrom_agrees _ _).bind fun _ _ _ => lineEnd_agrees.bind fun _ _ _ =>
    .nextIs fun b => ?_
  split
  · refine (block_agrees hs hs' statement_starts hnested).bind fun body body' hbody =>
      pure_agrees ?_
    simp only [Stmt.bare, Stmt.bareAll_eq_map, hbody]
  · have hnone :
        Agrees (n₁ - 1) (n₂ - 1) Abreast id Abreast (pure [] : Parser (List Stmt)) (pure []) :=
      pure_agrees rfl
    refine (hnone.bindEq fun body => ?_).near
    exact pure_agrees rfl

end Statements

theorem statementOf_idle : Idle statementOf := by
  intro s hr
  have hpeek : ∀ kinds, s.cursor.peekIs 0 kinds = false :=
    fun _ => peekIs_zero_of_notNext (by simp [hr])
  rw [statementOf, statementOf]
  simp only [bind_of_ok (nextIs_run _ _ s), hpeek, Bool.false_eq_true, if_false]

theorem statement_agrees : Agrees n₁ n₂ Abreast Stmt.bare Near statement statement := by
  refine .loop statementOf_idle statementOf_idle fun b₁ b₂ m₁ m₂ _ _ ih => ?_
  have hs₁ := statementOf_sound b₁
  have hs₂ := statementOf_sound b₂
  refine .nextIs fun b => ?_
  cases b with
  | true => exact branch_agrees hs₁ hs₂ ih
  | false =>
  refine .nextIs fun b => ?_
  cases b with
  | true => exact loop_agrees hs₁ hs₂ ih
  | false =>
  intro s₁ s₂ hu₁ hu₂ h
  refine .nextIs (h.peekIs_zero _) fun b hword => ?_
  cases b with
  | false => exact complain_agrees _ s₁ s₂ hu₁ hu₂ h
  | true =>
  refine (simpleStatement_agrees.bind fun stmt stmt' hstmt => ?_).near s₁ s₂ hu₁ hu₂
    (.of_peekIs h hword)
  exact lineEnd_agrees.bind fun _ _ _ => pure_agrees hstmt

theorem statements_agrees : Agrees n₁ n₂ Abreast (List.map Stmt.bare) Near statements statements :=
  block_agrees statement_sound statement_sound statement_starts statement_agrees

/-! ### Declarations -/

theorem declaration_agrees : Agrees n₁ n₂ Abreast id Abreast declaration declaration := by
  refine .expect (by decide) fun type type' htype => .expect (by decide) fun name name' hname => ?_
  rw [Token.text_of_face htype, Token.text_of_face hname]
  exact pure_agrees rfl

theorem declarations_agrees : Agrees n₁ n₂ Abreast id Abreast declarations declarations := by
  refine .nextIs fun b => ?_
  split
  · exact (separated_agrees (by decide) declaration_agrees).seen fun _ _ h => by simpa using h
  · exact pure_agrees rfl

theorem parameters_agrees : Agrees n₁ n₂ Abreast id Abreast parameters parameters := by
  refine .expect (by decide) fun _ _ _ => declarations_agrees.bind fun decls decls' h => ?_
  exact .expect (by decide) fun _ _ _ => pure_agrees h

theorem header_agrees : Agrees n₁ n₂ Abreast id Abreast header header := by
  refine .expect (by decide) fun name name' hname => parameters_agrees.bindEq fun params => ?_
  rw [Token.text_of_face hname]
  refine .accept (by decide) (declarations_agrees.bindEq fun rets => ?_) (pure_agrees rfl)
  split
  · exact throw_agrees (fun _ => rfl) fun _ => rfl
  · exact pure_agrees rfl

theorem passing_agrees (m m' : Milestone) :
    Agrees n₁ n₂ Abreast (fun _ => ()) Abreast (passing m) (passing m') :=
  still_agrees (passing_still m) (passing_still m')

theorem line_agrees {α γ : Type} {view : α → γ} {p : Parser α}
    (hp : Agrees n₁ n₂ Abreast view Abreast p p) :
    Agrees n₁ n₂ Abreast view Abreast (line p) (line p) :=
  hp.bind fun _ _ h => lineEnd_agrees.bind fun _ _ _ => pure_agrees h

theorem interfaceDecl_agrees :
    Agrees n₁ n₂ Abreast InterfaceDecl.bare Near interfaceDecl interfaceDecl := by
  have hblock : ∀ {n₁ n₂}, Agrees n₁ n₂ Abreast (List.map id) Near (block (line header))
      (block (line header)) :=
    block_agrees (line_sound header_sound) (line_sound header_sound) (line_starts header_starts)
      (line_agrees header_agrees).near
  refine .expect (by decide) fun _ _ _ => .expect (by decide) fun name name' hname =>
    (spanFrom_agrees _ _).bind fun _ _ _ => (passing_agrees _ _).bind fun _ _ _ => ?_
  refine lineEnd_agrees.bind fun _ _ _ => hblock.bind fun methods methods' hmethods => ?_
  rw [List.map_id, List.map_id] at hmethods
  rw [Token.text_of_face hname, hmethods]
  exact pure_agrees rfl

theorem bodyItem_agrees : Agrees n₁ n₂ Abreast bareBody Near bodyItem bodyItem := by
  refine .ifWord (declaration_agrees.bind fun d d' hd => ?_)
    (statement_agrees.bind fun _ _ h => pure_agrees (congrArg (fun s => ([], [s])) h))
  have hline : Agrees n₁ n₂ Abreast bareBody Abreast (lineEnd >>= fun _ => pure ([d], []))
      (lineEnd >>= fun _ => pure ([d'], [])) :=
    lineEnd_agrees.bind fun _ _ _ => pure_agrees (congrArg (fun d => ([d], [])) hd)
  exact hline.near

theorem body_agrees : Agrees n₁ n₂ Abreast bareBody Near body body := by
  refine (block_agrees bodyItem_sound bodyItem_sound bodyItem_starts bodyItem_agrees).bind
    fun items items' h => pure_agrees ?_
  have hdecls := flatMap_bare bareBody Prod.fst id (fun line => (List.map_id line.1).symm) h
  have hstmts := flatMap_bare bareBody Prod.snd Stmt.bare (fun _ => rfl) h
  rw [List.map_id, List.map_id] at hdecls
  exact Prod.ext hdecls hstmts

theorem fieldBody_agrees {opener : Kind} (h : opener ∉ lineStarters) :
    Agrees n₁ n₂ Abreast (List.map Stmt.bare) Abreast (fieldBody opener) (fieldBody opener) := by
  refine .accept h (.expect (by decide) fun _ _ _ => lineEnd_agrees.bind fun _ _ _ => ?_)
    (pure_agrees rfl)
  exact statements_agrees.bind fun body body' hbody =>
    skipNewlines_agrees_of_near.bind fun _ _ _ => pure_agrees hbody

theorem member_agrees : Agrees n₁ n₂ Abreast Member.bare Near member member := by
  refine declaration_agrees.bindEq fun d => ?_
  refine lineEnd_agrees.bind fun _ _ _ =>
    .acceptAny (leaves_near (by decide)) ?_ (pure_agrees rfl).near
  refine skipNewlines_agrees_of_near.bind fun _ _ _ =>
    (fieldBody_agrees (by decide)).bind fun accessor accessor' haccessor =>
    (fieldBody_agrees (by decide)).bind fun mutator mutator' hmutator => ?_
  refine .expectAny (leaves_near (by decide)) fun _ _ _ => pure_agrees ?_
  simp only [Member.bare, haccessor, hmutator]

theorem constructorDecl_agrees :
    Agrees n₁ n₂ Abreast ConstructorDecl.bare Near constructorDecl constructorDecl := by
  refine .expect (by decide) fun _ _ _ => parameters_agrees.bindEq fun params => ?_
  refine (spanFrom_agrees _ _).bind fun span span' _ => lineEnd_agrees.bind fun _ _ _ =>
    .nextIs fun b => ?_
  have hsame : ∀ body body' : List Decl × List Stmt, bareBody body = bareBody body' →
      (ConstructorDecl.mk params body.1 body.2 span).bare =
        (ConstructorDecl.mk params body'.1 body'.2 span').bare := by
    intro body body' h
    obtain ⟨hlocals, hstmts⟩ := Prod.mk.inj h
    simp only [ConstructorDecl.bare, hlocals, hstmts]
  split
  · exact body_agrees.bind fun body body' h => pure_agrees (hsame body body' h)
  · exact Agrees.near (pure_agrees rfl)

theorem modifiers_idle : Idle modifiers := by
  intro s hr
  rw [modifiers, modifiers, bind_of_ok (accept_of_nil .privateWord hr)]
  simp only [Bool.false_eq_true, if_false]
  rw [bind_of_ok (accept_of_nil .sharedWord hr)]
  rfl

theorem modifiers_agrees :
    Agrees n₁ n₂ Abreast id Abreast (withBound modifiers) (withBound modifiers) := by
  refine .loop modifiers_idle modifiers_idle fun b₁ b₂ m₁ m₂ _ _ ih => ?_
  exact .accept (by decide) (ih.bindEq fun _ => pure_agrees rfl)
    (.accept (by decide) (ih.bindEq fun _ => pure_agrees rfl) (pure_agrees rfl))

theorem methodDecl_agrees : Agrees n₁ n₂ Abreast MethodDecl.bare Near methodDecl methodDecl := by
  refine (still_agrees position_still position_still).bind fun _ _ _ =>
    modifiers_agrees.bindEq fun modifiers => header_agrees.bindEq fun header => ?_
  refine (spanFrom_agrees _ _).bind fun _ _ _ => (passing_agrees _ _).bind fun _ _ _ =>
    lineEnd_agrees.bind fun _ _ _ => ?_
  refine body_agrees.bind fun body body' h => pure_agrees ?_
  obtain ⟨hlocals, hstmts⟩ := Prod.mk.inj h
  simp only [MethodDecl.bare, hlocals, hstmts]

/-- A part of a class that starts with a word is told by the token after it. -/
theorem classItem_agrees : Agrees n₁ n₂ Abreast bareClassPart Near classItem classItem := by
  have hmethod : Agrees n₁ n₂ Abreast bareClassPart Near
      (methodDecl >>= fun m => pure ([], [], [m])) (methodDecl >>= fun m => pure ([], [], [m])) :=
    methodDecl_agrees.bind fun _ _ h => pure_agrees (congrArg (fun m => ([], [], [m])) h)
  have hmember : Agrees n₁ n₂ Abreast bareClassPart Near
      (member >>= fun m => pure ([m], [], [])) (member >>= fun m => pure ([m], [], [])) :=
    member_agrees.bind fun _ _ h => pure_agrees (congrArg (fun m => ([m], [], [])) h)
  refine .nextIs fun b => ?_
  cases b with
  | true =>
    exact constructorDecl_agrees.bind fun _ _ h => pure_agrees (congrArg (fun c => ([], [c], [])) h)
  | false =>
  refine .nextIs fun b => ?_
  cases b with
  | true => exact hmethod
  | false =>
  intro s₁ s₂ hs₁ hs₂ h
  refine .nextIs (h.peekIs_zero _) fun b hword => ?_
  cases b with
  | false => exact complain_agrees _ s₁ s₂ hs₁ hs₂ h
  | true =>
  obtain ⟨t, k, hr, ht⟩ := (AtWord.of_peekIs h hword).word
  have hplain : ∀ u ∈ [t], u.kind ∉ lineStarters := by simp [ht, lineStarters]
  have hpeek := h.peekIs [t] hr hplain
  refine .nextIs (hpeek _) fun b _ => ?_
  cases b with
  | true => exact hmethod s₁ s₂ hs₁ hs₂ h
  | false =>
  refine .nextIs (hpeek _) fun b _ => ?_
  cases b with
  | true => exact hmember s₁ s₂ hs₁ hs₂ h
  | false => exact Agrees.expect (by decide) (fun _ _ _ => complain_agrees _) s₁ s₂ hs₁ hs₂ h

theorem implemented_agrees : Agrees n₁ n₂ Abreast id Abreast implemented implemented :=
  .accept (by decide) names_agrees (pure_agrees rfl)

theorem classDecl_agrees : Agrees n₁ n₂ Abreast ClassDecl.bare Near classDecl classDecl := by
  refine .expect (by decide) fun _ _ _ => .expect (by decide) fun name name' hname =>
    implemented_agrees.bindEq fun interfaces => (spanFrom_agrees _ _).bind fun _ _ _ => ?_
  refine (passing_agrees _ _).bind fun _ _ _ => lineEnd_agrees.bind fun _ _ _ => ?_
  refine (block_agrees classItem_sound classItem_sound classItem_starts classItem_agrees).bind
    fun items items' h => pure_agrees ?_
  have hmembers := flatMap_bare bareClassPart (·.1) Member.bare (fun _ => rfl) h
  have hconstructors := flatMap_bare bareClassPart (·.2.1) ConstructorDecl.bare (fun _ => rfl) h
  have hmethods := flatMap_bare bareClassPart (·.2.2) MethodDecl.bare (fun _ => rfl) h
  simp only [ClassDecl.bare, Token.text_of_face hname, hmembers, hconstructors, hmethods]

/-! ### Programs -/

theorem programItem_agrees : Agrees n₁ n₂ Abreast Program.bare Near programItem programItem := by
  refine .nextIs fun b => ?_
  split
  · exact interfaceDecl_agrees.bind fun _ _ h => pure_agrees (congrArg (fun d => Program.mk [d] []) h)
  refine .nextIs fun b => ?_
  split
  · exact classDecl_agrees.bind fun _ _ h => pure_agrees (congrArg (fun d => Program.mk [] [d]) h)
  · exact complain_agrees _

theorem programItems_idle : Idle programItems := by
  intro s hr
  have hdone : s.cursor.done = true := by simp [Cursor.done, hr]
  rw [programItems, programItems, bind_of_ok (cursor_run s), hdone]
  rfl

theorem programItems_agrees : Agrees n₁ n₂ Abreast (List.map Program.bare) Abreast
    (withBound programItems) (withBound programItems) := by
  refine .loop programItems_idle programItems_idle fun b₁ b₂ m₁ m₂ _ _ ih => ?_
  intro s₁ s₂ hs₁ hs₂ h
  have hdone : s₁.cursor.done = s₂.cursor.done := by
    rcases h.next with ⟨h₁, h₂⟩ | ⟨t, u, k₁, k₂, h₁, h₂, -⟩
    · simp only [Cursor.done, h₁, h₂]
    · simp only [Cursor.done, h₁, h₂, List.isEmpty_cons]
  refine .of_ok (cursor_run s₁) (cursor_run s₂) ?_
  rw [← hdone]
  cases s₁.cursor.done with
  | true => exact pure_agrees rfl s₁ s₂ hs₁ hs₂ h
  | false =>
    refine programItem_agrees.bind_of_starts programItem_sound programItem_starts
      (fun _ _ hab => ?_)
      s₁ s₂ hs₁ hs₂ h
    exact skipNewlines_agrees_of_near.bind fun _ _ _ => ih.bind fun _ _ has =>
      pure_agrees (map_cons_of_map hab has)

theorem program_agrees : Agrees n₁ n₂ Abreast Program.bare Abreast program program := by
  have hskip : Agrees n₁ n₂ Abreast id Abreast skipNewlines skipNewlines :=
    fun s₁ s₂ hs₁ hs₂ h => skipNewlines_agrees s₁ s₂ hs₁ hs₂ h.near.apart
  refine hskip.bind fun _ _ _ => programItems_agrees.bind fun items items' h => pure_agrees ?_
  have hinterfaces := flatMap_bare Program.bare Program.interfaces InterfaceDecl.bare (fun _ => rfl) h
  have hclasses := flatMap_bare Program.bare Program.classes ClassDecl.bare (fun _ => rfl) h
  simp only [Program.bare, hinterfaces, hclasses]

end Parser

/-- What came of reading two token sequences is the same but for spans. -/
inductive SameOutcome : Except ParseError Program → Except ParseError Program → Prop
  | ok {p q} : p.bare = q.bare → SameOutcome (.ok p) (.ok q)
  | error {e e'} : e.cause = e'.cause → SameOutcome (.error e) (.error e')

/-- Padding makes no difference: with it the tokens are the same program but for spans, or they are
rejected for the same cause. -/
theorem parse_of_padded {ts us : List Token} (h : Grammar.Padded ts us) :
    SameOutcome (parse ts) (parse us) := by
  have hunder : ∀ ts : List Token, (Reading.ofTokens ts).Under (ts.length + 1) :=
    fun ts => ⟨Parser.bounded_ofTokens ts, Nat.lt_succ_self _⟩
  have hsame := Parser.program_agrees _ _ (hunder ts) (hunder us) h
  generalize hts : Parser.program (.ofTokens ts) = r₁ at hsame
  generalize hus : Parser.program (.ofTokens us) = r₂ at hsame
  simp only [parse, Parsed.ofTokens, EStateM.run, hts, hus]
  cases hsame with
  | ok hbare => exact .ok hbare
  | error hcause => exact .error hcause

end Offside
