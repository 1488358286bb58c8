import Offside.Proofs.Grammar.Expression

/-! The reader of statements reads the grammar of statements.

Which statement a line is shows in its first four tokens; that the reader looks at no more of them is
enough because an expression never starts like an equation and a call always starts like a call.
After a statement neither `else` nor an indentation may follow, since these would still belong to
it. -/
namespace Offside.Parser

open Reading Grammar

/-- The kinds that would go on with a statement after its line has ended. -/
def statementTails : List Kind := [.indent, .elseWord]

/-- The kinds that a statement can start with. -/
def statementStarts : List Kind := [.ifWord, .loopWord, .word]

/-! ### Names -/

def name : Parser String := do return (← expect .word).text

theorem name_sound : Sound name Name := by
  intro s a s' _ h
  simp only [name, bind_eq_ok] at h
  obtain ⟨t, s₁, h₁, h⟩ := h
  cases h
  obtain ⟨ht, hm⟩ := expect_sound h₁
  exact ⟨[t], hm, .mk ht⟩

theorem name_complete (n : Nat) : Complete n [] name Name := by
  intro s ts k a _ hr _ _ h
  obtain ⟨ht⟩ := h
  obtain ⟨s', h, hm⟩ := expect_of_next hr ht
  refine ⟨s', ?_, hm⟩
  rw [name, bind_of_ok h]
  rfl

/-- A list of names is one word, or a word and a comma and more. -/
theorem names_second {ts : List Token} {names : List String} (h : Separated .comma Name ts names) :
    (∃ t, ts = [t] ∧ t.kind = .word ∧ names = [t.text]) ∨
      ∃ t u us, ts = t :: u :: us ∧ t.kind = .word ∧ u.kind = .comma ∧ 2 ≤ names.length := by
  cases h with
  | one hl =>
    obtain ⟨ht⟩ := hl
    exact .inl ⟨_, rfl, ht, rfl⟩
  | more hl hu hrest =>
    obtain ⟨ht⟩ := hl
    refine .inr ⟨_, _, _, rfl, ht, hu, ?_⟩
    cases hrest <;> simp

/-! ### Lines -/

/-- Line ends before something else are taken and no more. -/
theorem lineEnd_exact {s : Reading} {ns k : List Token} (hb : s.Bounded)
    (hr : s.cursor.rest = ns ++ k) (hn : LineEnd ns) (hk : NotNext [.newline] k) :
    ∃ s', lineEnd s = .ok () s' ∧ Moved s ns s' := by
  obtain ⟨ms, s', h, hm, _, hr'⟩ := lineEnd_run hb hr hn
  rw [skip_of_notNext hk] at hr'
  have hms : ms = [] := by
    have hrest := hm.rest
    rw [hr, hr', List.append_assoc] at hrest
    simpa using List.append_cancel_left hrest
  rw [hms, List.append_nil] at hm
  exact ⟨s', h, hm⟩

/-- The span of a phrase that was just taken. -/
theorem spanFrom_of_moved {s s' : Reading} {t : Token} {ts k : List Token} (hm : Moved s ts s')
    (hne : ts ≠ []) (hr : s.cursor.rest = t :: k) :
    spanFrom t.span.start s' = .ok (spanOf ts) s' := by
  cases ts with
  | nil => exact absurd rfl hne
  | cons u us =>
    have hu : t = u := by
      have hrest := hm.rest
      rw [hr] at hrest
      exact (List.cons.inj hrest).1
    subst hu
    exact spanFrom_run hm

theorem peekIs_one {s : Reading} {t u : Token} {k : List Token} (hr : s.cursor.rest = t :: u :: k)
    (kinds : List Kind) : s.cursor.peekIs 1 kinds = decide (u.kind ∈ kinds) := by
  simp [Cursor.peekIs, Cursor.peek?, hr]

theorem peekIs_zero {s : Reading} {t : Token} {k : List Token} (hr : s.cursor.rest = t :: k)
    (kinds : List Kind) : s.cursor.peekIs 0 kinds = decide (t.kind ∈ kinds) := by
  simp [Cursor.peekIs, Cursor.peek?, hr]

theorem peekIs_zero_of_notNext {s : Reading} {kinds : List Kind} (h : NotNext kinds s.cursor.rest) :
    s.cursor.peekIs 0 kinds = false := by
  cases hr : s.cursor.rest with
  | nil => simp [Cursor.peekIs, Cursor.peek?, hr]
  | cons t k =>
    rw [hr, notNext_cons] at h
    simpa [peekIs_zero hr] using h

/-- How the tokens after an equals sign tell a call from a value. -/
theorem peek_startsCall {s : Reading} {t u : Token} {us k : List Token}
    (hr : s.cursor.rest = t :: u :: (us ++ k)) (hk : NotNext [.leftParen] k) (hne : us ≠ []) :
    (s.cursor.peekIs 2 [.word] && s.cursor.peekIs 3 [.leftParen]) = true ↔ StartsCall us := by
  match us, hne with
  | [a], _ =>
    cases k with
    | nil => simp [Cursor.peekIs, Cursor.peek?, hr, StartsCall]
    | cons b k =>
      have hb : b.kind ≠ .leftParen := by simpa using hk
      simp [Cursor.peekIs, Cursor.peek?, hr, StartsCall, hb]
  | a :: b :: _, _ => simp [Cursor.peekIs, Cursor.peek?, hr, StartsCall]

/-! ### Statements of one line -/

theorem receivingCall_sound {s s' : Reading} {t : Token} {k : List Token} {stmt : Stmt}
    (hb : s.Bounded) (hr : s.cursor.rest = t :: k)
    (h : receivingCall t.span.start s = .ok stmt s') :
    ∃ ts names eq us c, Moved s (ts ++ eq :: us) s' ∧ Separated .comma Name ts names ∧
      eq.kind = .assign ∧ Invocation us c ∧ stmt = .call c names (spanOf (ts ++ eq :: us)) := by
  simp only [receivingCall, bind_eq_ok] at h
  obtain ⟨names, s₁, h₁, eq, s₂, h₂, c, s₃, h₃, span, s₄, h₄, h⟩ := h
  obtain ⟨ts, hm₁, hnames⟩ := separated_sound name_sound s names s₁ hb h₁
  obtain ⟨heq, hm₂⟩ := expect_sound h₂
  obtain ⟨us, hm₃, hc⟩ := callExpression_sound s₂ c s₃ (hm₂.bounded (hm₁.bounded hb)) h₃
  have hm := hm₁.trans (hm₂.cons hm₃)
  rw [spanFrom_of_moved hm (by simp) hr] at h₄
  cases h₄
  cases h
  exact ⟨ts, names, eq, us, c, hm, hnames, heq, hc, rfl⟩

theorem receivingCall_complete {s : Reading} {t eq : Token} {ts us k k' : List Token}
    {names : List String} {c : Call} (hb : s.Bounded) (hr : s.cursor.rest = ts ++ eq :: us ++ k)
    (ht : s.cursor.rest = t :: k') (hnames : Separated .comma Name ts names)
    (heq : eq.kind = .assign) (hc : Invocation us c) :
    ∃ s', receivingCall t.span.start s = .ok (.call c names (spanOf (ts ++ eq :: us))) s' ∧
      Moved s (ts ++ eq :: us) s' := by
  rw [List.append_assoc, List.cons_append] at hr
  obtain ⟨s₁, h₁, hm₁⟩ := separated_complete (name_complete ts.length) (by simp) s ts _ names hb hr
    (Nat.le_refl _) (by simp [heq]) hnames
  have hr₁ := hm₁.rest_eq hr
  obtain ⟨s₂, h₂, hm₂⟩ := expect_of_next hr₁ heq
  obtain ⟨s₃, h₃, hm₃⟩ := callExpression_complete us.length s₂ us k c
    (hm₂.bounded (hm₁.bounded hb)) (hm₂.rest_of_next hr₁) (Nat.le_refl _) (by simp [NotNext]) hc
  have hm := hm₁.trans (hm₂.cons hm₃)
  refine ⟨s₃, ?_, hm⟩
  unfold name at h₁
  rw [receivingCall, bind_of_ok h₁, bind_of_ok h₂, bind_of_ok h₃,
    bind_of_ok (spanFrom_of_moved hm (by simp) ht)]
  rfl

theorem assignment_sound {s s' : Reading} {t : Token} {k : List Token} {stmt : Stmt}
    (hb : s.Bounded) (hr : s.cursor.rest = t :: k)
    (h : assignment t.span.start s = .ok stmt s') :
    ∃ eq us e, Moved s (t :: eq :: us) s' ∧ t.kind = .word ∧ eq.kind = .assign ∧ Expression us e ∧
      stmt = .assign t.text e (spanOf (t :: eq :: us)) := by
  simp only [assignment, bind_eq_ok] at h
  obtain ⟨target, s₁, h₁, eq, s₂, h₂, e, s₃, h₃, span, s₄, h₄, h⟩ := h
  obtain ⟨rfl, ht, hm₁⟩ := expect_next hr h₁
  obtain ⟨heq, hm₂⟩ := expect_sound h₂
  obtain ⟨us, hm₃, he⟩ := expression_sound s₂ e s₃ (hm₂.bounded (hm₁.bounded hb)) h₃
  have hm := hm₁.cons (hm₂.cons hm₃)
  rw [spanFrom_run hm] at h₄
  cases h₄
  cases h
  exact ⟨eq, us, e, hm, ht, heq, he, rfl⟩

theorem assignment_complete {s : Reading} {t eq : Token} {us k : List Token} {e : Expr}
    (hb : s.Bounded) (hr : s.cursor.rest = t :: eq :: (us ++ k)) (ht : t.kind = .word)
    (heq : eq.kind = .assign) (he : Expression us e) (hk : NotNext expressionTails k) :
    ∃ s', assignment t.span.start s = .ok (.assign t.text e (spanOf (t :: eq :: us))) s' ∧
      Moved s (t :: eq :: us) s' := by
  obtain ⟨s₁, h₁, hm₁⟩ := expect_of_next hr ht
  have hr₁ := hm₁.rest_of_next hr
  obtain ⟨s₂, h₂, hm₂⟩ := expect_of_next hr₁ heq
  obtain ⟨s₃, h₃, hm₃⟩ := expression_complete us.length s₂ us k e (hm₂.bounded (hm₁.bounded hb))
    (hm₂.rest_of_next hr₁) (Nat.le_refl _) hk he
  have hm := hm₁.cons (hm₂.cons hm₃)
  refine ⟨s₃, ?_, hm⟩
  rw [assignment, bind_of_ok h₁, bind_of_ok h₂, bind_of_ok h₃, bind_of_ok (spanFrom_run hm)]
  rfl

theorem simpleStatement_sound {s s' : Reading} {t : Token} {k : List Token} {stmt : Stmt}
    (hb : s.Bounded) (hr : s.cursor.rest = t :: k) (h : simpleStatement s = .ok stmt s') :
    ∃ ts, Moved s ts s' ∧ Simple ts stmt := by
  rw [simpleStatement, bind_of_ok (position_run hr), bind_of_ok (nextIs_run ..)] at h
  split at h
  · simp only [bind_eq_ok] at h
    obtain ⟨c, s₁, h₁, span, s₂, h₂, h⟩ := h
    obtain ⟨ts, hm, hc⟩ := callExpression_sound s c s₁ hb h₁
    rw [spanFrom_of_moved hm (invocation_starts.ne_nil hc) hr] at h₂
    cases h₂
    cases h
    exact ⟨ts, hm, .call hc⟩
  rw [bind_of_ok (nextIs_run ..)] at h
  split at h
  · next hcomma =>
    obtain ⟨ts, names, eq, us, c, hm, hnames, heq, hc, rfl⟩ := receivingCall_sound hb hr h
    rcases names_second hnames with ⟨u, rfl, _, _⟩ | ⟨_, _, _, _, _, _, hlen⟩
    · rw [peekIs_one hm.rest] at hcomma
      simp [heq] at hcomma
    · exact ⟨_, hm, .receiveMany hnames hlen heq hc⟩
  rw [bind_of_ok (nextIs_run ..)] at h
  split at h
  · next hassign =>
    rw [bind_of_ok (nextIs_run ..), bind_of_ok (nextIs_run ..)] at h
    split at h
    · next hcall =>
      obtain ⟨ts, names, eq, us, c, hm, hnames, heq, hc, rfl⟩ := receivingCall_sound hb hr h
      rcases names_second hnames with ⟨u, rfl, hu, rfl⟩ | ⟨a, b, zs, rfl, _, hcomma, _⟩
      · obtain ⟨a, b, zs, rfl, _, _⟩ := invocation_second hc
        have hstart : StartsCall (a :: b :: zs) := by
          have hrest := hm.rest
          simpa [Cursor.peekIs, Cursor.peek?, hrest, StartsCall] using hcall
        exact ⟨_, hm, .receiveOne hu heq hc hstart⟩
      · rw [peekIs_one hm.rest] at hassign
        simp [hcomma] at hassign
    · next hcall =>
      obtain ⟨eq, us, e, hm, ht, heq, he, rfl⟩ := assignment_sound hb hr h
      refine ⟨_, hm, .assign ht heq he ?_⟩
      intro hstart
      apply hcall
      have hrest := hm.rest
      cases us with
      | nil => exact hstart.elim
      | cons a us =>
        cases us with
        | nil => exact hstart.elim
        | cons b zs => simpa [Cursor.peekIs, Cursor.peek?, hrest, StartsCall] using hstart
  · simp only [bind_eq_ok] at h
    obtain ⟨_, _, _, h⟩ := h
    exact absurd h (complain_run_ne_ok _ _ _ _)

theorem simpleStatement_complete (n : Nat) : Complete n expressionTails simpleStatement Simple := by
  intro s ts k stmt hb hr hlen hk h
  have hparen : NotNext [.leftParen] k := hk.mono (by decide)
  cases h with
  | @call ts c hc =>
    obtain ⟨s₁, h₁, hm₁⟩ := callExpression_complete n s ts k c hb hr hlen (by simp [NotNext]) hc
    obtain ⟨t, u, us, rfl, _, hu⟩ := invocation_second hc
    have hsecond : s.cursor.peekIs 1 [.dot, .leftParen] = true := by
      rw [peekIs_one hr]
      simpa using hu
    refine ⟨s₁, ?_, hm₁⟩
    rw [simpleStatement, bind_of_ok (position_run hr), bind_of_ok (nextIs_run ..), if_pos hsecond,
      bind_of_ok h₁, bind_of_ok (spanFrom_run hm₁)]
    rfl
  | @receiveMany ts names eq us c hnames hlen heq hc =>
    rcases names_second hnames with ⟨u, rfl, _, rfl⟩ | ⟨t, u, vs, rfl, _, hu, _⟩
    · simp at hlen
    · obtain ⟨s₁, h₁, hm₁⟩ := receivingCall_complete hb hr (by rw [hr]; rfl) hnames heq hc
      refine ⟨s₁, ?_, hm₁⟩
      rw [simpleStatement, bind_of_ok (position_run hr), bind_of_ok (nextIs_run ..),
        if_neg (by simp [peekIs_one hr, hu]), bind_of_ok (nextIs_run ..),
        if_pos (by simp [peekIs_one hr, hu])]
      exact h₁
  | @receiveOne target eq us c htarget heq hc hstart =>
    have hnames : Separated .comma Name [target] [target.text] := .one (.mk htarget)
    obtain ⟨s₁, h₁, hm₁⟩ := receivingCall_complete hb hr hr hnames heq hc
    refine ⟨s₁, ?_, hm₁⟩
    have hcall := (peek_startsCall hr hparen (invocation_starts.ne_nil hc)).mpr hstart
    rw [simpleStatement, bind_of_ok (position_run hr), bind_of_ok (nextIs_run ..),
      if_neg (by simp [peekIs_one hr, heq]), bind_of_ok (nextIs_run ..),
      if_neg (by simp [peekIs_one hr, heq]), bind_of_ok (nextIs_run ..),
      if_pos (by simp [peekIs_one hr, heq]), bind_of_ok (nextIs_run ..),
      bind_of_ok (nextIs_run ..), if_pos hcall]
    exact h₁
  | @assign target eq us e htarget heq he hstart =>
    obtain ⟨s₁, h₁, hm₁⟩ := assignment_complete hb hr htarget heq he hk
    refine ⟨s₁, ?_, hm₁⟩
    have hcall := mt (peek_startsCall hr hparen (expression_starts.ne_nil he)).mp hstart
    rw [simpleStatement, bind_of_ok (position_run hr), bind_of_ok (nextIs_run ..),
      if_neg (by simp [peekIs_one hr, heq]), bind_of_ok (nextIs_run ..),
      if_neg (by simp [peekIs_one hr, heq]), bind_of_ok (nextIs_run ..),
      if_pos (by simp [peekIs_one hr, heq]), bind_of_ok (nextIs_run ..),
      bind_of_ok (nextIs_run ..), if_neg hcall]
    exact h₁

theorem simple_starts : Starts [.word] Simple := by
  intro ts stmt h
  cases h with
  | call hc => exact invocation_starts _ _ hc
  | receiveMany hnames _ _ _ =>
    rcases names_second hnames with ⟨t, rfl, ht, _⟩ | ⟨t, u, us, rfl, ht, _, _⟩
    · exact ⟨t, _, rfl, by simp [ht]⟩
    · exact ⟨t, _, rfl, by simp [ht]⟩
  | receiveOne ht _ _ _ | assign ht _ _ _ => exact ⟨_, _, rfl, by simp [ht]⟩

/-- The second token of a statement of one line is not a word. -/
theorem simple_second {ts : List Token} {stmt : Stmt} (h : Simple ts stmt) :
    ∃ t u us, ts = t :: u :: us ∧ u.kind ≠ .word := by
  cases h with
  | call hc =>
    obtain ⟨t, u, us, rfl, _, hu⟩ := invocation_second hc
    exact ⟨t, u, us, rfl, by rcases hu with hu | hu <;> simp [hu]⟩
  | receiveMany hnames _ heq _ =>
    rcases names_second hnames with ⟨t, rfl, _, _⟩ | ⟨t, u, us, rfl, _, hu, _⟩
    · exact ⟨t, _, _, rfl, by simp [heq]⟩
    · exact ⟨t, u, _, rfl, by simp [hu]⟩
  | receiveOne _ heq _ _ | assign _ heq _ _ => exact ⟨_, _, _, rfl, by simp [heq]⟩

theorem line_starts {α : Type} {kinds : List Kind} {L : Language α} (h : Starts kinds L) :
    Starts kinds (Line L) := by
  rintro _ a ⟨hl, _⟩
  obtain ⟨t, us, rfl, ht⟩ := h _ a hl
  exact ⟨t, _, rfl, ht⟩

theorem statement_starts : Starts statementStarts Statement := by
  intro ts stmt h
  cases h with
  | simple h =>
    obtain ⟨t, us, rfl, ht⟩ := line_starts simple_starts _ _ h
    exact ⟨t, us, rfl, by simp_all [statementStarts]⟩
  | branch ht _ _ _ | branchElse ht _ _ _ _ _ _ | loop ht _ _ _ _ =>
    exact ⟨_, _, rfl, by simp [ht, statementStarts]⟩

theorem block_notNext {α : Type} {L : Language α} {ts : List Token} {as : List α} (h : Block L ts as)
    {kinds : List Kind} (hkinds : Kind.indent ∉ kinds) (k : List Token) : NotNext kinds (ts ++ k) := by
  obtain ⟨ho, _, _, _⟩ := h
  rw [List.cons_append, notNext_cons, ho]
  exact hkinds

/-! ### Branches -/

section Nested
variable {nested : Parser Stmt} {n : Nat}

/-- What follows the first block of a branch. -/
def elsePart (nested : Parser Stmt) (e : Expr) (yes : List Stmt) (span : Span) : Parser Stmt := do
  if ← accept .elseWord then
    lineEnd
    return .branch e yes (some (← block nested)) span
  else return .branch e yes none span

theorem branch_sound (hnested : Sound nested Statement) : Sound (branch nested) Statement := by
  intro s stmt s' hb h
  simp only [branch, bind_eq_ok] at h
  obtain ⟨first, s₁, h₁, e, s₂, h₂, span, s₃, h₃, _, s₄, h₄, yes, s₅, h₅, b, s₆, h₆, h⟩ := h
  obtain ⟨hfirst, hm₁⟩ := expect_sound h₁
  have hb₁ := hm₁.bounded hb
  obtain ⟨ts, hm₂, he⟩ := expression_sound s₁ e s₂ hb₁ h₂
  rw [spanFrom_run (hm₁.cons hm₂)] at h₃
  cases h₃
  have hb₂ := hm₂.bounded hb₁
  obtain ⟨ns, hm₄, hn⟩ := lineEnd_sound hb₂ h₄
  have hb₄ := hm₄.bounded hb₂
  obtain ⟨us, hm₅, hus⟩ := block_sound hnested statement_starts s₄ yes s₅ hb₄ h₅
  have hb₅ := hm₅.bounded hb₄
  have hm := hm₁.cons ((hm₂.trans hm₄).trans hm₅)
  rcases accept_cases h₆ with ⟨rfl, other, hother, hm₆⟩ | ⟨rfl, rfl, _⟩
  · simp only [if_true, bind_eq_ok] at h
    obtain ⟨_, s₇, h₇, no, s₈, h₈, h⟩ := h
    cases h
    have hb₆ := hm₆.bounded hb₅
    obtain ⟨ms, hm₇, hms⟩ := lineEnd_sound hb₆ h₇
    obtain ⟨vs, hm₈, hvs⟩ := block_sound hnested statement_starts s₇ no _ (hm₇.bounded hb₆) h₈
    exact ⟨_, hm.trans (hm₆.cons (hm₇.trans hm₈)), .branchElse hfirst he hn hus hother hms hvs⟩
  · cases h
    exact ⟨_, hm, .branch hfirst he hn hus⟩

variable (hnested : CompleteLine n statementTails nested Statement)
include hnested

theorem nestedBlock_complete : Complete n [] (block nested) (Block Statement) :=
  block_complete hnested statement_starts (by decide) (by decide)

/-- Everything up to the end of the first block. -/
theorem branch_reaches {s : Reading} {first : Token} {ts ns us k : List Token} {e : Expr}
    {yes : List Stmt} (hb : s.Bounded) (hr : s.cursor.rest = first :: (ts ++ (ns ++ (us ++ k))))
    (hfirst : first.kind = .ifWord) (he : Expression ts e) (hn : LineEnd ns)
    (hus : Block Statement us yes) (hlen : us.length ≤ n) :
    ∃ s', branch nested s = elsePart nested e yes (spanOf (first :: ts)) s' ∧
      Moved s (first :: (ts ++ ns ++ us)) s' := by
  obtain ⟨s₁, h₁, hm₁⟩ := expect_of_next hr hfirst
  have hb₁ := hm₁.bounded hb
  have hr₁ := hm₁.rest_of_next hr
  obtain ⟨s₂, h₂, hm₂⟩ := expression_complete ts.length s₁ ts _ e hb₁ hr₁ (Nat.le_refl _)
    (hn.notNext (by decide) _) he
  have hb₂ := hm₂.bounded hb₁
  have hr₂ := hm₂.rest_eq hr₁
  obtain ⟨s₃, h₃, hm₃⟩ := lineEnd_exact hb₂ hr₂ hn (block_notNext hus (by decide) k)
  have hr₃ := hm₃.rest_eq hr₂
  obtain ⟨s₄, h₄, hm₄⟩ := nestedBlock_complete hnested s₃ us k yes (hm₃.bounded hb₂) hr₃ hlen
    (by simp [NotNext]) hus
  refine ⟨s₄, ?_, hm₁.cons ((hm₂.trans hm₃).trans hm₄)⟩
  rw [branch, bind_of_ok h₁, bind_of_ok h₂, bind_of_ok (spanFrom_run (hm₁.cons hm₂)),
    bind_of_ok h₃, bind_of_ok h₄]
  rfl

theorem branch_complete {s : Reading} {first : Token} {ts ns us k : List Token} {e : Expr}
    {yes : List Stmt} (hb : s.Bounded) (hr : s.cursor.rest = first :: (ts ++ (ns ++ (us ++ k))))
    (hfirst : first.kind = .ifWord) (he : Expression ts e) (hn : LineEnd ns)
    (hus : Block Statement us yes) (hlen : us.length ≤ n) (hk : NotNext [.elseWord] k) :
    ∃ s', branch nested s = .ok (.branch e yes none (spanOf (first :: ts))) s' ∧
      Moved s (first :: (ts ++ ns ++ us)) s' := by
  obtain ⟨s₁, h₁, hm₁⟩ := branch_reaches hnested hb hr hfirst he hn hus hlen
  have hr₁ : s₁.cursor.rest = k := hm₁.rest_eq (by simpa using hr)
  refine ⟨s₁, ?_, hm₁⟩
  rw [h₁, elsePart, bind_of_ok (accept_of_notNext (by rwa [hr₁]))]
  rfl

theorem branchElse_complete {s : Reading} {first other : Token} {ts ns us ms vs k : List Token}
    {e : Expr} {yes no : List Stmt} (hb : s.Bounded)
    (hr : s.cursor.rest = first :: (ts ++ (ns ++ (us ++ other :: (ms ++ (vs ++ k))))))
    (hfirst : first.kind = .ifWord) (he : Expression ts e) (hn : LineEnd ns)
    (hus : Block Statement us yes) (hother : other.kind = .elseWord) (hm : LineEnd ms)
    (hvs : Block Statement vs no) (hlen : us.length + vs.length ≤ n) :
    ∃ s', branch nested s = .ok (.branch e yes (some no) (spanOf (first :: ts))) s' ∧
      Moved s (first :: (ts ++ ns ++ us ++ other :: (ms ++ vs))) s' := by
  obtain ⟨s₁, h₁, hm₁⟩ := branch_reaches hnested hb hr hfirst he hn hus (by omega)
  have hb₁ := hm₁.bounded hb
  have hr₁ : s₁.cursor.rest = other :: (ms ++ (vs ++ k)) := hm₁.rest_eq (by simpa using hr)
  obtain ⟨s₂, h₂, hm₂⟩ := accept_of_next hr₁ hother
  have hb₂ := hm₂.bounded hb₁
  have hr₂ := hm₂.rest_of_next hr₁
  obtain ⟨s₃, h₃, hm₃⟩ := lineEnd_exact hb₂ hr₂ hm (block_notNext hvs (by decide) k)
  obtain ⟨s₄, h₄, hm₄⟩ := nestedBlock_complete hnested s₃ vs k no (hm₃.bounded hb₂)
    (hm₃.rest_eq hr₂) (by omega) (by simp [NotNext]) hvs
  refine ⟨s₄, ?_, hm₁.trans (hm₂.cons (hm₃.trans hm₄))⟩
  rw [h₁, elsePart, bind_of_ok h₂]
  simp only [if_true]
  rw [bind_of_ok h₃, bind_of_ok h₄]
  rfl

omit hnested

/-! ### Loops -/

theorem loopTarget_sound {s s' : Reading} {target : Option String}
    (h : loopTarget s = .ok target s') : ∃ ts, Moved s ts s' ∧ Target ts target := by
  rw [loopTarget, bind_of_ok (nextIs_run ..), bind_of_ok (nextIs_run ..)] at h
  split at h
  · simp only [bind_eq_ok] at h
    obtain ⟨name, s₁, h₁, eq, s₂, h₂, h⟩ := h
    obtain ⟨hname, hm₁⟩ := expect_sound h₁
    obtain ⟨heq, hm₂⟩ := expect_sound h₂
    cases h
    exact ⟨_, hm₁.cons hm₂, .present hname heq⟩
  · cases h
    exact ⟨[], Moved.refl _, .absent⟩

/-- Without a variable the source is not taken for one. -/
theorem loopTarget_complete {s : Reading} {ws ts k : List Token} {target : Option String} {e : Expr}
    (hr : s.cursor.rest = ws ++ (ts ++ k)) (htarget : Target ws target) (he : Expression ts e)
    (hk : NotNext [.assign] k) : ∃ s', loopTarget s = .ok target s' ∧ Moved s ws s' := by
  cases htarget with
  | absent =>
    refine ⟨s, ?_, Moved.refl s⟩
    rw [loopTarget, bind_of_ok (nextIs_run ..), bind_of_ok (nextIs_run ..), if_neg ?_]
    · rfl
    · intro hequation
      match ts, expression_starts.ne_nil he with
      | [t], _ =>
        cases k with
        | nil => simp [Cursor.peekIs, Cursor.peek?, hr] at hequation
        | cons u k =>
          simp only [notNext_cons, List.mem_singleton] at hk
          simp [Cursor.peekIs, Cursor.peek?, hr, hk] at hequation
      | t :: u :: us, _ =>
        have hnot := expression_notEquation he t u us rfl
        simp [Cursor.peekIs, Cursor.peek?, hr] at hequation
        exact hnot hequation.1 hequation.2
  | present hname heq =>
    obtain ⟨s₁, h₁, hm₁⟩ := expect_of_next hr hname
    have hr₁ := hm₁.rest_of_next hr
    obtain ⟨s₂, h₂, hm₂⟩ := expect_of_next hr₁ heq
    refine ⟨s₂, ?_, hm₁.cons hm₂⟩
    have hequation : (s.cursor.peekIs 0 [.word] && s.cursor.peekIs 1 [.assign]) = true := by
      simp [Cursor.peekIs, Cursor.peek?, hr, hname, heq]
    rw [loopTarget, bind_of_ok (nextIs_run ..), bind_of_ok (nextIs_run ..), if_pos hequation,
      bind_of_ok h₁, bind_of_ok h₂]
    rfl

theorem loop_sound (hnested : Sound nested Statement) : Sound (loop nested) Statement := by
  intro s stmt s' hb h
  simp only [loop, bind_eq_ok] at h
  obtain ⟨first, s₁, h₁, target, s₂, h₂, e, s₃, h₃, span, s₄, h₄, _, s₅, h₅, b, s₆, h₆, h⟩ := h
  obtain ⟨hfirst, hm₁⟩ := expect_sound h₁
  have hb₁ := hm₁.bounded hb
  obtain ⟨ws, hm₂, htarget⟩ := loopTarget_sound h₂
  have hb₂ := hm₂.bounded hb₁
  obtain ⟨ts, hm₃, he⟩ := expression_sound s₂ e s₃ hb₂ h₃
  rw [spanFrom_run (hm₁.cons (hm₂.trans hm₃))] at h₄
  cases h₄
  have hb₃ := hm₃.bounded hb₂
  obtain ⟨ns, hm₅, hn⟩ := lineEnd_sound hb₃ h₅
  have hm := hm₁.cons ((hm₂.trans hm₃).trans hm₅)
  rw [nextIs_run] at h₆
  cases h₆
  split at h
  · simp only [bind_eq_ok] at h
    obtain ⟨body, s₇, h₇, h⟩ := h
    obtain ⟨us, hm₇, hus⟩ := block_sound hnested statement_starts _ body s₇ (hm₅.bounded hb₃) h₇
    cases h
    exact ⟨_, hm.trans hm₇, .loop hfirst htarget he hn (.present hus)⟩
  · cases h
    refine ⟨_, hm, ?_⟩
    simpa using Statement.loop hfirst htarget he hn .absent

include hnested

theorem loop_complete {s : Reading} {first : Token} {ws ts ns us k : List Token}
    {target : Option String} {e : Expr} {body : List Stmt} (hb : s.Bounded)
    (hr : s.cursor.rest = first :: (ws ++ (ts ++ (ns ++ (us ++ k)))))
    (hfirst : first.kind = .loopWord) (htarget : Target ws target) (he : Expression ts e)
    (hn : LineEnd ns) (hus : Optional (Block Statement) us body) (hlen : us.length ≤ n)
    (hk : NotNext [.indent] (skip k)) :
    ∃ ms s', loop nested s = .ok (.loop target e body (spanOf (first :: (ws ++ ts)))) s' ∧
      Moved s (first :: (ws ++ ts ++ ns ++ us) ++ ms) s' ∧ Blank ms := by
  obtain ⟨s₁, h₁, hm₁⟩ := expect_of_next hr hfirst
  have hb₁ := hm₁.bounded hb
  have hr₁ := hm₁.rest_of_next hr
  obtain ⟨s₂, h₂, hm₂⟩ := loopTarget_complete hr₁ htarget he (hn.notNext (by decide) _)
  have hb₂ := hm₂.bounded hb₁
  have hr₂ := hm₂.rest_eq hr₁
  obtain ⟨s₃, h₃, hm₃⟩ := expression_complete ts.length s₂ ts _ e hb₂ hr₂ (Nat.le_refl _)
    (hn.notNext (by decide) _) he
  have hb₃ := hm₃.bounded hb₂
  have hr₃ := hm₃.rest_eq hr₂
  have hm := hm₁.cons (hm₂.trans hm₃)
  rw [loop, bind_of_ok h₁, bind_of_ok h₂, bind_of_ok h₃, bind_of_ok (spanFrom_run hm)]
  cases hus with
  | absent =>
    obtain ⟨ms, s₄, h₄, hm₄, hms, hr₄⟩ := lineEnd_run hb₃ hr₃ hn
    refine ⟨ms, s₄, ?_, by simpa using hm.trans hm₄, hms⟩
    rw [bind_of_ok h₄, bind_of_ok (nextIs_run ..), peekIs_zero_of_notNext (by rwa [hr₄])]
    rfl
  | present hus =>
    obtain ⟨s₄, h₄, hm₄⟩ := lineEnd_exact hb₃ hr₃ hn (block_notNext hus (by decide) k)
    have hr₄ := hm₄.rest_eq hr₃
    obtain ⟨s₅, h₅, hm₅⟩ := nestedBlock_complete hnested s₄ us k body (hm₄.bounded hb₃) hr₄ hlen
      (by simp [NotNext]) hus
    refine ⟨[], s₅, ?_, by simpa using (hm.trans hm₄).trans hm₅, by simp [Blank]⟩
    have hindent : s₄.cursor.peekIs 0 [.indent] = true := by
      obtain ⟨ho, _, _, _⟩ := hus
      rw [peekIs_zero hr₄]
      simp [ho]
    rw [bind_of_ok h₄, bind_of_ok (nextIs_run ..), if_pos hindent, bind_of_ok h₅]
    rfl

end Nested

/-! ### Statements -/

theorem statementOf_sound (bound : Nat) : Sound (statementOf bound) Statement := by
  induction bound with
  | zero =>
    intro s stmt s' _ h
    exact absurd h (complain_run_ne_ok _ _ _ _)
  | succ bound ih =>
    intro s stmt s' hb h
    rw [statementOf, bind_of_ok (nextIs_run ..)] at h
    split at h
    · exact branch_sound ih s stmt s' hb h
    rw [bind_of_ok (nextIs_run ..)] at h
    split at h
    · exact loop_sound ih s stmt s' hb h
    rw [bind_of_ok (nextIs_run ..)] at h
    split at h
    · next hword =>
      cases hr : s.cursor.rest with
      | nil => simp [Cursor.peekIs, Cursor.peek?, hr] at hword
      | cons t k =>
        simp only [bind_eq_ok] at h
        obtain ⟨stmt, s₁, h₁, _, s₂, h₂, h⟩ := h
        obtain ⟨ts, hm₁, hts⟩ := simpleStatement_sound hb hr h₁
        obtain ⟨ns, hm₂, hn⟩ := lineEnd_sound (hm₁.bounded hb) h₂
        cases h
        exact ⟨_, hm₁.trans hm₂, .simple (.mk hts hn)⟩
    · exact absurd h (complain_run_ne_ok _ _ _ _)

theorem statementOf_complete (bound : Nat) :
    CompleteLine bound statementTails (statementOf bound) Statement := by
  induction bound with
  | zero =>
    intro s ts k stmt _ _ hlen _ h
    have hts : ts = [] := List.length_eq_zero_iff.mp (Nat.le_zero.mp hlen)
    exact absurd hts (statement_starts.ne_nil h)
  | succ bound ih =>
    intro s ts k stmt hb hr hlen hk h
    cases h with
    | simple h =>
      obtain ⟨t, us, rfl, ht⟩ := line_starts simple_starts _ _ h
      have hword : t.kind = .word := by simpa using ht
      obtain ⟨ms, s₁, h₁, hm₁, hms⟩ := line_complete (simpleStatement_complete (bound + 1))
        (by decide) s _ k stmt hb hr hlen (by simp [NotNext]) h
      refine ⟨ms, s₁, ?_, hm₁, hms⟩
      rw [statementOf, bind_of_ok (nextIs_run ..), if_neg (by simp [peekIs_zero hr, hword]),
        bind_of_ok (nextIs_run ..), if_neg (by simp [peekIs_zero hr, hword]),
        bind_of_ok (nextIs_run ..), if_pos (by simp [peekIs_zero hr, hword])]
      exact h₁
    | branch hfirst he hn hus =>
      simp only [List.length_cons, List.length_append] at hlen
      obtain ⟨s₁, h₁, hm₁⟩ := branch_complete ih hb (by simpa using hr) hfirst he hn hus (by omega)
        ((hk.mono (by decide)).of_skip (by decide))
      refine ⟨[], s₁, ?_, by simpa using hm₁, by simp [Blank]⟩
      rw [statementOf, bind_of_ok (nextIs_run ..), if_pos (by simp [peekIs_zero hr, hfirst]), h₁]
    | branchElse hfirst he hn hus hother hm hvs =>
      simp only [List.length_cons, List.length_append] at hlen
      obtain ⟨s₁, h₁, hm₁⟩ := branchElse_complete ih hb (by simpa using hr) hfirst he hn hus hother
        hm hvs (by omega)
      refine ⟨[], s₁, ?_, by simpa using hm₁, by simp [Blank]⟩
      rw [statementOf, bind_of_ok (nextIs_run ..), if_pos (by simp [peekIs_zero hr, hfirst]), h₁]
    | loop hfirst htarget he hn hus =>
      simp only [List.length_cons, List.length_append] at hlen
      obtain ⟨ms, s₁, h₁, hm₁, hms⟩ := loop_complete ih hb (by simpa using hr) hfirst htarget he hn
        hus (by omega) (hk.mono (by decide))
      refine ⟨ms, s₁, ?_, hm₁, hms⟩
      rw [statementOf, bind_of_ok (nextIs_run ..), if_neg (by simp [peekIs_zero hr, hfirst]),
        bind_of_ok (nextIs_run ..), if_pos (by simp [peekIs_zero hr, hfirst]), h₁]

theorem statement_sound : Sound statement Statement :=
  fun s stmt s' hb h => statementOf_sound s.count s stmt s' hb h

/-- No statement is longer than there are tokens. -/
theorem statement_complete (n : Nat) : CompleteLine n statementTails statement Statement := by
  intro s ts k stmt hb hr _ hk h
  have hlen : ts.length ≤ s.count := by
    unfold Reading.Bounded at hb
    rw [hr, List.length_append] at hb
    omega
  exact statementOf_complete s.count s ts k stmt hb hr hlen hk h

theorem statements_sound : Sound statements (Block Statement) :=
  block_sound statement_sound statement_starts

theorem statements_complete (n : Nat) : Complete n [] statements (Block Statement) :=
  nestedBlock_complete (statement_complete n)

end Offside.Parser
