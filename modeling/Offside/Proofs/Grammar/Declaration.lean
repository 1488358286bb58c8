import Offside.Proofs.Grammar.Statement

/-! The reader of declarations reads the grammar of declarations, and what is read of a whole program
is what its tokens derive. -/
namespace Offside.Parser

open Reading Grammar

/-! ### Variables and headers -/

theorem declaration_sound : Sound declaration Declaration := by
  intro s d s' _ h
  simp only [declaration, bind_eq_ok] at h
  obtain ⟨type, s₁, h₁, name, s₂, h₂, h⟩ := h
  obtain ⟨htype, hm₁⟩ := expect_sound h₁
  obtain ⟨hname, hm₂⟩ := expect_sound h₂
  cases h
  exact ⟨_, hm₁.cons hm₂, .mk htype hname⟩

theorem declaration_complete (n : Nat) : Complete n [] declaration Declaration := by
  intro s ts k d _ hr _ _ h
  obtain ⟨htype, hname⟩ := h
  obtain ⟨s₁, h₁, hm₁⟩ := expect_of_next hr htype
  obtain ⟨s₂, h₂, hm₂⟩ := expect_of_next (hm₁.rest_of_next hr) hname
  refine ⟨s₂, ?_, hm₁.cons hm₂⟩
  rw [declaration, bind_of_ok h₁, bind_of_ok h₂]
  rfl

theorem declaration_starts : Starts [.word] Declaration := by
  rintro _ _ ⟨htype, _⟩
  exact ⟨_, _, rfl, by simp [htype]⟩

theorem declarations_starts : Starts [.word] Declarations := by
  intro ts ds h
  cases h with
  | one h => exact declaration_starts _ _ h
  | more h _ _ =>
    obtain ⟨t, us, rfl, ht⟩ := declaration_starts _ _ h
    exact ⟨t, _, rfl, ht⟩

theorem declarations_sound : Sound declarations (Optional Declarations) := by
  intro s ds s' hb h
  rw [declarations, bind_of_ok (nextIs_run ..)] at h
  split at h
  · obtain ⟨ts, hm, hts⟩ := separated_sound declaration_sound s ds s' hb h
    exact ⟨ts, hm, .present hts⟩
  · cases h
    exact ⟨[], Moved.refl _, .absent⟩

theorem declarations_complete (n : Nat) :
    Complete n [.word, .comma] declarations (Optional Declarations) := by
  intro s ts k ds hb hr hlen hk h
  cases h with
  | absent =>
    refine ⟨s, ?_, Moved.refl s⟩
    have hword : NotNext [.word] s.cursor.rest := by
      rw [hr]
      exact hk.mono (by decide)
    rw [declarations, bind_of_ok (nextIs_run ..), peekIs_zero_of_notNext hword]
    rfl
  | present h =>
    obtain ⟨s₁, h₁, hm₁⟩ := separated_complete (declaration_complete n) (by simp) s ts k ds hb hr
      hlen (hk.mono (by decide)) h
    obtain ⟨t, us, rfl, ht⟩ := declarations_starts _ _ h
    refine ⟨s₁, ?_, hm₁⟩
    rw [declarations, bind_of_ok (nextIs_run ..), if_pos (by simpa [peekIs_zero hr] using ht)]
    exact h₁

theorem parameters_sound : Sound parameters Parameters := by
  intro s ds s' hb h
  simp only [parameters, bind_eq_ok] at h
  obtain ⟨opener, s₁, h₁, ds, s₂, h₂, closer, s₃, h₃, h⟩ := h
  obtain ⟨ho, hm₁⟩ := expect_sound h₁
  obtain ⟨ts, hm₂, hts⟩ := declarations_sound s₁ ds s₂ (hm₁.bounded hb) h₂
  obtain ⟨hc, hm₃⟩ := expect_sound h₃
  cases h
  exact ⟨_, hm₁.cons (hm₂.trans hm₃), .mk ho hts hc⟩

theorem parameters_complete (n : Nat) : Complete n [] parameters Parameters := by
  intro s ts k ds hb hr _ _ h
  obtain ⟨ho, hts, hc⟩ := h
  simp only [List.cons_append, List.append_assoc, List.nil_append] at hr
  obtain ⟨s₁, h₁, hm₁⟩ := expect_of_next hr ho
  have hr₁ := hm₁.rest_of_next hr
  obtain ⟨s₂, h₂, hm₂⟩ := declarations_complete _ s₁ _ _ ds (hm₁.bounded hb) hr₁ (Nat.le_refl _)
    (by simp [hc]) hts
  obtain ⟨s₃, h₃, hm₃⟩ := expect_of_next (hm₂.rest_eq hr₁) hc
  refine ⟨s₃, ?_, hm₁.cons (hm₂.trans hm₃)⟩
  rw [parameters, bind_of_ok h₁, bind_of_ok h₂, bind_of_ok h₃]
  rfl

theorem header_sound : Sound header HeaderLine := by
  intro s hd s' hb h
  simp only [header, bind_eq_ok] at h
  obtain ⟨name, s₁, h₁, params, s₂, h₂, b, s₃, h₃, h⟩ := h
  obtain ⟨hname, hm₁⟩ := expect_sound h₁
  have hb₁ := hm₁.bounded hb
  obtain ⟨ts, hm₂, hparams⟩ := parameters_sound s₁ params s₂ hb₁ h₂
  rcases accept_cases h₃ with ⟨rfl, colon, hcolon, hm₃⟩ | ⟨rfl, rfl, _⟩
  · simp only [if_true, bind_eq_ok] at h
    obtain ⟨rets, s₄, h₄, h⟩ := h
    obtain ⟨us, hm₄, hrets⟩ := declarations_sound s₃ rets s₄ (hm₃.bounded (hm₂.bounded hb₁)) h₄
    cases hrets with
    | absent =>
      simp only [List.isEmpty_nil, if_true, bind_eq_ok] at h
      obtain ⟨_, _, _, _, _, h, _⟩ := h
      exact ((throw_run_ne_ok _ _ _ _).mp h).elim
    | present hrets =>
      have hsome : rets.isEmpty = false := by cases hrets <;> rfl
      simp only [hsome] at h
      cases h
      exact ⟨_, hm₁.cons (hm₂.trans (hm₃.cons hm₄)), .mk hname hparams (.present hcolon hrets)⟩
  · cases h
    refine ⟨_, hm₁.cons hm₂, ?_⟩
    simpa using HeaderLine.mk hname hparams .absent

theorem header_complete (n : Nat) : Complete n [.colon, .word, .comma] header HeaderLine := by
  intro s ts k hd hb hr _ hk h
  obtain ⟨hname, hparams, hrets⟩ := h
  simp only [List.cons_append, List.append_assoc] at hr
  obtain ⟨s₁, h₁, hm₁⟩ := expect_of_next hr hname
  have hb₁ := hm₁.bounded hb
  have hr₁ := hm₁.rest_of_next hr
  obtain ⟨s₂, h₂, hm₂⟩ := parameters_complete _ s₁ _ _ _ hb₁ hr₁ (Nat.le_refl _) (by simp [NotNext])
    hparams
  have hr₂ := hm₂.rest_eq hr₁
  rw [header, bind_of_ok h₁, bind_of_ok h₂]
  cases hrets with
  | absent =>
    have hcolon : accept .colon s₂ = .ok false s₂ :=
      accept_of_notNext (by rw [hr₂]; exact hk.mono (by decide))
    refine ⟨s₂, ?_, by simpa using hm₁.cons hm₂⟩
    rw [bind_of_ok hcolon]
    rfl
  | present hcolon hrets =>
    obtain ⟨s₃, h₃, hm₃⟩ := accept_of_next hr₂ hcolon
    obtain ⟨s₄, h₄, hm₄⟩ := declarations_complete _ s₃ _ k _ (hm₃.bounded (hm₂.bounded hb₁))
      (hm₃.rest_of_next hr₂) (Nat.le_refl _) (hk.mono (by decide)) (.present hrets)
    have hsome : ∀ {ts ds}, Declarations ts ds → ds.isEmpty = false := by
      intro ts ds h
      cases h <;> rfl
    refine ⟨s₄, ?_, hm₁.cons (hm₂.trans (hm₃.cons hm₄))⟩
    rw [bind_of_ok h₃]
    simp only [if_true]
    rw [bind_of_ok h₄]
    simp only [hsome hrets]
    rfl

theorem header_second {ts : List Token} {hd : Header} (h : HeaderLine ts hd) :
    ∃ t u us, ts = t :: u :: us ∧ t.kind = .word ∧ u.kind = .leftParen := by
  obtain ⟨hname, hparams, _⟩ := h
  obtain ⟨ho, _, _⟩ := hparams
  exact ⟨_, _, _, rfl, hname, ho⟩

theorem header_starts : Starts [.word] HeaderLine := by
  intro ts hd h
  obtain ⟨t, u, us, rfl, ht, _⟩ := header_second h
  exact ⟨t, _, rfl, by simp [ht]⟩

/-! ### Interfaces -/

theorem interfaceDecl_sound : Sound interfaceDecl Interface := by
  intro s i s' hb h
  simp only [interfaceDecl, bind_eq_ok] at h
  obtain ⟨first, s₁, h₁, name, s₂, h₂, span, s₃, h₃, _, s₄, h₄, _, s₅, h₅, methods, s₆, h₆, h⟩ := h
  obtain ⟨hfirst, hm₁⟩ := expect_sound h₁
  obtain ⟨hname, hm₂⟩ := expect_sound h₂
  rw [spanFrom_run (hm₁.cons hm₂)] at h₃
  cases h₃
  have hm₄ := passing_sound h₄
  have hb₄ := hm₄.bounded (hm₂.bounded (hm₁.bounded hb))
  obtain ⟨ns, hm₅, hn⟩ := lineEnd_sound hb₄ h₅
  obtain ⟨ts, hm₆, hts⟩ := block_sound (line_sound header_sound) (line_starts header_starts) s₅ methods
    s₆ (hm₅.bounded hb₄) h₆
  cases h
  exact ⟨_, hm₁.cons (hm₂.cons (hm₄.nil_trans (hm₅.trans hm₆))), .mk hfirst hname hn hts⟩

theorem interfaceDecl_complete (n : Nat) : Complete n [] interfaceDecl Interface := by
  intro s ts k i hb hr _ _ h
  obtain ⟨hfirst, hname, hn, hts⟩ := h
  simp only [List.cons_append, List.append_assoc] at hr
  obtain ⟨s₁, h₁, hm₁⟩ := expect_of_next hr hfirst
  have hr₁ := hm₁.rest_of_next hr
  obtain ⟨s₂, h₂, hm₂⟩ := expect_of_next hr₁ hname
  have hr₂ := hm₂.rest_of_next hr₁
  obtain ⟨s₃, h₃, hm₃⟩ := passing_run (.interface _) s₂
  have hb₃ := hm₃.bounded (hm₂.bounded (hm₁.bounded hb))
  have hr₃ := hm₃.rest_eq hr₂
  obtain ⟨s₄, h₄, hm₄⟩ := lineEnd_exact hb₃ hr₃ hn (block_notNext hts (by decide) k)
  obtain ⟨s₅, h₅, hm₅⟩ := block_complete (line_complete (header_complete _) (by decide))
    (line_starts header_starts) (by decide) (by decide) s₄ _ k _ (hm₄.bounded hb₃)
    (hm₄.rest_eq hr₃) (Nat.le_refl _) (by simp [NotNext]) hts
  refine ⟨s₅, ?_, hm₁.cons (hm₂.cons (hm₃.nil_trans (hm₄.trans hm₅)))⟩
  unfold line at h₅
  rw [interfaceDecl, bind_of_ok h₁, bind_of_ok h₂, bind_of_ok (spanFrom_run (hm₁.cons hm₂)),
    bind_of_ok h₃, bind_of_ok h₄, bind_of_ok h₅]
  rfl

/-! ### Bodies -/

theorem bodyItem_sound : Sound bodyItem BodyLine := by
  intro s item s' hb h
  rw [bodyItem, bind_of_ok (nextIs_run ..), bind_of_ok (nextIs_run ..)] at h
  split at h
  · simp only [bind_eq_ok] at h
    obtain ⟨d, s₁, h₁, _, s₂, h₂, h⟩ := h
    obtain ⟨ts, hm₁, hd⟩ := declaration_sound s d s₁ hb h₁
    obtain ⟨ns, hm₂, hn⟩ := lineEnd_sound (hm₁.bounded hb) h₂
    cases h
    exact ⟨_, hm₁.trans hm₂, .decl (.mk hd hn)⟩
  · simp only [bind_eq_ok] at h
    obtain ⟨stmt, s₁, h₁, h⟩ := h
    obtain ⟨ts, hm, hs⟩ := statement_sound s stmt s₁ hb h₁
    cases h
    exact ⟨ts, hm, .stmt hs⟩

/-- Two words in a row are a declaration and never a statement. -/
theorem statement_not_words {ts : List Token} {stmt : Stmt} (h : Statement ts stmt) {s : Reading}
    {k : List Token} (hr : s.cursor.rest = ts ++ k) :
    (s.cursor.peekIs 0 [.word] && s.cursor.peekIs 1 [.word]) = false := by
  cases h with
  | simple h =>
    obtain ⟨hs, _⟩ := h
    obtain ⟨t, u, us, rfl, hu⟩ := simple_second hs
    simp only [List.cons_append, List.append_assoc] at hr
    simp [peekIs_one hr, hu]
  | branch ht _ _ _ | branchElse ht _ _ _ _ _ _ | loop ht _ _ _ _ =>
    rw [List.cons_append] at hr
    simp [peekIs_zero hr, ht]

theorem bodyItem_complete (n : Nat) : CompleteLine n statementTails bodyItem BodyLine := by
  intro s ts k item hb hr hlen hk h
  rw [bodyItem, bind_of_ok (nextIs_run ..), bind_of_ok (nextIs_run ..)]
  cases h with
  | @decl ts d h =>
    obtain ⟨ms, s₁, h₁, hm₁, hms, _⟩ := line_run (declaration_complete n) (by simp) hb hr hlen h
    obtain ⟨hd, hn⟩ := h
    obtain ⟨htype, hname⟩ := hd
    refine ⟨ms, s₁, ?_, hm₁, hms⟩
    rw [if_pos (by simp [Cursor.peekIs, Cursor.peek?, hr, htype, hname])]
    simp only [line, bind_eq_ok] at h₁ ⊢
    obtain ⟨d, s₂, h₂, _, s₃, h₃, h₁⟩ := h₁
    cases h₁
    exact ⟨_, s₂, h₂, (), _, h₃, rfl⟩
  | stmt h =>
    obtain ⟨ms, s₁, h₁, hm₁, hms⟩ := statement_complete n s ts k _ hb hr hlen hk h
    refine ⟨ms, s₁, ?_, hm₁, hms⟩
    rw [statement_not_words h hr]
    simp only [Bool.false_eq_true, if_false]
    rw [bind_of_ok h₁]
    rfl

theorem bodyItem_starts : Starts statementStarts BodyLine := by
  intro ts item h
  cases h with
  | decl h =>
    obtain ⟨t, us, rfl, ht⟩ := line_starts declaration_starts _ _ h
    exact ⟨t, us, rfl, by simp_all [statementStarts]⟩
  | stmt h => exact statement_starts _ _ h

theorem body_sound : Sound body Body := by
  intro s b s' hb h
  simp only [body, bind_eq_ok] at h
  obtain ⟨items, s₁, h₁, h⟩ := h
  obtain ⟨ts, hm, hts⟩ := block_sound bodyItem_sound bodyItem_starts s items s₁ hb h₁
  cases h
  exact ⟨ts, hm, .mk hts⟩

theorem body_complete (n : Nat) : Complete n [] body Body := by
  intro s ts k b hb hr hlen hk h
  obtain ⟨h⟩ := h
  obtain ⟨s₁, h₁, hm₁⟩ := block_complete (bodyItem_complete n) bodyItem_starts (by decide)
    (by decide) s ts k _ hb hr hlen hk h
  refine ⟨s₁, ?_, hm₁⟩
  rw [body, bind_of_ok h₁]
  rfl

theorem body_notNext {ts : List Token} {b : List Decl × List Stmt} (h : Body ts b)
    {kinds : List Kind} (hkinds : Kind.indent ∉ kinds) (k : List Token) :
    NotNext kinds (ts ++ k) := by
  obtain ⟨h⟩ := h
  exact block_notNext h hkinds k

/-! ### Members -/

/-- Line ends before something else are skipped and no more. -/
theorem skipNewlines_exact {s : Reading} {ns k : List Token} (hb : s.Bounded)
    (hr : s.cursor.rest = ns ++ k) (hn : Blank ns) (hk : NotNext [.newline] k) :
    ∃ s', skipNewlines s = .ok () s' ∧ Moved s ns s' := by
  obtain ⟨ms, s', h, hm, _, hr'⟩ := skipNewlines_run hb
  rw [hr, skip_of_blank hn, skip_of_notNext hk] at hr'
  have hms : ms = ns := by
    have hrest := hm.rest
    rw [hr, hr'] at hrest
    exact ((List.append_left_inj k).mp hrest).symm
  rw [hms] at hm
  exact ⟨s', h, hm⟩

theorem fieldBody_sound (opener : Kind) : Sound (fieldBody opener) (FieldBody opener) := by
  intro s body s' hb h
  simp only [fieldBody, bind_eq_ok] at h
  obtain ⟨b, s₁, h₁, h⟩ := h
  rcases accept_cases h₁ with ⟨rfl, t, ht, hm₁⟩ | ⟨rfl, rfl, _⟩
  · simp only [if_true, bind_eq_ok] at h
    obtain ⟨colon, s₂, h₂, _, s₃, h₃, body, s₄, h₄, _, s₅, h₅, h⟩ := h
    obtain ⟨hcolon, hm₂⟩ := expect_sound h₂
    have hb₂ := hm₂.bounded (hm₁.bounded hb)
    obtain ⟨ns, hm₃, hn⟩ := lineEnd_sound hb₂ h₃
    have hb₃ := hm₃.bounded hb₂
    obtain ⟨ts, hm₄, hts⟩ := statements_sound s₃ body s₄ hb₃ h₄
    obtain ⟨ms, hm₅, hms⟩ := skipNewlines_sound (hm₄.bounded hb₃) h₅
    cases h
    exact ⟨_, hm₁.cons (hm₂.cons ((hm₃.trans hm₄).trans hm₅)), .present ht hcolon hn hts hms⟩
  · cases h
    exact ⟨[], Moved.refl _, .absent⟩

theorem fieldBody_complete (opener : Kind) (n : Nat) :
    Complete n [opener, .newline] (fieldBody opener) (FieldBody opener) := by
  intro s ts k body hb hr hlen hk h
  cases h with
  | absent =>
    refine ⟨s, ?_, Moved.refl s⟩
    have hnext : NotNext [opener] s.cursor.rest := by
      rw [hr]
      exact hk.mono (by simp)
    rw [fieldBody, bind_of_ok (accept_of_notNext hnext)]
    rfl
  | @present t colon ns ts body ms ht hcolon hn hts hms =>
    simp only [List.cons_append, List.append_assoc] at hr
    obtain ⟨s₁, h₁, hm₁⟩ := accept_of_next hr ht
    have hr₁ := hm₁.rest_of_next hr
    obtain ⟨s₂, h₂, hm₂⟩ := expect_of_next hr₁ hcolon
    have hb₂ := hm₂.bounded (hm₁.bounded hb)
    have hr₂ := hm₂.rest_of_next hr₁
    obtain ⟨s₃, h₃, hm₃⟩ := lineEnd_exact hb₂ hr₂ hn (block_notNext hts (by decide) _)
    have hb₃ := hm₃.bounded hb₂
    have hr₃ := hm₃.rest_eq hr₂
    obtain ⟨s₄, h₄, hm₄⟩ := statements_complete ts.length s₃ ts _ body hb₃ hr₃ (Nat.le_refl _)
      (by simp [NotNext]) hts
    obtain ⟨s₅, h₅, hm₅⟩ := skipNewlines_exact (hm₄.bounded hb₃) (hm₄.rest_eq hr₃) hms
      (hk.mono (by simp))
    refine ⟨s₅, ?_, hm₁.cons (hm₂.cons ((hm₃.trans hm₄).trans hm₅))⟩
    rw [fieldBody, bind_of_ok h₁]
    simp only [if_true]
    rw [bind_of_ok h₂, bind_of_ok h₃, bind_of_ok h₄, bind_of_ok h₅]
    rfl

theorem fieldBody_notNext {opener : Kind} {ts k : List Token} {body : List Stmt} {kinds : List Kind}
    (h : FieldBody opener ts body) (hopener : opener ∉ kinds) (hk : NotNext kinds k) :
    NotNext kinds (ts ++ k) := by
  cases h with
  | absent => exact hk
  | present ht _ _ _ _ =>
    rw [List.cons_append, notNext_cons, ht]
    exact hopener

theorem member_sound : Sound member MemberItem := by
  intro s m s' hb h
  simp only [member, bind_eq_ok] at h
  obtain ⟨d, s₁, h₁, _, s₂, h₂, b, s₃, h₃, h⟩ := h
  obtain ⟨ts, hm₁, hd⟩ := declaration_sound s d s₁ hb h₁
  have hb₁ := hm₁.bounded hb
  obtain ⟨ns, hm₂, hn⟩ := lineEnd_sound hb₁ h₂
  have hb₂ := hm₂.bounded hb₁
  have hline := Line.mk hd hn
  rcases accept_cases h₃ with ⟨rfl, opener, ho, hm₃⟩ | ⟨rfl, rfl, _⟩
  · simp only [if_true, bind_eq_ok] at h
    obtain ⟨_, s₄, h₄, accessor, s₅, h₅, mutator, s₆, h₆, closer, s₇, h₇, h⟩ := h
    have hb₃ := hm₃.bounded hb₂
    obtain ⟨ms, hm₄, hms⟩ := skipNewlines_sound hb₃ h₄
    have hb₄ := hm₄.bounded hb₃
    obtain ⟨us, hm₅, hus⟩ := fieldBody_sound _ s₄ accessor s₅ hb₄ h₅
    obtain ⟨vs, hm₆, hvs⟩ := fieldBody_sound _ s₅ mutator s₆ (hm₅.bounded hb₄) h₆
    obtain ⟨hc, hm₇⟩ := expect_sound h₇
    cases h
    exact ⟨_, (hm₁.trans hm₂).trans (hm₃.cons (((hm₄.trans hm₅).trans hm₆).trans hm₇)),
      .withBodies hline ho hms hus hvs hc⟩
  · cases h
    exact ⟨_, hm₁.trans hm₂, .plain hline⟩

/-- After the line of a member comes an indentation, or the member is over. -/
theorem member_run {s s' : Reading} {d : Decl} (h : line declaration s = .ok d s') :
    member s = (do
      if ← accept .indent then
        skipNewlines
        let accessor ← fieldBody .accessorWord
        let mutator ← fieldBody .mutatorWord
        let _ ← expect .dedent
        return ⟨d, accessor, mutator⟩
      else return ⟨d, [], []⟩ : Parser Member) s' := by
  simp only [line, bind_eq_ok] at h
  obtain ⟨_, s₁, h₁, _, s₂, h₂, h⟩ := h
  cases h
  rw [member, bind_of_ok h₁, bind_of_ok h₂]

theorem member_complete (n : Nat) : CompleteLine n [.indent] member MemberItem := by
  intro s ts k m hb hr hlen hk h
  cases h with
  | plain h =>
    obtain ⟨ms, s₁, h₁, hm₁, hms, hr₁⟩ := line_run (declaration_complete n) (by simp) hb hr hlen h
    refine ⟨ms, s₁, ?_, hm₁, hms⟩
    rw [member_run h₁, bind_of_ok (accept_of_notNext (by rwa [hr₁]))]
    rfl
  | @withBodies ts d opener ns us accessor vs mutator closer h ho hn hus hvs hc =>
    simp only [List.append_assoc, List.cons_append, List.nil_append] at hr
    obtain ⟨ms, s₁, h₁, hm₁, _, hr₁⟩ := line_run (declaration_complete ts.length) (by simp) hb hr
      (Nat.le_refl _) h
    rw [skip_of_notNext (by simp [ho])] at hr₁
    have hms : ms = [] := by
      have hrest := hm₁.rest
      rw [hr, hr₁, List.append_assoc] at hrest
      simpa using List.append_cancel_left hrest
    rw [hms, List.append_nil] at hm₁
    obtain ⟨s₂, h₂, hm₂⟩ := accept_of_next hr₁ ho
    have hb₂ := hm₂.bounded (hm₁.bounded hb)
    have hr₂ := hm₂.rest_of_next hr₁
    have hclose : NotNext [.mutatorWord, .accessorWord, .newline] (closer :: k) := by simp [hc]
    have hmutator : NotNext [.accessorWord, .newline] (vs ++ closer :: k) :=
      fieldBody_notNext hvs (by decide) (hclose.mono (by decide))
    obtain ⟨s₃, h₃, hm₃⟩ := skipNewlines_exact hb₂ hr₂ hn
      (fieldBody_notNext hus (by decide) (hmutator.mono (by decide)))
    have hb₃ := hm₃.bounded hb₂
    have hr₃ := hm₃.rest_eq hr₂
    obtain ⟨s₄, h₄, hm₄⟩ := fieldBody_complete _ us.length s₃ us _ accessor hb₃ hr₃ (Nat.le_refl _)
      hmutator hus
    have hr₄ := hm₄.rest_eq hr₃
    obtain ⟨s₅, h₅, hm₅⟩ := fieldBody_complete _ vs.length s₄ vs _ mutator (hm₄.bounded hb₃) hr₄
      (Nat.le_refl _) (hclose.mono (by decide)) hvs
    obtain ⟨s₆, h₆, hm₆⟩ := expect_of_next (hm₅.rest_eq hr₄) hc
    refine ⟨[], s₆, ?_, ?_, by simp [Blank]⟩
    · rw [member_run h₁, bind_of_ok h₂]
      simp only [if_true]
      rw [bind_of_ok h₃, bind_of_ok h₄, bind_of_ok h₅, bind_of_ok h₆]
      rfl
    · rw [List.append_nil]
      exact hm₁.trans (hm₂.cons (((hm₃.trans hm₄).trans hm₅).trans hm₆))

theorem member_second {ts : List Token} {m : Member} (h : MemberItem ts m) :
    ∃ t u us, ts = t :: u :: us ∧ t.kind = .word ∧ u.kind = .word := by
  cases h with
  | plain h | withBodies h _ _ _ _ _ =>
    obtain ⟨hd, _⟩ := h
    obtain ⟨htype, hname⟩ := hd
    exact ⟨_, _, _, rfl, htype, hname⟩

/-! ### Constructors -/

theorem constructorDecl_sound : Sound constructorDecl ConstructorItem := by
  intro s c s' hb h
  simp only [constructorDecl, bind_eq_ok] at h
  obtain ⟨first, s₁, h₁, params, s₂, h₂, span, s₃, h₃, _, s₄, h₄, b, s₅, h₅, h⟩ := h
  obtain ⟨hfirst, hm₁⟩ := expect_sound h₁
  have hb₁ := hm₁.bounded hb
  obtain ⟨ts, hm₂, hparams⟩ := parameters_sound s₁ params s₂ hb₁ h₂
  rw [spanFrom_run (hm₁.cons hm₂)] at h₃
  cases h₃
  have hb₂ := hm₂.bounded hb₁
  obtain ⟨ns, hm₄, hn⟩ := lineEnd_sound hb₂ h₄
  rw [nextIs_run] at h₅
  cases h₅
  split at h
  · simp only [bind_eq_ok] at h
    obtain ⟨body, s₆, h₆, h⟩ := h
    obtain ⟨us, hm₆, hbody⟩ := body_sound _ body s₆ (hm₄.bounded hb₂) h₆
    cases h
    exact ⟨_, hm₁.cons ((hm₂.trans hm₄).trans hm₆), .withBody hfirst hparams hn hbody⟩
  · cases h
    exact ⟨_, hm₁.cons (hm₂.trans hm₄), .plain hfirst hparams hn⟩

/-- Everything up to the end of a constructor's parameters. -/
theorem constructorDecl_reaches {s : Reading} {first : Token} {ts k : List Token}
    {params : List Decl} (hb : s.Bounded) (hr : s.cursor.rest = first :: (ts ++ k))
    (hfirst : first.kind = .constructWord) (hparams : Parameters ts params) :
    ∃ s', Moved s (first :: ts) s' ∧ constructorDecl s = (do
      lineEnd
      let (locals, body) ← if ← nextIs 0 [.indent] then body else pure ([], [])
      return ⟨params, locals, body, spanOf (first :: ts)⟩ : Parser ConstructorDecl) s' := by
  obtain ⟨s₁, h₁, hm₁⟩ := expect_of_next hr hfirst
  obtain ⟨s₂, h₂, hm₂⟩ := parameters_complete ts.length s₁ ts k params (hm₁.bounded hb)
    (hm₁.rest_of_next hr) (Nat.le_refl _) (by simp [NotNext]) hparams
  refine ⟨s₂, hm₁.cons hm₂, ?_⟩
  rw [constructorDecl, bind_of_ok h₁, bind_of_ok h₂, bind_of_ok (spanFrom_run (hm₁.cons hm₂))]

theorem constructorDecl_complete (n : Nat) :
    CompleteLine n [.indent] constructorDecl ConstructorItem := by
  intro s ts k c hb hr _ hk h
  cases h with
  | plain hfirst hparams hn =>
    simp only [List.append_assoc, List.cons_append] at hr
    obtain ⟨s₁, hm₁, h₁⟩ := constructorDecl_reaches hb hr hfirst hparams
    obtain ⟨ms, s₂, h₂, hm₂, hms, hr₂⟩ := lineEnd_run (hm₁.bounded hb) (hm₁.rest_eq hr) hn
    refine ⟨ms, s₂, ?_, by simpa using hm₁.trans hm₂, hms⟩
    rw [h₁, bind_of_ok h₂, bind_of_ok (nextIs_run ..), peekIs_zero_of_notNext (by rwa [hr₂])]
    rfl
  | withBody hfirst hparams hn hbody =>
    simp only [List.append_assoc, List.cons_append] at hr
    obtain ⟨s₁, hm₁, h₁⟩ := constructorDecl_reaches hb hr hfirst hparams
    have hb₁ := hm₁.bounded hb
    have hr₁ := hm₁.rest_eq hr
    obtain ⟨s₂, h₂, hm₂⟩ := lineEnd_exact hb₁ hr₁ hn (body_notNext hbody (by decide) k)
    have hr₂ := hm₂.rest_eq hr₁
    obtain ⟨s₃, h₃, hm₃⟩ := body_complete _ s₂ _ k _ (hm₂.bounded hb₁) hr₂ (Nat.le_refl _)
      (by simp [NotNext]) hbody
    have hindent : s₂.cursor.peekIs 0 [.indent] = true := by
      obtain ⟨hblock⟩ := hbody
      obtain ⟨ho, _, _, _⟩ := hblock
      rw [peekIs_zero hr₂]
      simp [ho]
    refine ⟨[], s₃, ?_, by simpa using (hm₁.trans hm₂).trans hm₃, by simp [Blank]⟩
    rw [h₁, bind_of_ok h₂, bind_of_ok (nextIs_run ..), if_pos hindent, bind_of_ok h₃]
    rfl

end Offside.Parser
