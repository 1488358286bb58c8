import Offside.Proofs.Grammar.Declaration

/-! The reader of methods, classes and whole programs reads their grammar.

`parse_derives` is what all of this is for: reading a sequence of tokens gives a program if and only
if the sequence derives that program, and no sequence derives two. -/
namespace Offside.Parser

open Reading Grammar

/-! ### Methods -/

theorem modifiers_sound (bound : Nat) (s : Reading) (r : Bool × Bool) (s' : Reading)
    (h : modifiers bound s = .ok r s') :
    ∃ ms, Moved s ms s' ∧ Modifiers ms ∧ r = (has .privateWord ms, has .sharedWord ms) := by
  induction bound generalizing s r with
  | zero =>
    cases h
    exact ⟨[], Moved.refl _, by simp [Modifiers], rfl⟩
  | succ bound ih =>
    simp only [modifiers, bind_eq_ok] at h
    obtain ⟨b, s₁, h₁, h⟩ := h
    rcases accept_cases h₁ with ⟨rfl, t, ht, hm₁⟩ | ⟨rfl, rfl, _⟩
    · simp only [if_true, bind_eq_ok] at h
      obtain ⟨r', s₂, h₂, h⟩ := h
      cases h
      obtain ⟨ms, hm₂, hms, rfl⟩ := ih s₁ r' h₂
      refine ⟨t :: ms, hm₁.cons hm₂, ?_, by simp [has, ht]⟩
      simpa [Modifiers, ht] using hms
    · simp only [Bool.false_eq_true, if_false, bind_eq_ok] at h
      obtain ⟨b, s₁, h₁, h⟩ := h
      rcases accept_cases h₁ with ⟨rfl, t, ht, hm₁⟩ | ⟨rfl, rfl, _⟩
      · simp only [if_true, bind_eq_ok] at h
        obtain ⟨r', s₂, h₂, h⟩ := h
        cases h
        obtain ⟨ms, hm₂, hms, rfl⟩ := ih s₁ r' h₂
        refine ⟨t :: ms, hm₁.cons hm₂, ?_, by simp [has, ht]⟩
        simpa [Modifiers, ht] using hms
      · cases h
        exact ⟨[], Moved.refl _, by simp [Modifiers], rfl⟩

theorem modifiers_complete {ms k : List Token} (hms : Modifiers ms)
    (hk : NotNext [.privateWord, .sharedWord] k) (bound : Nat) (s : Reading)
    (hr : s.cursor.rest = ms ++ k) (hbound : ms.length ≤ bound) :
    ∃ s', modifiers bound s = .ok (has .privateWord ms, has .sharedWord ms) s' ∧ Moved s ms s' := by
  induction ms generalizing bound s with
  | nil =>
    refine ⟨s, ?_, Moved.refl s⟩
    rw [List.nil_append] at hr
    cases bound with
    | zero => rfl
    | succ bound =>
      rw [modifiers, bind_of_ok (accept_of_notNext (by rw [hr]; exact hk.mono (by decide)))]
      simp only [Bool.false_eq_true, if_false]
      rw [bind_of_ok (accept_of_notNext (by rw [hr]; exact hk.mono (by decide)))]
      rfl
  | cons t ms ih =>
    rw [List.cons_append] at hr
    cases bound with
    | zero => simp at hbound
    | succ bound =>
      have hms' : Modifiers ms := fun u hu => hms u (List.mem_cons_of_mem _ hu)
      rcases hms t (List.mem_cons_self ..) with ht | ht
      · obtain ⟨s₁, h₁, hm₁⟩ := accept_of_next hr ht
        obtain ⟨s₂, h₂, hm₂⟩ := ih hms' bound s₁ (hm₁.rest_of_next hr) (by simpa using hbound)
        refine ⟨s₂, ?_, hm₁.cons hm₂⟩
        rw [modifiers, bind_of_ok h₁]
        simp only [if_true]
        rw [bind_of_ok h₂]
        simp [has, ht]
      · obtain ⟨s₁, h₁, hm₁⟩ := accept_of_next hr ht
        obtain ⟨s₂, h₂, hm₂⟩ := ih hms' bound s₁ (hm₁.rest_of_next hr) (by simpa using hbound)
        refine ⟨s₂, ?_, hm₁.cons hm₂⟩
        rw [modifiers, bind_of_ok (accept_of_notNext (by rw [hr]; simp [ht]))]
        simp only [Bool.false_eq_true, if_false]
        rw [bind_of_ok h₁]
        simp only [if_true]
        rw [bind_of_ok h₂]
        simp [has, ht]

theorem methodDecl_sound : Sound methodDecl MethodItem := by
  intro s m s' hb h
  simp only [methodDecl, bind_eq_ok] at h
  obtain ⟨start, s₁, h₁, mods, s₂, h₂, hd, s₃, h₃, span, s₄, h₄, _, s₅, h₅, _, s₆, h₆, b, s₇, h₇,
    h⟩ := h
  cases h₁
  obtain ⟨ms, hm₂, hms, rfl⟩ := modifiers_sound s.count s mods s₂ h₂
  have hb₂ := hm₂.bounded hb
  obtain ⟨ts, hm₃, hhd⟩ := header_sound s₂ hd s₃ hb₂ h₃
  have hm := hm₂.trans hm₃
  have hne : ms ++ ts ≠ [] := List.append_ne_nil_of_right_ne_nil ms (header_starts.ne_nil hhd)
  -- The method starts where its first token does, be that a modifier or its name.
  obtain ⟨t, k, hr⟩ : ∃ t k, s.cursor.rest = t :: k := by
    cases hr : s.cursor.rest with
    | nil =>
      rw [hm.rest, List.append_eq_nil_iff] at hr
      exact absurd hr.1 hne
    | cons t k => exact ⟨t, k, rfl⟩
  have hstart : s.cursor.location.start = t.span.start := by simp [Cursor.location, hr]
  rw [hstart, spanFrom_of_moved hm hne hr] at h₄
  cases h₄
  have hm₅ := passing_sound h₅
  have hb₅ := hm₅.bounded (hm₃.bounded hb₂)
  obtain ⟨ns, hm₆, hn⟩ := lineEnd_sound hb₅ h₆
  obtain ⟨us, hm₇, hbody⟩ := body_sound s₆ b s₇ (hm₆.bounded hb₅) h₇
  cases h
  exact ⟨_, (hm.trans (hm₅.nil_trans hm₆)).trans hm₇, .mk hms hhd hn hbody⟩

theorem methodDecl_complete (n : Nat) : Complete n [] methodDecl MethodItem := by
  intro s ts k m hb hr _ _ h
  obtain @⟨ms, ts, hd, ns, us, b, hms, hhd, hn, hbody⟩ := h
  simp only [List.append_assoc] at hr
  have hcount : ms.length ≤ s.count := by
    unfold Reading.Bounded at hb
    rw [hr, List.length_append] at hb
    omega
  obtain ⟨s₁, h₁, hm₁⟩ := modifiers_complete hms (header_starts.notNext hhd _ (by decide)) s.count s hr
    hcount
  have hb₁ := hm₁.bounded hb
  have hr₁ := hm₁.rest_eq hr
  obtain ⟨s₂, h₂, hm₂⟩ := header_complete ts.length s₁ ts _ hd hb₁ hr₁ (Nat.le_refl _)
    (hn.notNext (by decide) _) hhd
  have hr₂ := hm₂.rest_eq hr₁
  have hm := hm₁.trans hm₂
  have hne : ms ++ ts ≠ [] := List.append_ne_nil_of_right_ne_nil ms (header_starts.ne_nil hhd)
  obtain ⟨t, k', ht⟩ : ∃ t k', s.cursor.rest = t :: k' := by
    rw [hr, ← List.append_assoc]
    cases hcons : ms ++ ts with
    | nil => exact absurd hcons hne
    | cons t us => exact ⟨t, _, rfl⟩
  obtain ⟨s₃, h₃, hm₃⟩ := passing_run (.method hd) s₂
  have hb₃ := hm₃.bounded (hm₂.bounded hb₁)
  have hr₃ := hm₃.rest_eq hr₂
  obtain ⟨s₄, h₄, hm₄⟩ := lineEnd_exact hb₃ hr₃ hn (body_notNext hbody (by decide) k)
  obtain ⟨s₅, h₅, hm₅⟩ := body_complete us.length s₄ us k b (hm₄.bounded hb₃) (hm₄.rest_eq hr₃)
    (Nat.le_refl _) (by simp [NotNext]) hbody
  refine ⟨s₅, ?_, (hm.trans (hm₃.nil_trans hm₄)).trans hm₅⟩
  rw [methodDecl, bind_of_ok (position_run ht), bind_of_ok (withBound_of_ok h₁)]
  simp only []
  rw [bind_of_ok h₂, bind_of_ok (spanFrom_of_moved hm hne ht), bind_of_ok h₃, bind_of_ok h₄,
    bind_of_ok h₅]
  rfl

/-! ### Classes -/

/-- The kinds that a part of a class can start with. -/
def classStarts : List Kind := [.constructWord, .sharedWord, .privateWord, .word]

theorem classItem_sound : Sound classItem ClassPart := by
  intro s item s' hb h
  rw [classItem, bind_of_ok (nextIs_run ..)] at h
  split at h
  · simp only [bind_eq_ok] at h
    obtain ⟨c, s₁, h₁, h⟩ := h
    obtain ⟨ts, hm, hc⟩ := constructorDecl_sound s c s₁ hb h₁
    cases h
    exact ⟨ts, hm, .constructor hc⟩
  have hmethod : ∀ item s', (methodDecl >>= fun m => pure ([], [], [m])) s = .ok item s' →
      ∃ ts, Moved s ts s' ∧ ClassPart ts item := by
    intro item s' h
    simp only [bind_eq_ok] at h
    obtain ⟨m, s₁, h₁, h⟩ := h
    obtain ⟨ts, hm, hmeth⟩ := methodDecl_sound s m s₁ hb h₁
    cases h
    exact ⟨ts, hm, .method hmeth⟩
  rw [bind_of_ok (nextIs_run ..)] at h
  split at h
  · exact hmethod item s' h
  rw [bind_of_ok (nextIs_run ..)] at h
  split at h
  · rw [bind_of_ok (nextIs_run ..)] at h
    split at h
    · exact hmethod item s' h
    rw [bind_of_ok (nextIs_run ..)] at h
    split at h
    · simp only [bind_eq_ok] at h
      obtain ⟨m, s₁, h₁, h⟩ := h
      obtain ⟨ts, hm, hmem⟩ := member_sound s m s₁ hb h₁
      cases h
      exact ⟨ts, hm, .member hmem⟩
    · simp only [bind_eq_ok] at h
      obtain ⟨_, _, _, h⟩ := h
      exact absurd h (complain_run_ne_ok _ _ _ _)
  · exact absurd h (complain_run_ne_ok _ _ _ _)

theorem constructor_starts : Starts [.constructWord] ConstructorItem := by
  intro ts c h
  cases h with
  | plain h _ _ | withBody h _ _ _ => exact ⟨_, _, rfl, by simp [h]⟩

/-- A method starts with a modifier, or with its name and a parenthesis. -/
theorem method_starts {ts : List Token} {m : MethodDecl} (h : MethodItem ts m) :
    ∃ t us, ts = t :: us ∧ (t.kind ∈ [.sharedWord, .privateWord] ∨
      t.kind = .word ∧ ∃ u vs, us = u :: vs ∧ u.kind = .leftParen) := by
  obtain @⟨ms, ts, hd, ns, us, b, hms, hhd, _, _⟩ := h
  cases ms with
  | nil =>
    obtain ⟨t, u, vs, rfl, ht, hu⟩ := header_second hhd
    exact ⟨t, _, rfl, .inr ⟨ht, u, _, rfl, hu⟩⟩
  | cons t ms =>
    refine ⟨t, _, rfl, .inl ?_⟩
    rcases hms t (List.mem_cons_self ..) with ht | ht <;> simp [ht]

theorem classItem_starts : Starts classStarts ClassPart := by
  intro ts item h
  cases h with
  | constructor h =>
    obtain ⟨t, us, rfl, ht⟩ := constructor_starts _ _ h
    exact ⟨t, us, rfl, by simp_all [classStarts]⟩
  | method h =>
    obtain ⟨t, us, rfl, ht | ⟨ht, _⟩⟩ := method_starts h
    · refine ⟨t, us, rfl, ?_⟩
      simp only [List.mem_cons, List.not_mem_nil, or_false] at ht
      rcases ht with ht | ht <;> simp [ht, classStarts]
    · exact ⟨t, us, rfl, by simp [ht, classStarts]⟩
  | member h =>
    obtain ⟨t, u, us, rfl, ht, _⟩ := member_second h
    exact ⟨t, _, rfl, by simp [ht, classStarts]⟩

theorem classItem_complete (n : Nat) : CompleteLine n [.indent] classItem ClassPart := by
  intro s ts k item hb hr hlen hk h
  rw [classItem]
  cases h with
  | constructor h =>
    obtain ⟨ms, s₁, h₁, hm₁, hms⟩ := constructorDecl_complete n s ts k _ hb hr hlen hk h
    obtain ⟨t, us, rfl, ht⟩ := constructor_starts _ _ h
    refine ⟨ms, s₁, ?_, hm₁, hms⟩
    rw [bind_of_ok (nextIs_run ..), if_pos (by simpa [peekIs_zero hr] using ht), bind_of_ok h₁]
    rfl
  | method h =>
    obtain ⟨s₁, h₁, hm₁⟩ := methodDecl_complete n s ts k _ hb hr hlen (by simp [NotNext]) h
    obtain ⟨t, us, rfl, ht | ⟨ht, u, vs, rfl, hu⟩⟩ := method_starts h
    · refine ⟨[], s₁, ?_, by simpa using hm₁, by simp [Blank]⟩
      have hconstruct : t.kind ≠ .constructWord := by
        intro heq
        simp [heq] at ht
      rw [bind_of_ok (nextIs_run ..), if_neg (by simpa [peekIs_zero hr] using hconstruct),
        bind_of_ok (nextIs_run ..), if_pos (by simpa [peekIs_zero hr] using ht), bind_of_ok h₁]
      rfl
    · refine ⟨[], s₁, ?_, by simpa using hm₁, by simp [Blank]⟩
      rw [bind_of_ok (nextIs_run ..), if_neg (by simp [peekIs_zero hr, ht]),
        bind_of_ok (nextIs_run ..), if_neg (by simp [peekIs_zero hr, ht]),
        bind_of_ok (nextIs_run ..), if_pos (by simp [peekIs_zero hr, ht]),
        bind_of_ok (nextIs_run ..), if_pos (by simp [peekIs_one hr, hu]), bind_of_ok h₁]
      rfl
  | member h =>
    obtain ⟨ms, s₁, h₁, hm₁, hms⟩ := member_complete n s ts k _ hb hr hlen hk h
    obtain ⟨t, u, us, rfl, ht, hu⟩ := member_second h
    refine ⟨ms, s₁, ?_, hm₁, hms⟩
    rw [bind_of_ok (nextIs_run ..), if_neg (by simp [peekIs_zero hr, ht]),
      bind_of_ok (nextIs_run ..), if_neg (by simp [peekIs_zero hr, ht]),
      bind_of_ok (nextIs_run ..), if_pos (by simp [peekIs_zero hr, ht]),
      bind_of_ok (nextIs_run ..), if_neg (by simp [peekIs_one hr, hu]),
      bind_of_ok (nextIs_run ..), if_pos (by simp [peekIs_one hr, hu]), bind_of_ok h₁]
    rfl

theorem implemented_sound : Sound implemented Implemented := by
  intro s names s' hb h
  simp only [implemented, bind_eq_ok] at h
  obtain ⟨b, s₁, h₁, h⟩ := h
  rcases accept_cases h₁ with ⟨rfl, t, ht, hm₁⟩ | ⟨rfl, rfl, _⟩
  · obtain ⟨ts, hm₂, hts⟩ := separated_sound name_sound s₁ names s' (hm₁.bounded hb) h
    exact ⟨_, hm₁.cons hm₂, .present ht hts⟩
  · cases h
    exact ⟨[], Moved.refl _, .absent⟩

theorem implemented_complete (n : Nat) :
    Complete n [.implementsWord, .comma] implemented Implemented := by
  intro s ts k names hb hr hlen hk h
  cases h with
  | absent =>
    refine ⟨s, ?_, Moved.refl s⟩
    have hnext : NotNext [.implementsWord] s.cursor.rest := by
      rw [hr]
      exact hk.mono (by decide)
    rw [implemented, bind_of_ok (accept_of_notNext hnext)]
    rfl
  | @present t ts names ht hts =>
    obtain ⟨s₁, h₁, hm₁⟩ := accept_of_next hr ht
    obtain ⟨s₂, h₂, hm₂⟩ := separated_complete (name_complete ts.length) (by simp) s₁ ts k names
      (hm₁.bounded hb) (hm₁.rest_of_next hr) (Nat.le_refl _) (hk.mono (by decide)) hts
    refine ⟨s₂, ?_, hm₁.cons hm₂⟩
    rw [implemented, bind_of_ok h₁]
    exact h₂

theorem classDecl_sound : Sound classDecl ClassDeclaration := by
  intro s c s' hb h
  simp only [classDecl, bind_eq_ok] at h
  obtain ⟨first, s₁, h₁, name, s₂, h₂, interfaces, s₃, h₃, span, s₄, h₄, _, s₅, h₅, _, s₆, h₆, items,
    s₇, h₇, h⟩ := h
  obtain ⟨hfirst, hm₁⟩ := expect_sound h₁
  obtain ⟨hname, hm₂⟩ := expect_sound h₂
  have hb₂ := hm₂.bounded (hm₁.bounded hb)
  obtain ⟨ts, hm₃, hts⟩ := implemented_sound s₂ interfaces s₃ hb₂ h₃
  rw [spanFrom_run (hm₁.cons (hm₂.cons hm₃))] at h₄
  cases h₄
  have hm₅ := passing_sound h₅
  have hb₅ := hm₅.bounded (hm₃.bounded hb₂)
  obtain ⟨ns, hm₆, hn⟩ := lineEnd_sound hb₅ h₆
  obtain ⟨us, hm₇, hus⟩ := block_sound classItem_sound classItem_starts s₆ items s₇
    (hm₆.bounded hb₅) h₇
  cases h
  exact ⟨_, hm₁.cons (hm₂.cons ((hm₃.trans (hm₅.nil_trans hm₆)).trans hm₇)),
    .mk hfirst hname hts hn hus⟩

theorem classDecl_complete (n : Nat) : Complete n [] classDecl ClassDeclaration := by
  intro s ts k c hb hr _ _ h
  obtain @⟨first, name, ts, interfaces, ns, us, items, hfirst, hname, hts, hn, hus⟩ := h
  simp only [List.cons_append, List.append_assoc] at hr
  obtain ⟨s₁, h₁, hm₁⟩ := expect_of_next hr hfirst
  have hr₁ := hm₁.rest_of_next hr
  obtain ⟨s₂, h₂, hm₂⟩ := expect_of_next hr₁ hname
  have hb₂ := hm₂.bounded (hm₁.bounded hb)
  have hr₂ := hm₂.rest_of_next hr₁
  obtain ⟨s₃, h₃, hm₃⟩ := implemented_complete ts.length s₂ ts _ interfaces hb₂ hr₂ (Nat.le_refl _)
    (hn.notNext (by decide) _) hts
  have hr₃ := hm₃.rest_eq hr₂
  obtain ⟨s₄, h₄, hm₄⟩ := passing_run (.cls name.text interfaces) s₃
  have hb₄ := hm₄.bounded (hm₃.bounded hb₂)
  have hr₄ := hm₄.rest_eq hr₃
  obtain ⟨s₅, h₅, hm₅⟩ := lineEnd_exact hb₄ hr₄ hn (block_notNext hus (by decide) k)
  obtain ⟨s₆, h₆, hm₆⟩ := block_complete (classItem_complete us.length) classItem_starts (by decide)
    (by decide) s₅ us k items (hm₅.bounded hb₄) (hm₅.rest_eq hr₄) (Nat.le_refl _)
    (by simp [NotNext]) hus
  refine ⟨s₆, ?_, hm₁.cons (hm₂.cons ((hm₃.trans (hm₄.nil_trans hm₅)).trans hm₆))⟩
  rw [classDecl, bind_of_ok h₁, bind_of_ok h₂, bind_of_ok h₃,
    bind_of_ok (spanFrom_run (hm₁.cons (hm₂.cons hm₃))), bind_of_ok h₄, bind_of_ok h₅, bind_of_ok h₆]
  rfl

/-! ### Programs -/

theorem programItem_sound : Sound programItem ProgramPart := by
  intro s item s' hb h
  rw [programItem, bind_of_ok (nextIs_run ..)] at h
  split at h
  · simp only [bind_eq_ok] at h
    obtain ⟨i, s₁, h₁, h⟩ := h
    obtain ⟨ts, hm, hi⟩ := interfaceDecl_sound s i s₁ hb h₁
    cases h
    exact ⟨ts, hm, .interface hi⟩
  rw [bind_of_ok (nextIs_run ..)] at h
  split at h
  · simp only [bind_eq_ok] at h
    obtain ⟨c, s₁, h₁, h⟩ := h
    obtain ⟨ts, hm, hc⟩ := classDecl_sound s c s₁ hb h₁
    cases h
    exact ⟨ts, hm, .cls hc⟩
  · exact absurd h (complain_run_ne_ok _ _ _ _)

theorem interface_starts : Starts [.interfaceWord] Interface := by
  rintro _ _ ⟨hfirst, _, _, _⟩
  exact ⟨_, _, rfl, by simp [hfirst]⟩

theorem class_starts : Starts [.classWord] ClassDeclaration := by
  rintro _ _ ⟨hfirst, _, _, _, _⟩
  exact ⟨_, _, rfl, by simp [hfirst]⟩

theorem programItem_starts : Starts [.interfaceWord, .classWord] ProgramPart := by
  intro ts item h
  cases h with
  | interface h =>
    obtain ⟨t, us, rfl, ht⟩ := interface_starts _ _ h
    exact ⟨t, us, rfl, by simp_all⟩
  | cls h =>
    obtain ⟨t, us, rfl, ht⟩ := class_starts _ _ h
    exact ⟨t, us, rfl, by simp_all⟩

theorem programItem_complete (n : Nat) : Complete n [] programItem ProgramPart := by
  intro s ts k item hb hr hlen hk h
  rw [programItem]
  cases h with
  | interface h =>
    obtain ⟨s₁, h₁, hm₁⟩ := interfaceDecl_complete n s ts k _ hb hr hlen hk h
    obtain ⟨t, us, rfl, ht⟩ := interface_starts _ _ h
    refine ⟨s₁, ?_, hm₁⟩
    rw [bind_of_ok (nextIs_run ..), if_pos (by simpa [peekIs_zero hr] using ht), bind_of_ok h₁]
    rfl
  | cls h =>
    obtain ⟨s₁, h₁, hm₁⟩ := classDecl_complete n s ts k _ hb hr hlen hk h
    obtain ⟨t, us, rfl, ht⟩ := class_starts _ _ h
    have hclass : t.kind = .classWord := by simpa using ht
    refine ⟨s₁, ?_, hm₁⟩
    rw [bind_of_ok (nextIs_run ..), if_neg (by simp [peekIs_zero hr, hclass]),
      bind_of_ok (nextIs_run ..), if_pos (by simp [peekIs_zero hr, hclass]), bind_of_ok h₁]
    rfl

/-- Reading goes on to the end of the tokens. -/
theorem programItems_sound (bound : Nat) (s : Reading) (items : List Program) (s' : Reading)
    (hb : s.Bounded) (hbound : s.cursor.rest.length ≤ bound)
    (h : programItems bound s = .ok items s') :
    s'.cursor.rest = [] ∧ ∃ ts, Moved s ts s' ∧ ProgramParts ts items := by
  induction bound generalizing s items with
  | zero =>
    cases h
    exact ⟨List.length_eq_zero_iff.mp (Nat.le_zero.mp hbound), [], Moved.refl _, .nil⟩
  | succ bound ih =>
    rw [programItems, bind_of_ok (cursor_run s)] at h
    split at h
    · next hdone =>
      cases h
      exact ⟨by simpa [Cursor.done] using hdone, [], Moved.refl _, .nil⟩
    · simp only [bind_eq_ok] at h
      obtain ⟨item, s₁, h₁, _, s₂, h₂, items', s₃, h₃, h⟩ := h
      cases h
      obtain ⟨ts, hm₁, hitem⟩ := programItem_sound s item s₁ hb h₁
      have hb₁ := hm₁.bounded hb
      obtain ⟨ns, hm₂, hn⟩ := skipNewlines_sound hb₁ h₂
      have hshort : s₂.cursor.rest.length ≤ bound := by
        have hts := List.length_pos_iff.mpr (programItem_starts.ne_nil hitem)
        rw [hm₁.rest, hm₂.rest] at hbound
        simp only [List.length_append] at hbound
        omega
      obtain ⟨hend, us, hm₃, hus⟩ := ih s₂ items' (hm₂.bounded hb₁) hshort h₃
      exact ⟨hend, _, (hm₁.trans hm₂).trans hm₃, .cons hitem hn hus⟩

theorem programParts_notNext {ts : List Token} {items : List Program}
    (h : ProgramParts ts items) : NotNext [.newline] ts := by
  cases h with
  | nil => exact notNext_nil _
  | cons hitem _ _ =>
    rw [List.append_assoc]
    exact programItem_starts.notNext hitem _ (by decide)

theorem programItems_complete {ts : List Token} {items : List Program}
    (h : ProgramParts ts items) (bound : Nat) (s : Reading) (hb : s.Bounded)
    (hr : s.cursor.rest = ts) (hbound : ts.length ≤ bound) :
    ∃ s', programItems bound s = .ok items s' := by
  induction h generalizing bound s with
  | nil =>
    refine ⟨s, ?_⟩
    cases bound with
    | zero => rfl
    | succ bound =>
      rw [programItems, bind_of_ok (cursor_run s), if_pos (by simp [Cursor.done, hr])]
      rfl
  | @cons ts item ns us items hitem hn hus ih =>
    rw [List.append_assoc] at hr
    simp only [List.length_append] at hbound
    have hts := List.length_pos_iff.mpr (programItem_starts.ne_nil hitem)
    obtain ⟨s₁, h₁, hm₁⟩ := programItem_complete ts.length s ts _ item hb hr (Nat.le_refl _)
      (by simp [NotNext]) hitem
    have hb₁ := hm₁.bounded hb
    have hr₁ := hm₁.rest_eq hr
    obtain ⟨s₂, h₂, hm₂⟩ := skipNewlines_exact hb₁ hr₁ hn (programParts_notNext hus)
    cases bound with
    | zero => omega
    | succ bound =>
      obtain ⟨s₃, h₃⟩ := ih bound s₂ (hm₂.bounded hb₁) (hm₂.rest_eq hr₁) (by omega)
      refine ⟨s₃, ?_⟩
      have hmore : ¬ s.cursor.done = true := by
        intro hdone
        rw [Cursor.done, List.isEmpty_iff, hr, List.append_eq_nil_iff] at hdone
        rw [hdone.1] at hts
        simp at hts
      rw [programItems, bind_of_ok (cursor_run s), if_neg hmore, bind_of_ok h₁, bind_of_ok h₂,
        bind_of_ok h₃]
      rfl

theorem bounded_ofTokens (ts : List Token) : (Reading.ofTokens ts).Bounded := Nat.le_refl _

theorem parse_eq_ok {ts : List Token} {p : Program} :
    parse ts = .ok p ↔ ∃ s', program (.ofTokens ts) = .ok p s' := by
  unfold parse Parsed.ofTokens EStateM.run
  cases h : program (.ofTokens ts) with
  | ok q s' => simp
  | error e s' => simp

theorem wholeProgram_of_parse {ts : List Token} {p : Program} (h : parse ts = .ok p) :
    WholeProgram ts p := by
  obtain ⟨s', h⟩ := parse_eq_ok.mp h
  simp only [program, bind_eq_ok] at h
  obtain ⟨_, s₁, h₁, items, s₂, h₂, h⟩ := h
  cases h
  obtain ⟨ns, hm₁, hn⟩ := skipNewlines_sound (bounded_ofTokens ts) h₁
  have hb₁ := hm₁.bounded (bounded_ofTokens ts)
  obtain ⟨hend, us, hm₂, hus⟩ := programItems_sound s₁.count s₁ items s' hb₁ hb₁ h₂
  have hts : ts = ns ++ us := by
    have hrest := (hm₁.trans hm₂).rest
    rwa [hend, List.append_nil] at hrest
  rw [hts]
  exact .mk hn hus

theorem parse_of_wholeProgram {ts : List Token} {p : Program} (h : WholeProgram ts p) :
    parse ts = .ok p := by
  obtain @⟨ns, us, items, hn, hus⟩ := h
  obtain ⟨s₁, h₁, hm₁⟩ := skipNewlines_exact (bounded_ofTokens (ns ++ us)) rfl hn
    (programParts_notNext hus)
  have hb₁ := hm₁.bounded (bounded_ofTokens _)
  have hr₁ : s₁.cursor.rest = us := hm₁.rest_eq rfl
  obtain ⟨s₂, h₂⟩ := programItems_complete hus s₁.count s₁ hb₁ hr₁ (by rw [← hr₁]; exact hb₁)
  refine parse_eq_ok.mpr ⟨s₂, ?_⟩
  rw [program, bind_of_ok h₁, bind_of_ok (withBound_of_ok h₂)]
  rfl

end Offside.Parser

namespace Offside

/-- **Reading accepts exactly the grammar**: a sequence of tokens is read as a program if and only if
it derives that program, and it derives no other. -/
theorem parse_derives (ts : List Token) :
    (∀ p, parse ts = .ok p ↔ Grammar.WholeProgram ts p) ∧
      ∀ p q, Grammar.WholeProgram ts p → Grammar.WholeProgram ts q → p = q := by
  refine ⟨fun p => ⟨Parser.wholeProgram_of_parse, Parser.parse_of_wholeProgram⟩, ?_⟩
  intro p q hp hq
  have hpq := (Parser.parse_of_wholeProgram hp).symm.trans (Parser.parse_of_wholeProgram hq)
  injection hpq

end Offside
