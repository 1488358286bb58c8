import Offside.Proofs.Grammar.Blame

/-! Readers do not look past the token that they blame.

Two readings are twins over some tokens if they took the same and have those next. `Follows p q s₁
s₂` says that whatever `p` does from `s₁`, `q` does from `s₂`, provided that they are twins over
what `p` takes and one token more; for a failure that is one token more than what was read ahead of
the one that is blamed. What stands after that may differ, and so may the number of tokens that
bounds the repetitions, so `Prompt` relates two readers. It also says that the first of them only
ever goes forward.

Most dispatch is on the next token. Where it is on one further on, the reader that was chosen is
shown to reach that token (`Reaches`) before it can succeed or fail. -/
namespace Offside

namespace Reading

theorem Moved.unique {s s' : Reading} {ts us : List Token} (h : Moved s ts s')
    (h' : Moved s us s') : ts = us := by
  have hrest := h.rest
  rw [h'.rest] at hrest
  exact (List.append_cancel_right hrest).symm

/-- No more tokens are left than were counted, nor than a bound. -/
structure Fits (n : Nat) (s : Reading) : Prop where
  bounded : s.Bounded
  length : s.cursor.rest.length ≤ n

theorem Fits.mono {m n : Nat} {s : Reading} (h : s.Fits m) (hmn : m ≤ n) : s.Fits n :=
  ⟨h.bounded, Nat.le_trans h.length hmn⟩

theorem Fits.moved {n k : Nat} {s s' : Reading} {ts : List Token} (h : s.Fits n)
    (hm : Moved s ts s')
    (hk : k ≤ ts.length) : s'.Fits (n - k) := by
  have hlen := h.length
  rw [hm.rest, List.length_append] at hlen
  exact ⟨hm.bounded h.bounded, by omega⟩

/-- A token that is found some places on is there. -/
theorem next_of_peekIs {s : Reading} (ts : List Token) {k : List Token} {kinds : List Kind}
    (hr : s.cursor.rest = ts ++ k)
    (h : s.cursor.peekIs (.ofNat ts.length) kinds = true) : ∃ u k', k = u :: k' ∧
    u.kind ∈ kinds := by
  have hpeek : s.cursor.peek? (.ofNat ts.length) = k.head? := by
    show s.cursor.rest[ts.length]? = k.head?
    rw [hr, List.getElem?_append_right (Nat.le_refl _), Nat.sub_self, List.head?_eq_getElem?]
  rw [Cursor.peekIs, hpeek] at h
  cases k with
  | nil => cases h
  | cons u k => exact ⟨u, k, rfl, by simpa using h⟩

/-- The same place in front of other tokens. -/
def onto (s : Reading) (ts : List Token) : Reading := ⟨⟨s.cursor.taken, ts⟩, [], ts.length⟩

theorem onto_bounded (s : Reading) (ts : List Token) : (s.onto ts).Bounded := Nat.le_refl _

/-- Two readings that took the same tokens and have the same tokens next. -/
structure Twin (s₁ s₂ : Reading) (ts : List Token) : Prop where
  taken : s₂.cursor.taken = s₁.cursor.taken
  left : ts <+: s₁.cursor.rest
  right : ts <+: s₂.cursor.rest

variable {s₁ s₁' s₂ s₂' : Reading} {ts us : List Token}

theorem Twin.of_prefix (h : Twin s₁ s₂ ts) (hus : us <+: ts) : Twin s₁ s₂ us :=
  ⟨h.taken, hus.trans h.left, hus.trans h.right⟩

theorem Twin.moved (h : Twin s₁ s₂ (ts ++ us)) (h₁ : Moved s₁ ts s₁') (h₂ : Moved s₂ ts s₂') :
    Twin s₁' s₂' us := by
  obtain ⟨htaken, hleft, hright⟩ := h
  rw [h₁.rest, List.prefix_append_right_inj] at hleft
  rw [h₂.rest, List.prefix_append_right_inj] at hright
  exact ⟨by rw [h₁.taken, h₂.taken, htaken], hleft, hright⟩

theorem Twin.next {t : Token} (h : Twin s₁ s₂ (t :: ts)) :
    ∃ k₁ k₂, s₁.cursor.rest = t :: k₁ ∧ s₂.cursor.rest = t :: k₂ := by
  obtain ⟨k₁, h₁⟩ := h.left
  obtain ⟨k₂, h₂⟩ := h.right
  exact ⟨ts ++ k₁, ts ++ k₂, h₁.symm, h₂.symm⟩

end Reading

namespace Parser

open Reading Grammar

variable {α β : Type} {n₁ n₂ : Nat} {p q : Parser α}

/-! ### Going forward -/

/-- The reader only ever takes tokens, and a token that it took and blames is the last of them. -/
structure Forward (p : Parser α) : Prop where
  ok : ∀ s a s', s.Bounded → p s = .ok a s' → ∃ ts, Moved s ts s'
  error : ∀ s e s', s.Bounded → p s = .error e s' → ∃ ts, Moved s ts s' ∧ e.Ends ts

theorem Forward.bind {f : α → Parser β} (hp : Forward p) (hf : ∀ a, Forward (f a)) :
    Forward (p >>= f) := by
  constructor
  · intro s b s'' hb h
    obtain ⟨a, s', h₁, h₂⟩ := bind_eq_ok.mp h
    obtain ⟨ts, hm₁⟩ := hp.ok s a s' hb h₁
    obtain ⟨us, hm₂⟩ := (hf a).ok s' b s'' (hm₁.bounded hb) h₂
    exact ⟨ts ++ us, hm₁.trans hm₂⟩
  · intro s e s'' hb h
    rcases bind_eq_error.mp h with h | ⟨a, s', h₁, h₂⟩
    · exact hp.error s e s'' hb h
    · obtain ⟨ts, hm₁⟩ := hp.ok s a s' hb h₁
      obtain ⟨us, hm₂, hends⟩ := (hf a).error s' e s'' (hm₁.bounded hb) h₂
      exact ⟨ts ++ us, hm₁.trans hm₂, hends.append ts⟩

theorem Leads.forward {V : List Token → Prop} {L : Language α} (h : Leads V p) (hs : Sound p L) :
    Forward p := by
  constructor
  · intro s a s' hb h'
    obtain ⟨ts, hm, -⟩ := hs s a s' hb h'
    exact ⟨ts, hm⟩
  · intro s e s' hb h'
    obtain ⟨ts, hm, hends, -⟩ := h.fails s hb e s' h'
    exact ⟨ts, hm, hends⟩

theorem Never.forward {L : Language α} (h : Never p) (hs : Sound p L) : Forward p := by
  have hleads : Leads (fun _ => True) p := h.leads ⟨[], trivial⟩
  exact hleads.forward hs

theorem Still.forward (h : Still p) : Forward p := by
  constructor
  · intro s a s' _ h'
    obtain ⟨a₁, s₁, h₁, hm⟩ := h s
    rw [h₁] at h'
    cases h'
    exact ⟨[], hm⟩
  · intro s e s' _ h'
    exact absurd h' (h.never s e s')

theorem pure_still (a : α) : Still (pure a : Parser α) := fun s => ⟨a, s, rfl, Moved.refl s⟩

theorem pure_forward (a : α) : Forward (pure a : Parser α) := (pure_still a).forward

/-- A reader that fails at once. -/
theorem forward_of_error (h : ∀ s, ∃ e, p s = .error e s ∧ e.taken? = none) : Forward p := by
  constructor
  · intro s a s' _ h'
    obtain ⟨e, he, -⟩ := h s
    rw [he] at h'
    cases h'
  · intro s e s' _ h'
    obtain ⟨e₁, he, hnone⟩ := h s
    rw [he] at h'
    cases h'
    exact ⟨[], Moved.refl s, ParseError.ends_of_none hnone []⟩

/-! ### Promptness -/

/-- What one reader does from `s₁` the other does from `s₂`, if it is told by tokens that both have.
-/
structure Follows (p q : Parser α) (s₁ s₂ : Reading) : Prop where
  ok : ∀ ts t a s₁', Twin s₁ s₂ (ts ++ [t]) → p s₁ = .ok a s₁' → Moved s₁ ts s₁' →
    ∃ s₂', q s₂ = .ok a s₂' ∧ Moved s₂ ts s₂'
  error : ∀ ts t e s₁', Twin s₁ s₂ (e.ahead ts ++ [t]) → p s₁ = .error e s₁' → Moved s₁ ts s₁' →
    ∃ s₂', q s₂ = .error e s₂'

/-- The readers follow each other wherever at most so many tokens are left. -/
structure Prompt (n₁ n₂ : Nat) (p q : Parser α) : Prop where
  forward : Forward p
  follows : ∀ s₁ s₂, s₁.Fits n₁ → s₂.Fits n₂ → Follows p q s₁ s₂

theorem Prompt.mono {m₁ m₂ : Nat} (h : Prompt n₁ n₂ p q) (h₁ : m₁ ≤ n₁) (h₂ : m₂ ≤ n₂) :
    Prompt m₁ m₂ p q :=
  ⟨h.forward, fun s₁ s₂ hs₁ hs₂ => h.follows s₁ s₂ (hs₁.mono h₁) (hs₂.mono h₂)⟩

/-- Both readers succeed, with the same. -/
theorem Follows.of_oks {s₁ s₁' s₂ s₂' : Reading} {ts : List Token} {a : α} (h₁ : p s₁ = .ok a s₁')
    (hm₁ : Moved s₁ ts s₁')
    (h₂ : q s₂ = .ok a s₂') (hm₂ : Moved s₂ ts s₂') : Follows p q s₁ s₂ := by
  constructor
  · intro us t b s' _ h hm
    rw [h₁] at h
    cases h
    obtain rfl := hm.unique hm₁
    exact ⟨s₂', h₂, hm₂⟩
  · intro us t e s' _ h _
    rw [h₁] at h
    cases h

/-- Both readers fail, in the same way. -/
theorem Follows.of_errors {s₁ s₁' s₂ s₂' : Reading} {e₁ e₂ : ParseError} (h₁ : p s₁ = .error e₁ s₁')
    (h₂ : q s₂ = .error e₂ s₂') (he : e₂ = e₁) : Follows p q s₁ s₂ := by
  subst he
  constructor
  · intro us t b s' _ h _
    rw [h₁] at h
    cases h
  · intro us t e s' _ h _
    rw [h₁] at h
    cases h
    exact ⟨s₂', h₂⟩

/-- Both readings have a next token, and it is the same. -/
theorem Follows.of_next {s₁ s₂ : Reading}
    (h : ∀ t k₁ k₂, s₂.cursor.taken = s₁.cursor.taken → s₁.cursor.rest = t :: k₁ →
      s₂.cursor.rest = t :: k₂ →
      Follows p q s₁ s₂) : Follows p q s₁ s₂ := by
  have hnext : ∀ ts t, Twin s₁ s₂ (ts ++ [t]) → Follows p q s₁ s₂ := by
    intro ts t htwin
    cases ts with
    | nil =>
      obtain ⟨k₁, k₂, hr₁, hr₂⟩ := htwin.next
      exact h t k₁ k₂ htwin.taken hr₁ hr₂
    | cons u ts =>
      obtain ⟨k₁, k₂, hr₁, hr₂⟩ := htwin.next
      exact h u k₁ k₂ htwin.taken hr₁ hr₂
  exact ⟨fun ts t a s₁' htwin => (hnext ts t htwin).ok ts t a s₁' htwin,
    fun ts t e s₁' htwin => (hnext _ t htwin).error ts t e s₁' htwin⟩

theorem Prompt.zero_left (h : Forward p) : Prompt 0 n₂ p q := by
  refine ⟨h, fun s₁ s₂ hs₁ _ => .of_next fun t k₁ k₂ _ hr₁ _ => ?_⟩
  have hlen := hs₁.length
  rw [hr₁] at hlen
  exact absurd hlen (Nat.not_succ_le_zero _)

theorem Prompt.zero_right (h : Forward p) : Prompt n₁ 0 p q := by
  refine ⟨h, fun s₁ s₂ _ hs₂ => .of_next fun t k₁ k₂ _ _ hr₂ => ?_⟩
  have hlen := hs₂.length
  rw [hr₂] at hlen
  exact absurd hlen (Nat.not_succ_le_zero _)

theorem Follows.bind {f g : α → Parser β} {s₁ s₂ : Reading} (hb : s₁.Bounded) (hp : Forward p)
    (hforward : ∀ a, Forward (f a)) (h : Follows p q s₁ s₂)
    (hf : ∀ ts a s₁' s₂', p s₁ = .ok a s₁' → Moved s₁ ts s₁' → Moved s₂ ts s₂' →
    Follows (f a) (g a) s₁' s₂') :
    Follows (p >>= f) (q >>= g) s₁ s₂ := by
  -- What was read first is followed, since more tokens come after it.
  have hfirst : ∀ ts us t a s₁', Twin s₁ s₂ (ts ++ (us ++ [t])) → p s₁ = .ok a s₁' →
    Moved s₁ ts s₁' →
      ∃ s₂', q s₂ = .ok a s₂' ∧ Moved s₂ ts s₂' ∧ Twin s₁' s₂' (us ++ [t]) := by
    intro ts us t a s₁' htwin h₁ hm₁
    obtain ⟨u, vs, hu⟩ : ∃ u vs, us ++ [t] = u :: vs := by
      cases us with
      | nil => exact ⟨t, [], rfl⟩
      | cons u us => exact ⟨u, us ++ [t], rfl⟩
    have hnext : ts ++ [u] <+: ts ++ (us ++ [t]) := by
      rw [hu, List.prefix_append_right_inj]
      exact ⟨vs, rfl⟩
    obtain ⟨s₂', h₂, hm₂⟩ := h.ok ts u a s₁' (htwin.of_prefix hnext) h₁ hm₁
    exact ⟨s₂', h₂, hm₂, htwin.moved hm₁ hm₂⟩
  constructor
  · intro vs t b s₁'' htwin hrun hm
    obtain ⟨a, s₁', h₁, hrun⟩ := bind_eq_ok.mp hrun
    obtain ⟨ts, hm₁⟩ := hp.ok s₁ a s₁' hb h₁
    obtain ⟨us, hm₂⟩ := (hforward a).ok s₁' b s₁'' (hm₁.bounded hb) hrun
    obtain rfl := hm.unique (hm₁.trans hm₂)
    rw [List.append_assoc] at htwin
    obtain ⟨s₂', h₂, hmoved, htwin'⟩ := hfirst ts us t a s₁' htwin h₁ hm₁
    obtain ⟨s₂'', h₂', hmoved'⟩ := (hf ts a s₁' s₂' h₁ hm₁ hmoved).ok us t b s₁'' htwin' hrun hm₂
    refine ⟨s₂'', ?_, hmoved.trans hmoved'⟩
    rw [bind_of_ok h₂, h₂']
  · intro vs t e s₁'' htwin hrun hm
    rcases bind_eq_error.mp hrun with hrun | ⟨a, s₁', h₁, hrun⟩
    · obtain ⟨s₂', h₂⟩ := h.error vs t e s₁'' htwin hrun hm
      exact ⟨s₂', bind_eq_error.mpr (.inl h₂)⟩
    · obtain ⟨ts, hm₁⟩ := hp.ok s₁ a s₁' hb h₁
      obtain ⟨us, hm₂, hends⟩ := (hforward a).error s₁' e s₁'' (hm₁.bounded hb) hrun
      obtain rfl := hm.unique (hm₁.trans hm₂)
      rw [e.ahead_append hends, List.append_assoc] at htwin
      obtain ⟨s₂', h₂, hmoved, htwin'⟩ := hfirst ts _ t a s₁' htwin h₁ hm₁
      obtain ⟨s₂'', h₂'⟩ := (hf ts a s₁' s₂' h₁ hm₁ hmoved).error us t e s₁'' htwin' hrun hm₂
      refine ⟨s₂'', ?_⟩
      rw [bind_of_ok h₂, h₂']

/-- One reader after another, where the first takes at least `k a` tokens to return `a`. -/
theorem Prompt.bind_of_takes {f g : α → Parser β} (hp : Prompt n₁ n₂ p q) (k : α → Nat)
    (hk : ∀ s ts a s', s.Bounded → p s = .ok a s' → Moved s ts s' → k a ≤ ts.length)
    (hf : ∀ a, Prompt (n₁ - k a) (n₂ - k a) (f a) (g a)) : Prompt n₁ n₂ (p >>= f) (q >>= g) := by
  refine ⟨hp.forward.bind fun a => (hf a).forward, fun s₁ s₂ hs₁ hs₂ => ?_⟩
  refine .bind hs₁.bounded hp.forward (fun a => (hf a).forward) (hp.follows s₁ s₂ hs₁ hs₂)
    fun ts a s₁' s₂' h₁ hm₁ hm₂ => ?_
  have htakes := hk s₁ ts a s₁' hs₁.bounded h₁ hm₁
  exact (hf a).follows s₁' s₂' (hs₁.moved hm₁ htakes) (hs₂.moved hm₂ htakes)

theorem Prompt.bind {f g : α → Parser β} (hp : Prompt n₁ n₂ p q)
    (hf : ∀ a, Prompt n₁ n₂ (f a) (g a)) :
    Prompt n₁ n₂ (p >>= f) (q >>= g) :=
  hp.bind_of_takes (fun _ => 0) (fun _ _ _ _ _ _ _ => Nat.zero_le _) hf

/-- A reader of a language without the empty sequence takes a token. -/
theorem Prompt.bind_of_starts {L : Language α} {kinds : List Kind} {f g : α → Parser β}
    (hp : Prompt n₁ n₂ p q)
    (hs : Sound p L) (hstart : Starts kinds L) (hf : ∀ a, Prompt (n₁ - 1) (n₂ - 1) (f a) (g a)) :
    Prompt n₁ n₂ (p >>= f) (q >>= g) := by
  refine hp.bind_of_takes (fun _ => 1) (fun s ts a s' hb h hm => ?_) hf
  obtain ⟨us, hm', hl⟩ := hs s a s' hb h
  obtain rfl := hm.unique hm'
  exact List.length_pos_iff.mpr (hstart.ne_nil hl)

theorem pure_prompt (a : α) : Prompt n₁ n₂ (pure a : Parser α) (pure a) :=
  ⟨pure_forward a, fun s₁ s₂ _ _ => .of_oks rfl (Moved.refl s₁) rfl (Moved.refl s₂)⟩

/-! ### Single tokens -/

theorem nextIs_prompt (kinds : List Kind) : Prompt n₁ n₂ (nextIs 0 kinds) (nextIs 0 kinds) := by
  refine ⟨(nextIs_still 0 kinds).forward, fun s₁ s₂ _ _ => .of_next fun t k₁ k₂ _ hr₁ hr₂ => ?_⟩
  have hpeek : s₂.cursor.peekIs 0 kinds = s₁.cursor.peekIs 0 kinds :=
    by rw [peekIs_zero hr₁, peekIs_zero hr₂]
  exact .of_oks rfl (Moved.refl s₁) (by rw [nextIs_run, hpeek]) (Moved.refl s₂)

theorem position_prompt : Prompt n₁ n₂ position position := by
  refine ⟨position_still.forward, fun s₁ s₂ _ _ => .of_next fun t k₁ k₂ _ hr₁ hr₂ => ?_⟩
  exact .of_oks (position_run hr₁) (Moved.refl s₁) (position_run hr₂) (Moved.refl s₂)

theorem spanFrom_prompt (start : Position) : Prompt n₁ n₂ (spanFrom start) (spanFrom start) := by
  refine ⟨(spanFrom_still start).forward, fun s₁ s₂ _ _ => .of_next fun t k₁ k₂ htaken _ _ => ?_⟩
  have hspan : ∀ s : Reading, spanFrom start s =
      .ok (s.cursor.taken[0]?.elim (.single start) fun last => ⟨start, last.span.stop⟩) s := by
    intro s
    rw [spanFrom, bind_of_ok (cursor_run s)]
    have hpeek : s.cursor.peek? (-1) = s.cursor.taken[0]? := rfl
    cases hlast : s.cursor.taken[0]? <;> simp [hpeek, hlast]
  exact .of_oks (hspan s₁) (Moved.refl s₁) (by rw [hspan, htaken]) (Moved.refl s₂)

theorem passing_prompt (m : Milestone) : Prompt n₁ n₂ (passing m) (passing m) := by
  refine ⟨(passing_still m).forward, fun s₁ s₂ _ _ => ?_⟩
  obtain ⟨s₁', h₁, hm₁⟩ := passing_run m s₁
  obtain ⟨s₂', h₂, hm₂⟩ := passing_run m s₂
  exact .of_oks h₁ hm₁ h₂ hm₂

theorem complaint_of_next {c₁ c₂ : Cursor} {t : Token} {k₁ k₂ : List Token}
    (hr₁ : c₁.rest = t :: k₁)
    (hr₂ : c₂.rest = t :: k₂) (kinds : List Kind) : c₂.complaint kinds = c₁.complaint kinds := by
  simp only [Cursor.complaint, hr₁, hr₂]

theorem complain_forward (kinds : List Kind) : Forward (complain kinds : Parser α) :=
  forward_of_error fun _ => ⟨_, rfl, Cursor.complaint_taken? _ kinds⟩

theorem complain_prompt (kinds : List Kind) :
    Prompt n₁ n₂ (complain kinds : Parser α) (complain kinds) := by
  have hrun : ∀ s, (complain kinds : Parser α) s = .error (s.cursor.complaint kinds) s :=
    fun _ => rfl
  refine ⟨complain_forward kinds, fun s₁ s₂ _ _ => ?_⟩
  exact .of_next fun t k₁ k₂ _ hr₁ hr₂ =>
    .of_errors (hrun s₁) (hrun s₂) (complaint_of_next hr₁ hr₂ kinds)

/-- A reader that fails where the next token stands. -/
theorem blame_prompt {cause : ParseCause} (hp : ∀ s, p s = .error ⟨cause, s.cursor.location⟩ s)
    (hcause : ∀ span, (ParseError.mk cause span).taken? = none) : Prompt n₁ n₂ p p := by
  refine ⟨forward_of_error fun s => ⟨_, hp s, hcause _⟩, fun s₁ s₂ _ _ => ?_⟩
  refine .of_next fun t k₁ k₂ _ hr₁ hr₂ => .of_errors (hp s₁) (hp s₂) ?_
  simp only [Cursor.location, hr₁, hr₂]

theorem expectAny_of_notNext {kinds : List Kind} {s : Reading} (h : NotNext kinds s.cursor.rest) :
    expectAny kinds s = .error (s.cursor.complaint kinds) s := by
  cases hrun : expectAny kinds s with
  | error e s' =>
    obtain ⟨rfl, rfl⟩ := expectAny_eq_error hrun
    rfl
  | ok t s' =>
    obtain ⟨ht, hm⟩ := expectAny_sound hrun
    rw [hm.rest] at h
    exact absurd ht (by simpa using h)

theorem expectAny_forward (kinds : List Kind) : Forward (expectAny kinds) := by
  have hleads : Leads (fun _ => True) (expectAny kinds) := expectAny_leads ⟨[], trivial⟩
  exact hleads.forward (oneOf_sound kinds)

theorem expectAny_prompt (kinds : List Kind) :
    Prompt n₁ n₂ (expectAny kinds) (expectAny kinds) := by
  refine ⟨expectAny_forward kinds, fun s₁ s₂ _ _ => .of_next fun t k₁ k₂ _ hr₁ hr₂ => ?_⟩
  by_cases ht : t.kind ∈ kinds
  · obtain ⟨s₁', h₁, hm₁⟩ := expectAny_of_next kinds hr₁ ht
    obtain ⟨s₂', h₂, hm₂⟩ := expectAny_of_next kinds hr₂ ht
    exact .of_oks h₁ hm₁ h₂ hm₂
  · have h₁ : expectAny kinds s₁ = _ := expectAny_of_notNext (by simpa [hr₁] using ht)
    have h₂ : expectAny kinds s₂ = _ := expectAny_of_notNext (by simpa [hr₂] using ht)
    exact .of_errors h₁ h₂ (complaint_of_next hr₁ hr₂ kinds)

theorem Prompt.expectAny {kinds : List Kind} {f g : Token → Parser α}
    (hf : ∀ t, Prompt (n₁ - 1) (n₂ - 1) (f t) (g t)) :
    Prompt n₁ n₂ (expectAny kinds >>= f) (expectAny kinds >>= g) := by
  refine (expectAny_prompt kinds).bind_of_takes (fun _ => 1) (fun s ts a s' _ h hm => ?_) hf
  obtain rfl := hm.unique (expectAny_sound h).2
  exact Nat.le_refl 1

theorem Prompt.expect {kind : Kind} {f g : Token → Parser α}
    (hf : ∀ t, Prompt (n₁ - 1) (n₂ - 1) (f t) (g t)) :
    Prompt n₁ n₂ (expect kind >>= f) (expect kind >>= g) := .expectAny hf

theorem accept_prompt (kind : Kind) : Prompt n₁ n₂ (accept kind) (accept kind) := by
  refine ⟨(accept_never kind).forward (accepted_sound kind), fun s₁ s₂ _ _ =>
    .of_next fun t k₁ k₂ _ hr₁ hr₂ => ?_⟩
  by_cases ht : t.kind = kind
  · obtain ⟨s₁', h₁, hm₁⟩ := accept_of_next hr₁ ht
    obtain ⟨s₂', h₂, hm₂⟩ := accept_of_next hr₂ ht
    exact .of_oks h₁ hm₁ h₂ hm₂
  · have h₁ : accept kind s₁ = .ok false s₁ := accept_of_notNext (by simpa [hr₁] using ht)
    have h₂ : accept kind s₂ = .ok false s₂ := accept_of_notNext (by simpa [hr₂] using ht)
    exact .of_oks h₁ (Moved.refl s₁) h₂ (Moved.refl s₂)

theorem Prompt.accept {kind : Kind} {f g : Bool → Parser α}
    (hyes : Prompt (n₁ - 1) (n₂ - 1) (f true) (g true))
    (hno : Prompt n₁ n₂ (f false) (g false)) :
    Prompt n₁ n₂ (accept kind >>= f) (accept kind >>= g) := by
  refine (accept_prompt kind).bind_of_takes Bool.toNat (fun s ts b s' _ h hm => ?_) fun b => ?_
  · rcases accept_cases h with ⟨rfl, t, -, hm'⟩ | ⟨rfl, -, -⟩
    · obtain rfl := hm.unique hm'
      exact Nat.le_refl 1
    · exact Nat.zero_le _
  · cases b with
    | false => exact hno
    | true => exact hyes

/-! ### Repetitions -/

/-- A repetition with an argument that changes from round to round, each of which takes a token. -/
theorem Prompt.loopWith {ι : Type} {P Q : Nat → ι → Parser α} (hzero : ∀ i, Forward (P 0 i))
    (hstep : ∀ b₁ b₂ m₁ m₂, m₁ ≤ n₁ → m₂ ≤ n₂ → (∀ i, Prompt (m₁ - 1) (m₂ - 1) (P b₁ i) (Q b₂ i)) →
      ∀ i, Prompt m₁ m₂ (P (b₁ + 1) i) (Q (b₂ + 1) i)) (i : ι) :
    Prompt n₁ n₂ (withBound fun b => P b i) (withBound fun b => Q b i) := by
  have hbounds : ∀ b₁ b₂ m₁ m₂, m₁ ≤ n₁ → m₂ ≤ n₂ → m₁ ≤ b₁ → m₂ ≤ b₂ →
    ∀ i, Prompt m₁ m₂ (P b₁ i) (Q b₂ i) := by
    intro b₁
    induction b₁ with
    | zero =>
      intro b₂ m₁ m₂ _ _ hb₁ _ i
      obtain rfl := Nat.le_zero.mp hb₁
      exact .zero_left (hzero i)
    | succ b₁ ih =>
      intro b₂ m₁ m₂ h₁ h₂ hb₁ hb₂ i
      cases b₂ with
      | zero =>
        obtain rfl := Nat.le_zero.mp hb₂
        have hrest : ∀ i, Prompt (m₁ - 1) (0 - 1) (P b₁ i) (Q 0 i) :=
          ih 0 (m₁ - 1) 0 (by omega) h₂ (by omega) hb₂
        exact .zero_right (hstep b₁ 0 m₁ 0 h₁ h₂ hrest i).forward
      | succ b₂ => exact hstep b₁ b₂ m₁ m₂ h₁ h₂ (ih b₂ _ _ (by omega) (by omega) (by omega) (by omega)) i
  have hforward : Forward (withBound fun b => P b i) := by
    refine ⟨fun s => ?_, fun s => ?_⟩
    · exact (hbounds s.count 0 0 0 (Nat.zero_le _) (Nat.zero_le _) (Nat.zero_le _) (Nat.zero_le _)
        i).forward.ok s
    · exact (hbounds s.count 0 0 0 (Nat.zero_le _) (Nat.zero_le _) (Nat.zero_le _) (Nat.zero_le _)
        i).forward.error s
  refine ⟨hforward, fun s₁ s₂ hs₁ hs₂ => ?_⟩
  have hrounds := hbounds s₁.count s₂.count _ _ hs₁.length hs₂.length hs₁.bounded hs₂.bounded i
  have hfollows := hrounds.follows s₁ s₂ ⟨hs₁.bounded, Nat.le_refl _⟩ ⟨hs₂.bounded, Nat.le_refl _⟩
  exact ⟨hfollows.ok, hfollows.error⟩

theorem Prompt.loop {P Q : Nat → Parser α} (hzero : Forward (P 0))
    (hstep : ∀ b₁ b₂ m₁ m₂, m₁ ≤ n₁ → m₂ ≤ n₂ → Prompt (m₁ - 1) (m₂ - 1) (P b₁) (Q b₂) →
      Prompt m₁ m₂ (P (b₁ + 1)) (Q (b₂ + 1))) : Prompt n₁ n₂ (withBound P) (withBound Q) :=
  Prompt.loopWith (P := fun b (_ : Unit) => P b) (Q := fun b (_ : Unit) => Q b) (fun _ => hzero)
    (fun b₁ b₂ m₁ m₂ h₁ h₂ ih _ => hstep b₁ b₂ m₁ m₂ h₁ h₂ (ih ())) ()

theorem countOf_prompt (kind : Kind) :
    Prompt n₁ n₂ (withBound (countOf kind)) (withBound (countOf kind)) := by
  refine .loop (pure_forward 0) fun b₁ b₂ m₁ m₂ _ _ ih => ?_
  exact .accept (ih.bind fun _ => pure_prompt _) (pure_prompt _)

theorem skipNewlines_prompt : Prompt n₁ n₂ skipNewlines skipNewlines :=
  (countOf_prompt .newline).bind fun _ => pure_prompt _

theorem lineEnd_prompt : Prompt n₁ n₂ lineEnd lineEnd := .expect fun _ => skipNewlines_prompt

section Lists
variable {item item' : Parser α}

theorem afterSeparators_prompt {separator : Kind} (hitem : Prompt n₁ n₂ item item') :
    Prompt n₁ n₂ (withBound (afterSeparators separator item))
      (withBound (afterSeparators separator item')) := by
  refine .loop (pure_forward []) fun b₁ b₂ m₁ m₂ h₁ h₂ ih => .accept ?_ (pure_prompt _)
  exact (hitem.mono (by omega) (by omega)).bind fun _ => ih.bind fun _ => pure_prompt _

theorem separated_prompt {separator : Kind} (hitem : Prompt n₁ n₂ item item') :
    Prompt n₁ n₂ (separated separator item) (separated separator item') :=
  hitem.bind fun _ => (afterSeparators_prompt hitem).bind fun _ => pure_prompt _

theorem block_prompt {L : Language α} {kinds : List Kind} (hs : Sound item L)
    (hstart : Starts kinds L)
    (hitem : Prompt n₁ n₂ item item') : Prompt n₁ n₂ (block item) (block item') := by
  refine .expect fun _ =>
    .loop (hitem.forward.bind fun _ => pure_forward _) fun b₁ b₂ m₁ m₂ h₁ h₂ ih => ?_
  refine skipNewlines_prompt.bind fun _ => .accept (pure_prompt _) ?_
  exact (hitem.mono (by omega) (by omega)).bind_of_starts hs hstart fun _ => ih.bind fun _ =>
    pure_prompt _

end Lists

/-! ### Looking further -/

/-- From here the reader neither succeeds nor fails before it has taken so many tokens. -/
structure Reaches (n : Nat) (p : Parser α) (s : Reading) : Prop where
  ok : ∀ ts a s', p s = .ok a s' → Moved s ts s' → n ≤ ts.length
  error : ∀ ts e s', p s = .error e s' → Moved s ts s' → n ≤ (e.ahead ts).length

/-- Where so many tokens are reached, they and the next one may be taken to be the same. -/
theorem Follows.of_reaches {n : Nat} {s₁ s₂ : Reading} (hreach : Reaches n p s₁)
    (h : ∀ ts, ts.length = n + 1 → Twin s₁ s₂ ts → Follows p q s₁ s₂) : Follows p q s₁ s₂ := by
  have hfirst : ∀ us t, n ≤ us.length → Twin s₁ s₂ (us ++ [t]) → Follows p q s₁ s₂ := by
    intro us t hlen htwin
    have htake : ((us ++ [t]).take (n + 1)).length = n + 1 := by
      rw [List.length_take, List.length_append, List.length_singleton]
      omega
    exact h _ htake (htwin.of_prefix (List.take_prefix _ _))
  constructor
  · intro ts t a s₁' htwin h₁ hm
    exact (hfirst ts t (hreach.ok ts a s₁' h₁ hm) htwin).ok ts t a s₁' htwin h₁ hm
  · intro ts t e s₁' htwin h₁ hm
    exact (hfirst _ t (hreach.error ts e s₁' h₁ hm) htwin).error ts t e s₁' htwin h₁ hm

/-- Both readers go on without having taken anything. -/
theorem Follows.of_ok {γ : Type} {r : Parser γ} {f : α → Parser β} {g : γ → Parser β}
    {s₁ s₂ : Reading} {a : α} {c : γ}
    (h₁ : p s₁ = .ok a s₁) (h₂ : r s₂ = .ok c s₂) (hf : Follows (f a) (g c) s₁ s₂) :
    Follows (p >>= f) (r >>= g) s₁ s₂ := by
  constructor
  · intro ts t b s₁' htwin h hm
    rw [bind_of_ok h₁] at h
    rw [bind_of_ok h₂]
    exact hf.ok ts t b s₁' htwin h hm
  · intro ts t e s₁' htwin h hm
    rw [bind_of_ok h₁] at h
    rw [bind_of_ok h₂]
    exact hf.error ts t e s₁' htwin h hm

theorem Follows.nextIs {f g : Bool → Parser β} {s₁ s₂ : Reading} {ts : List Token} {i : Nat}
    (kinds : List Kind)
    (htwin : Twin s₁ s₂ ts) (hi : i < ts.length)
    (hf : ∀ b, s₁.cursor.peekIs (.ofNat i) kinds = b → Follows (f b) (g b) s₁ s₂) :
    Follows (nextIs (.ofNat i) kinds >>= f) (nextIs (.ofNat i) kinds >>= g) s₁ s₂ := by
  have hpeek : ∀ s : Reading, ts <+: s.cursor.rest → s.cursor.peek? (.ofNat i) = ts[i]? := by
    rintro s ⟨k, hk⟩
    show s.cursor.rest[i]? = ts[i]?
    rw [← hk, List.getElem?_append_left hi]
  have h₂ : Parser.nextIs (.ofNat i) kinds s₂ = .ok (s₁.cursor.peekIs (.ofNat i) kinds) s₂ := by
    rw [nextIs_run, Cursor.peekIs, Cursor.peekIs, hpeek s₁ htwin.left, hpeek s₂ htwin.right]
  exact .of_ok (nextIs_run ..) h₂ (hf _ rfl)

theorem Reaches.mono {m n : Nat} {s : Reading} (h : Reaches n p s) (hmn : m ≤ n) : Reaches m p s :=
  ⟨fun ts a s' h₁ h₂ => Nat.le_trans hmn (h.ok ts a s' h₁ h₂), fun ts e s' h₁ h₂ =>
    Nat.le_trans hmn (h.error ts e s' h₁ h₂)⟩

theorem Reaches.of_ok {n : Nat} {f : α → Parser β} {s : Reading} {a : α} (h : p s = .ok a s)
    (hf : Reaches n (f a) s) :
    Reaches n (p >>= f) s := by
  constructor
  · intro ts b s' hrun hm
    rw [bind_of_ok h] at hrun
    exact hf.ok ts b s' hrun hm
  · intro ts e s' hrun hm
    rw [bind_of_ok h] at hrun
    exact hf.error ts e s' hrun hm

/-- Tokens that were taken are reached. -/
theorem Reaches.of_moved {f : α → Parser β} {s s' : Reading} {ts : List Token} {a : α}
    (hb : s.Bounded)
    (h : p s = .ok a s') (hm : Moved s ts s') (hf : Forward (f a)) :
    Reaches ts.length (p >>= f) s := by
  have hb' := hm.bounded hb
  constructor
  · intro vs b s'' hrun hm'
    rw [bind_of_ok h] at hrun
    obtain ⟨us, hm''⟩ := hf.ok s' b s'' hb' hrun
    rw [hm'.unique (hm.trans hm''), List.length_append]
    exact Nat.le_add_right _ _
  · intro vs e s'' hrun hm'
    rw [bind_of_ok h] at hrun
    obtain ⟨us, hm'', hends⟩ := hf.error s' e s'' hb' hrun
    rw [hm'.unique (hm.trans hm''), e.ahead_append hends, List.length_append]
    exact Nat.le_add_right _ _

theorem Reaches.bind {n : Nat} {f : α → Parser β} {s : Reading} (hb : s.Bounded) (h : Reaches n p s)
    (hp : Forward p)
    (hf : ∀ a, Forward (f a)) : Reaches n (p >>= f) s := by
  cases hrun : p s with
  | ok a s' =>
    obtain ⟨ts, hm⟩ := hp.ok s a s' hb hrun
    exact (Reaches.of_moved hb hrun hm (hf a)).mono (h.ok ts a s' hrun hm)
  | error e s' =>
    have hrun' : (p >>= f) s = .error e s' := bind_eq_error.mpr (.inl hrun)
    refine ⟨fun us b s'' h₁ _ => ?_, fun us e' s'' h₁ hm => ?_⟩
    · rw [hrun'] at h₁
      cases h₁
    · rw [hrun'] at h₁
      cases h₁
      exact h.error us e s' hrun hm

theorem Reaches.expect {kind : Kind} {f : Token → Parser α} {s : Reading} {t : Token}
    {k : List Token} (hb : s.Bounded)
    (hr : s.cursor.rest = t :: k) (ht : t.kind = kind) (hf : ∀ t, Forward (f t)) :
    Reaches 1 (expect kind >>= f) s := by
  obtain ⟨s', h, hm⟩ := expect_of_next hr ht
  exact .of_moved hb h hm (hf t)

/-- Readers that are chosen by the token after a word, and that both take the word. -/
theorem Prompt.ifWord {p' q' : Parser α} (kinds : List Kind) (hp : Prompt n₁ n₂ p p')
    (hq : Prompt n₁ n₂ q q')
    (hreach : ∀ s t k, s.Bounded → s.cursor.rest = t :: k → t.kind = .word → Reaches 1 p s ∧
    Reaches 1 q s) :
    Prompt n₁ n₂ (do if (← nextIs 0 [.word]) && (← nextIs 1 kinds) then p else q)
      (do if (← nextIs 0 [.word]) && (← nextIs 1 kinds) then p' else q') := by
  constructor
  · refine (nextIs_still _ _).forward.bind fun _ => (nextIs_still _ _).forward.bind fun _ => ?_
    split
    · exact hp.forward
    · exact hq.forward
  · intro s₁ s₂ hs₁ hs₂
    refine .of_next fun t k₁ k₂ htaken hr₁ hr₂ => ?_
    have htwin : Twin s₁ s₂ [t] := ⟨htaken, ⟨k₁, hr₁.symm⟩, ⟨k₂, hr₂.symm⟩⟩
    refine .nextIs (i := 0) _ htwin (by simp) fun b hb => ?_
    cases b with
    | false => exact .of_ok (nextIs_run ..) (nextIs_run ..) (hq.follows s₁ s₂ hs₁ hs₂)
    | true =>
      have ht : t.kind = .word := by simpa [peekIs_zero hr₁] using hb
      obtain ⟨hreachp, hreachq⟩ := hreach s₁ t k₁ hs₁.bounded hr₁ ht
      refine .of_reaches (n := 1) (.of_ok (nextIs_run ..) ?_) fun ts hlen htwin => ?_
      · split
        · exact hreachp
        · exact hreachq
      · refine .nextIs (i := 1) _ htwin (by omega) fun c _ => ?_
        cases c with
        | true => exact hp.follows s₁ s₂ hs₁ hs₂
        | false => exact hq.follows s₁ s₂ hs₁ hs₂

/-- A prompt reader reaches tokens that it accepts with others after them: if it blamed one of them,
it would blame it there too. -/
theorem reaches_of_accepted {s s' : Reading} (ts us : List Token) {a : α}
    (hp : ∀ n₁ n₂, Prompt n₁ n₂ p p)
    (hb : s.Bounded) (hts : ts <+: s.cursor.rest) (hrun : p (s.onto (ts ++ us)) = .ok a s')
    (hok : ∀ vs b s'', p s = .ok b s'' → Moved s vs s'' → ts.length ≤ vs.length) :
    Reaches ts.length p s := by
  refine ⟨hok, fun vs e s'' h hm => Nat.le_of_not_lt fun hlt => ?_⟩
  have hrest : vs <+: s.cursor.rest := ⟨_, hm.rest.symm⟩
  obtain ⟨ws, hws⟩ :=
    List.prefix_of_prefix_length_le ((e.ahead_prefix vs).trans hrest) hts (Nat.le_of_lt hlt)
  cases ws with
  | nil =>
    rw [← hws, List.append_nil] at hlt
    exact Nat.lt_irrefl _ hlt
  | cons t ws =>
    have hblamed : e.ahead vs ++ [t] <+: ts :=
      ⟨ws, by rw [List.append_assoc, List.singleton_append, hws]⟩
    have htwin : Twin s (s.onto (ts ++ us)) ts := ⟨rfl, hts, us, rfl⟩
    have hfollows :=
      (hp _ _).follows s (s.onto (ts ++ us)) ⟨hb, Nat.le_refl _⟩ ⟨Nat.le_refl _, Nat.le_refl _⟩
    obtain ⟨s₂, h₂⟩ := hfollows.error vs t e s'' (htwin.of_prefix hblamed) h hm
    rw [hrun] at h₂
    cases h₂

theorem reaches_of_starts {L : Language α} {kinds : List Kind} {s s' : Reading} {t : Token}
    {k us : List Token} {a : α}
    (hp : ∀ n₁ n₂, Prompt n₁ n₂ p p) (hs : Sound p L) (hstart : Starts kinds L) (hb : s.Bounded)
    (hr : s.cursor.rest = t :: k) (hrun : p (s.onto (t :: us)) = .ok a s') : Reaches 1 p s := by
  have hone : [t] <+: s.cursor.rest := ⟨k, hr.symm⟩
  refine reaches_of_accepted [t] us hp hb hone hrun fun vs b s'' h hm => ?_
  obtain ⟨ws, hm', hl⟩ := hs s b s'' hb h
  rw [hm.unique hm']
  exact List.length_pos_iff.mpr (hstart.ne_nil hl)

end Parser
end Offside
