import Offside.Proofs.Grammar.Reading

/-! The repetitions of the reader read the repetitions of the grammar.

Each repetition is bounded by the number of tokens. A round takes at least one token, so that a
bound not below the number of tokens left is never the reason to stop; this is what
`Reading.Bounded` is for. -/
namespace Offside.Parser

open Reading Grammar

variable {α : Type}

/-! ### Tokens of one kind -/

/-- All tokens of the kind that stand next are taken. -/
theorem countOf_run (kind : Kind) (bound : Nat) (s : Reading) (hb : s.cursor.rest.length ≤ bound) :
    ∃ s', countOf kind bound s = .ok (s.cursor.rest.takeWhile (·.kind = kind)).length s' ∧
      Moved s (s.cursor.rest.takeWhile (·.kind = kind)) s' := by
  induction bound generalizing s with
  | zero =>
    have hr : s.cursor.rest = [] := List.length_eq_zero_iff.mp (Nat.le_zero.mp hb)
    rw [hr]
    exact ⟨s, rfl, Moved.refl s⟩
  | succ bound ih =>
    by_cases hn : NotNext [kind] s.cursor.rest
    · have hw : s.cursor.rest.takeWhile (·.kind = kind) = [] := by
        cases hr : s.cursor.rest with
        | nil => rfl
        | cons t k =>
          rw [hr, notNext_cons, List.mem_singleton] at hn
          simp [hn]
      rw [hw]
      refine ⟨s, ?_, Moved.refl s⟩
      rw [countOf, bind_of_ok (accept_of_notNext hn)]
      rfl
    · cases hr : s.cursor.rest with
      | nil => simp [hr] at hn
      | cons t k =>
        have ht : t.kind = kind := by simpa [hr] using hn
        obtain ⟨s₁, h₁, hm₁⟩ := accept_of_next hr ht
        have hk : s₁.cursor.rest = k := hm₁.rest_of_next hr
        rw [hr, List.length_cons] at hb
        obtain ⟨s₂, h₂, hm₂⟩ := ih s₁ (by rw [hk]; omega)
        rw [hk] at h₂ hm₂
        simp only [List.takeWhile_cons, ht, decide_true, if_true, List.length_cons]
        refine ⟨s₂, ?_, hm₁.cons hm₂⟩
        rw [countOf, bind_of_ok h₁]
        simp only [if_true]
        rw [bind_of_ok h₂]
        rfl

theorem skipNewlines_run {s : Reading} (hb : s.Bounded) :
    ∃ ns s', skipNewlines s = .ok () s' ∧ Moved s ns s' ∧ Blank ns ∧
      s'.cursor.rest = skip s.cursor.rest := by
  obtain ⟨s', h, hm⟩ := countOf_run .newline s.count s hb
  refine ⟨_, s', ?_, hm, ?_, ?_⟩
  · rw [skipNewlines, bind_of_ok (withBound_of_ok h)]
    rfl
  · intro t ht
    simpa using List.all_eq_true.mp List.all_takeWhile t ht
  · refine hm.rest_eq ?_
    rw [skip, List.takeWhile_append_dropWhile]

theorem skipNewlines_sound {s s' : Reading} (hb : s.Bounded) (h : skipNewlines s = .ok () s') :
    ∃ ns, Moved s ns s' ∧ Blank ns := by
  obtain ⟨ns, s₁, h₁, hm, hn, _⟩ := skipNewlines_run hb
  rw [h₁] at h
  cases h
  exact ⟨ns, hm, hn⟩

/-! ### Line ends -/

/-- The line ends that stand next are taken, and all that follow them. -/
theorem lineEnd_run {s : Reading} {ns k : List Token} (hb : s.Bounded)
    (hr : s.cursor.rest = ns ++ k) (hn : LineEnd ns) :
    ∃ ms s', lineEnd s = .ok () s' ∧ Moved s (ns ++ ms) s' ∧ Blank ms ∧
      s'.cursor.rest = skip k := by
  obtain ⟨hne, hblank⟩ := hn
  cases ns with
  | nil => exact absurd rfl hne
  | cons n ns =>
    have hns : Blank ns := fun t ht => hblank t (List.mem_cons_of_mem _ ht)
    rw [List.cons_append] at hr
    obtain ⟨s₁, h₁, hm₁⟩ := expect_of_next hr (hblank n (List.mem_cons_self ..))
    obtain ⟨us, s₂, h₂, hm₂, _, hr₂⟩ := skipNewlines_run (hm₁.bounded hb)
    have hr₁ := hm₁.rest_of_next hr
    rw [hr₁, skip_of_blank hns] at hr₂
    obtain ⟨ms, hms, hk⟩ := eq_blank_append_skip k
    have hus : us = ns ++ ms := by
      refine (List.append_left_inj (skip k)).mp ?_
      rw [List.append_assoc, ← hk, ← hr₁, hm₂.rest, hr₂]
    refine ⟨ms, s₂, ?_, ?_, hms, hr₂⟩
    · rw [lineEnd, bind_of_ok h₁, h₂]
    · rw [hus] at hm₂
      exact hm₁.cons hm₂

theorem lineEnd_sound {s s' : Reading} (hb : s.Bounded) (h : lineEnd s = .ok () s') :
    ∃ ns, Moved s ns s' ∧ LineEnd ns := by
  obtain ⟨t, s₁, h₁, h₂⟩ := bind_eq_ok.mp h
  obtain ⟨ht, hm₁⟩ := expect_sound h₁
  obtain ⟨ns, hm₂, hn⟩ := skipNewlines_sound (hm₁.bounded hb) h₂
  refine ⟨t :: ns, hm₁.cons hm₂, List.cons_ne_nil _ _, ?_⟩
  intro u hu
  rcases List.mem_cons.mp hu with rfl | hu
  · exact ht
  · exact hn u hu

/-- Reads a phrase and the end of its line. -/
def line (p : Parser α) : Parser α := do
  let a ← p
  lineEnd
  return a

theorem line_sound {p : Parser α} {L : Language α} (hp : Sound p L) : Sound (line p) (Line L) := by
  intro s a s' hb h
  simp only [line, bind_eq_ok] at h
  obtain ⟨a₁, s₁, h₁, _, s₂, h₂, h⟩ := h
  obtain ⟨ts, hm₁, hl⟩ := hp s a₁ s₁ hb h₁
  obtain ⟨ns, hm₂, hn⟩ := lineEnd_sound (hm₁.bounded hb) h₂
  cases h
  exact ⟨ts ++ ns, hm₁.trans hm₂, .mk hl hn⟩

/-- After the line comes the first token that is not a line end. -/
theorem line_run {n : Nat} {stop : List Kind} {p : Parser α} {L : Language α}
    (hp : Complete n stop p L) (hstop : Kind.newline ∉ stop) {s : Reading} {ts k : List Token} {a : α}
    (hb : s.Bounded) (hr : s.cursor.rest = ts ++ k) (hlen : ts.length ≤ n) (hl : Line L ts a) :
    ∃ ms s', line p s = .ok a s' ∧ Moved s (ts ++ ms) s' ∧ Blank ms ∧ s'.cursor.rest = skip k := by
  obtain @⟨ts, a, ns, hl, hn⟩ := hl
  rw [List.append_assoc] at hr
  rw [List.length_append] at hlen
  obtain ⟨s₁, h₁, hm₁⟩ := hp s ts (ns ++ k) a hb hr (by omega) (hn.notNext hstop k) hl
  obtain ⟨ms, s₂, h₂, hm₂, hms, hk⟩ := lineEnd_run (hm₁.bounded hb) (hm₁.rest_eq hr) hn
  refine ⟨ms, s₂, ?_, ?_, hms, hk⟩
  · rw [line, bind_of_ok h₁, bind_of_ok h₂]
    rfl
  · rw [List.append_assoc]
    exact hm₁.trans hm₂

theorem line_complete {n : Nat} {stop : List Kind} {p : Parser α} {L : Language α}
    (hp : Complete n stop p L) (hstop : Kind.newline ∉ stop) :
    CompleteLine n [] (line p) (Line L) := by
  intro s ts k a hb hr hlen _ hl
  obtain ⟨ms, s', h, hm, hms, _⟩ := line_run hp hstop hb hr hlen hl
  exact ⟨ms, s', h, hm, hms⟩

/-! ### Separators -/

section Separators
variable {separator : Kind} {item : Parser α} {L : Language α}

theorem afterSeparators_of_notNext {s : Reading} (h : NotNext [separator] s.cursor.rest)
    (bound : Nat) : afterSeparators separator item bound s = .ok [] s := by
  cases bound with
  | zero => rfl
  | succ bound =>
    rw [afterSeparators, bind_of_ok (accept_of_notNext h)]
    rfl

/-- Nothing is taken, or a separator and one item or more. -/
theorem afterSeparators_sound (hitem : Sound item L) (bound : Nat) (s : Reading) (as : List α)
    (s' : Reading) (hb : s.Bounded) (h : afterSeparators separator item bound s = .ok as s') :
    (as = [] ∧ Moved s [] s') ∨
      ∃ t ts, t.kind = separator ∧ Moved s (t :: ts) s' ∧ Separated separator L ts as := by
  induction bound generalizing s as with
  | zero =>
    cases h
    exact .inl ⟨rfl, Moved.refl _⟩
  | succ bound ih =>
    simp only [afterSeparators, bind_eq_ok] at h
    obtain ⟨b, s₁, h₁, h⟩ := h
    rcases accept_cases h₁ with ⟨rfl, t, ht, hm₁⟩ | ⟨rfl, rfl, _⟩
    · simp only [if_true, bind_eq_ok] at h
      obtain ⟨a, s₂, h₂, as', s₃, h₃, h⟩ := h
      cases h
      have hb₁ := hm₁.bounded hb
      obtain ⟨ts, hm₂, hl⟩ := hitem s₁ a s₂ hb₁ h₂
      rcases ih s₂ as' (hm₂.bounded hb₁) h₃ with ⟨rfl, hm₃⟩ | ⟨u, us, hu, hm₃, hsep⟩
      · refine .inr ⟨t, ts, ht, ?_, .one hl⟩
        simpa using hm₁.cons (hm₂.trans hm₃)
      · exact .inr ⟨t, ts ++ u :: us, ht, hm₁.cons (hm₂.trans hm₃), .more hl hu hsep⟩
    · cases h
      exact .inl ⟨rfl, Moved.refl _⟩

theorem separated_sound (hitem : Sound item L) :
    Sound (separated separator item) (Separated separator L) := by
  intro s as s' hb h
  simp only [separated, bind_eq_ok] at h
  obtain ⟨a, s₁, h₁, as', s₂, h₂, h⟩ := h
  cases h
  obtain ⟨ts, hm₁, hl⟩ := hitem s a s₁ hb h₁
  rcases afterSeparators_sound hitem s₁.count s₁ as' s' (hm₁.bounded hb) h₂ with
    ⟨rfl, hm₂⟩ | ⟨t, us, ht, hm₂, hsep⟩
  · refine ⟨ts, ?_, .one hl⟩
    simpa using hm₁.trans hm₂
  · exact ⟨ts ++ t :: us, hm₁.trans hm₂, .more hl ht hsep⟩

variable {n : Nat} {stop : List Kind}

theorem afterSeparators_complete (hitem : Complete n stop item L) (hsep : separator ∉ stop)
    {k : List Token} (hk : NotNext (separator :: stop) k) {us : List Token} {as : List α}
    (h : Separated separator L us as) (bound : Nat) (s : Reading) (t : Token) (hb : s.Bounded)
    (hr : s.cursor.rest = t :: (us ++ k)) (ht : t.kind = separator) (hlen : us.length ≤ n)
    (hbound : s.cursor.rest.length ≤ bound) :
    ∃ s', afterSeparators separator item bound s = .ok as s' ∧ Moved s (t :: us) s' := by
  -- The induction is on the derivation: each round of the reader takes one separator and one item.
  induction h generalizing bound s t with
  | @one ts a hl =>
    obtain ⟨s₁, h₁, hm₁⟩ := accept_of_next hr ht
    obtain ⟨s₂, h₂, hm₂⟩ := hitem s₁ ts k a (hm₁.bounded hb) (hm₁.rest_of_next hr) hlen
      (hk.mono fun _ => List.mem_cons_of_mem _) hl
    refine ⟨s₂, ?_, hm₁.cons hm₂⟩
    cases bound with
    | zero => simp [hr] at hbound
    | succ bound =>
      rw [afterSeparators, bind_of_ok h₁]
      simp only [if_true]
      have hstop : NotNext [separator] s₂.cursor.rest := by
        rw [hm₂.rest_eq (hm₁.rest_of_next hr)]
        exact hk.mono fun kind hkind => by simp_all
      rw [bind_of_ok h₂, bind_of_ok (afterSeparators_of_notNext hstop bound)]
      rfl
  | @more ts a u us as hl hu _ ih =>
    rw [List.append_assoc, List.cons_append] at hr
    rw [List.length_append, List.length_cons] at hlen
    obtain ⟨s₁, h₁, hm₁⟩ := accept_of_next hr ht
    have hb₁ := hm₁.bounded hb
    have hr₁ := hm₁.rest_of_next hr
    obtain ⟨s₂, h₂, hm₂⟩ := hitem s₁ ts _ a hb₁ hr₁ (by omega) (by simpa [hu] using hsep) hl
    have hr₂ := hm₂.rest_eq hr₁
    cases bound with
    | zero => simp [hr] at hbound
    | succ bound =>
      have hbound₂ : s₂.cursor.rest.length ≤ bound := by
        rw [hr₂]
        rw [hr] at hbound
        simp only [List.length_cons, List.length_append] at hbound ⊢
        omega
      obtain ⟨s₃, h₃, hm₃⟩ := ih bound s₂ u (hm₂.bounded hb₁) hr₂ hu (by omega) hbound₂
      refine ⟨s₃, ?_, hm₁.cons (hm₂.trans hm₃)⟩
      rw [afterSeparators, bind_of_ok h₁]
      simp only [if_true]
      rw [bind_of_ok h₂, bind_of_ok h₃]
      rfl

theorem separated_complete (hitem : Complete n stop item L) (hsep : separator ∉ stop) :
    Complete n (separator :: stop) (separated separator item) (Separated separator L) := by
  intro s ts k as hb hr hlen hk h
  cases h with
  | @one ts a hl =>
    obtain ⟨s₁, h₁, hm₁⟩ := hitem s ts k a hb hr hlen (hk.mono fun _ => List.mem_cons_of_mem _) hl
    have hstop : NotNext [separator] s₁.cursor.rest := by
      rw [hm₁.rest_eq hr]
      exact hk.mono fun kind hkind => by simp_all
    refine ⟨s₁, ?_, hm₁⟩
    rw [separated, bind_of_ok h₁, bind_of_ok (withBound_of_ok (afterSeparators_of_notNext hstop _))]
    rfl
  | @more ts a t us as hl ht h =>
    rw [List.append_assoc, List.cons_append] at hr
    rw [List.length_append, List.length_cons] at hlen
    obtain ⟨s₁, h₁, hm₁⟩ := hitem s ts _ a hb hr (by omega) (by simpa [ht] using hsep) hl
    have hb₁ := hm₁.bounded hb
    obtain ⟨s₂, h₂, hm₂⟩ := afterSeparators_complete hitem hsep hk h s₁.count s₁ t hb₁
      (hm₁.rest_eq hr) ht (by omega) hb₁
    refine ⟨s₂, ?_, hm₁.trans hm₂⟩
    rw [separated, bind_of_ok h₁, bind_of_ok (withBound_of_ok h₂)]
    rfl

end Separators

/-! ### Blocks -/

section Blocks
variable {item : Parser α} {L : Language α} {kinds : List Kind}

/-- What the reader takes up to a closing token and with it. -/
theorem untilDedent_sound (hitem : Sound item L) (hstart : Starts kinds L) (bound : Nat)
    (s : Reading) (as : List α) (s' : Reading) (hb : s.Bounded)
    (hbound : s.cursor.rest.length ≤ bound) (h : untilDedent item bound s = .ok as s') :
    ∃ ts ns closer, Moved s (ts ++ ns ++ [closer]) s' ∧ Items L ts as ∧ Blank ns ∧
      closer.kind = .dedent := by
  induction bound generalizing s as with
  | zero =>
    -- Nothing is left here, and an item takes a token.
    simp only [untilDedent, bind_eq_ok] at h
    obtain ⟨a, s₁, h₁, -⟩ := h
    obtain ⟨ts, hm, hl⟩ := hitem s a s₁ hb h₁
    have hr : s.cursor.rest = [] := List.length_eq_zero_iff.mp (Nat.le_zero.mp hbound)
    have hts : ts = [] := (List.append_eq_nil_iff.mp (hm.rest.symm.trans hr)).1
    exact absurd hts (hstart.ne_nil hl)
  | succ bound ih =>
    simp only [untilDedent, bind_eq_ok] at h
    obtain ⟨_, s₁, h₁, b, s₂, h₂, h⟩ := h
    obtain ⟨ns, hm₁, hn⟩ := skipNewlines_sound hb h₁
    have hb₁ := hm₁.bounded hb
    rcases accept_cases h₂ with ⟨rfl, closer, hc, hm₂⟩ | ⟨rfl, rfl, _⟩
    · cases h
      exact ⟨[], ns, closer, hm₁.trans hm₂, .nil, hn, hc⟩
    · simp only [Bool.false_eq_true, if_false, bind_eq_ok] at h
      obtain ⟨a, s₃, h₃, as', s₄, h₄, h⟩ := h
      cases h
      obtain ⟨ts, hm₃, hl⟩ := hitem _ a s₃ hb₁ h₃
      have hshort : s₃.cursor.rest.length ≤ bound := by
        have hts := List.length_pos_iff.mpr (hstart.ne_nil hl)
        rw [hm₁.rest, hm₃.rest] at hbound
        simp only [List.length_append] at hbound
        omega
      obtain ⟨us, ms, closer, hm₄, hus, hms, hc⟩ := ih s₃ as' (hm₃.bounded hb₁) hshort h₄
      refine ⟨ns ++ ts ++ us, ms, closer, ?_, .cons hn hl hus, hms, hc⟩
      simpa [List.append_assoc] using (hm₁.trans hm₃).trans hm₄

theorem block_sound (hitem : Sound item L) (hstart : Starts kinds L) :
    Sound (block item) (Block L) := by
  intro s as s' hb h
  simp only [block, bind_eq_ok] at h
  obtain ⟨opener, s₁, h₁, h₂⟩ := h
  obtain ⟨ho, hm₁⟩ := expect_sound h₁
  have hb₁ := hm₁.bounded hb
  obtain ⟨ts, ns, closer, hm₂, hts, hn, hc⟩ :=
    untilDedent_sound hitem hstart s₁.count s₁ as s' hb₁ hb₁ h₂
  exact ⟨_, hm₁.cons hm₂, .mk ho hts hn hc⟩

variable {n : Nat} {stop : List Kind}

/-- What stands after items and before the closing token's successors does not keep an item from
ending: it is another item, or the closing token. -/
theorem items_notNext (hstart : Starts kinds L) (hkinds : ∀ kind ∈ kinds, kind ∉ .newline :: stop)
    (hclose : Kind.dedent ∉ stop) {us : List Token} {as : List α} (hus : Items L us as)
    {ns : List Token} (hn : Blank ns) {closer : Token} (hc : closer.kind = .dedent) (k : List Token) :
    NotNext stop (skip (us ++ (ns ++ closer :: k))) := by
  cases hus with
  | nil =>
    rw [List.nil_append, skip_of_blank hn, skip_of_notNext (by simp [hc]), notNext_cons, hc]
    exact hclose
  | @cons ms ts a us as hms hl hus =>
    have hnext := hstart.notNext hl (us ++ (ns ++ closer :: k)) hkinds
    rw [List.append_assoc, List.append_assoc, skip_of_blank hms,
      skip_of_notNext (hnext.mono (by simp))]
    exact hnext.mono fun _ => List.mem_cons_of_mem _

/-- The reader takes a line end wherever it may, so that only what stands after line ends says where
in the derivation it is. -/
theorem untilDedent_complete (hitem : CompleteLine n stop item L) (hstart : Starts kinds L)
    (hkinds : ∀ kind ∈ kinds, kind ∉ .newline :: .dedent :: stop) (hclose : Kind.dedent ∉ stop)
    {us : List Token} {as : List α} (hus : Items L us as) {ns : List Token} (hn : Blank ns)
    {closer : Token} (hc : closer.kind = .dedent) (k : List Token) (hlen : us.length ≤ n)
    (bound : Nat) (s : Reading) (hb : s.Bounded)
    (hr : skip s.cursor.rest = skip (us ++ (ns ++ closer :: k)))
    (hbound : s.cursor.rest.length ≤ bound) :
    ∃ vs s', untilDedent item bound s = .ok as s' ∧ Moved s vs s' ∧ s'.cursor.rest = k := by
  induction hus generalizing bound s with
  | nil =>
    obtain ⟨ms, s₁, h₁, hm₁, _, hr₁⟩ := skipNewlines_run hb
    rw [hr, List.nil_append, skip_of_blank hn, skip_of_notNext (by simp [hc])] at hr₁
    obtain ⟨s₂, h₂, hm₂⟩ := accept_of_next hr₁ hc
    refine ⟨_, s₂, ?_, hm₁.trans hm₂, hm₂.rest_of_next hr₁⟩
    cases bound with
    | zero =>
      rw [hm₁.rest, hr₁] at hbound
      simp at hbound
    | succ bound =>
      rw [untilDedent, bind_of_ok h₁, bind_of_ok h₂]
      rfl
  | @cons ms ts a us as hms hl hus ih =>
    simp only [List.length_append] at hlen
    obtain ⟨_, s₁, h₁, hm₁, _, hr₁⟩ := skipNewlines_run hb
    have hb₁ := hm₁.bounded hb
    have hnext := hstart.notNext hl (us ++ (ns ++ closer :: k)) hkinds
    rw [hr, List.append_assoc, List.append_assoc, skip_of_blank hms,
      skip_of_notNext (hnext.mono (by simp))] at hr₁
    have h₂ : accept .dedent s₁ = .ok false s₁ :=
      accept_of_notNext (by rw [hr₁]; exact hnext.mono (by simp))
    obtain ⟨vs, s₃, h₃, hm₃, hvs⟩ := hitem s₁ ts _ a hb₁ hr₁ (by omega)
      (items_notNext hstart (fun kind hkind => by have := hkinds kind hkind; simp_all) hclose hus
        hn hc k) hl
    cases bound with
    | zero =>
      have hts := List.length_pos_iff.mpr (hstart.ne_nil hl)
      rw [hm₁.rest, hr₁] at hbound
      simp only [List.length_append] at hbound
      omega
    | succ bound =>
      -- The item took at least its first token.
      have hshort : s₃.cursor.rest.length ≤ bound := by
        have hts := List.length_pos_iff.mpr (hstart.ne_nil hl)
        rw [hm₁.rest, hm₃.rest] at hbound
        simp only [List.length_append] at hbound
        omega
      obtain ⟨ws, s₄, h₄, hm₄, hr₄⟩ := ih (by omega) bound s₃ (hm₃.bounded hb₁)
        (hm₃.skip_rest hvs hr₁) hshort
      refine ⟨_, s₄, ?_, (hm₁.trans hm₃).trans hm₄, hr₄⟩
      rw [untilDedent, bind_of_ok h₁, bind_of_ok h₂]
      simp only [Bool.false_eq_true, if_false]
      rw [bind_of_ok h₃, bind_of_ok h₄]
      rfl

theorem block_complete (hitem : CompleteLine n stop item L) (hstart : Starts kinds L)
    (hkinds : ∀ kind ∈ kinds, kind ∉ .newline :: .dedent :: stop) (hclose : Kind.dedent ∉ stop) :
    Complete n [] (block item) (Block L) := by
  intro s ts k as hb hr hlen _ h
  obtain @⟨opener, us, as, ns, closer, ho, hts, hn, hc⟩ := h
  rw [List.cons_append, List.append_assoc, List.append_assoc, List.cons_append, List.nil_append]
    at hr
  simp only [List.length_cons, List.length_append] at hlen
  obtain ⟨s₁, h₁, hm₁⟩ := expect_of_next hr ho
  have hb₁ := hm₁.bounded hb
  have hr₁ := hm₁.rest_of_next hr
  obtain ⟨vs, s₂, h₂, hm₂, hr₂⟩ := untilDedent_complete hitem hstart hkinds hclose hts hn hc k
    (by omega) s₁.count s₁ hb₁ (by rw [hr₁]) hb₁
  refine ⟨s₂, ?_, ?_⟩
  · rw [block, bind_of_ok h₁, withBound_of_ok h₂]
  · have hvs : vs = us ++ ns ++ [closer] := by
      have := hm₂.rest
      rw [hr₁, hr₂] at this
      refine (List.append_left_inj k).mp ?_
      simpa using this.symm
    rw [← hvs]
    exact hm₁.cons hm₂

end Blocks

/-! ### Operators -/

section Operators
variable {Op : Type} {op? : Kind → Option Op}

/-- An operator's token is of one of the operator's kinds. -/
theorem mem_of_op {ops : List Kind} (h : ∀ kind, kind ∉ ops → op? kind = none) {kind : Kind}
    {op : Op} (hop : op? kind = some op) : kind ∈ ops := by
  refine Decidable.byContradiction fun hk => ?_
  simp [h kind hk] at hop

theorem operator?_of_next {s : Reading} {t : Token} {k : List Token} {op : Op}
    (hr : s.cursor.rest = t :: k) (ht : op? t.kind = some op) :
    ∃ s', operator? op? s = .ok (some op) s' ∧ Moved s [t] s' := by
  obtain ⟨s', h, hm⟩ := expect_of_next hr rfl
  refine ⟨s', ?_, hm⟩
  rw [operator?, bind_of_ok (cursor_run s)]
  simp only [peek?_zero hr, ht]
  rw [bind_of_ok h]
  rfl

theorem operator?_of_none {s : Reading} (h : ∀ t ∈ s.cursor.rest.head?, op? t.kind = none) :
    operator? op? s = .ok none s := by
  have hpeek : s.cursor.peek? 0 = s.cursor.rest.head? := by
    rw [List.head?_eq_getElem?]
    rfl
  rw [operator?, bind_of_ok (cursor_run s)]
  simp only [hpeek]
  cases hr : s.cursor.rest.head? with
  | none => rfl
  | some t =>
    simp only [h t hr]
    rfl

theorem operator?_cases {s s' : Reading} {r : Option Op} (h : operator? op? s = .ok r s') :
    (r = none ∧ s' = s) ∨ ∃ t op, r = some op ∧ op? t.kind = some op ∧ Moved s [t] s' := by
  by_cases hn : ∀ t ∈ s.cursor.rest.head?, op? t.kind = none
  · rw [operator?_of_none hn] at h
    cases h
    exact .inl ⟨rfl, rfl⟩
  · cases hr : s.cursor.rest with
    | nil => simp [hr] at hn
    | cons t k =>
      obtain ⟨op, hop⟩ := Option.ne_none_iff_exists'.mp (by simpa [hr] using hn)
      obtain ⟨s₁, h₁, hm⟩ := operator?_of_next hr hop
      rw [h₁] at h
      cases h
      exact .inr ⟨t, op, rfl, hop, hm⟩

end Operators

section Chains
variable {op? : Kind → Option Operator} {operand : Parser Expr} {L : Language Expr}

/-- What was read before the operands is on the left of everything. -/
theorem chainAfter_sound (hoperand : Sound operand L) (bound : Nat) (s : Reading) (left e : Expr)
    (s' : Reading) (ts : List Token) (hb : s.Bounded) (hleft : Chain op? L ts left)
    (h : chainAfter op? operand bound left s = .ok e s') :
    ∃ us, Moved s us s' ∧ Chain op? L (ts ++ us) e := by
  induction bound generalizing s left ts with
  | zero =>
    cases h
    exact ⟨[], Moved.refl _, by rwa [List.append_nil]⟩
  | succ bound ih =>
    simp only [chainAfter, bind_eq_ok] at h
    obtain ⟨r, s₁, h₁, h⟩ := h
    rcases operator?_cases h₁ with ⟨rfl, rfl⟩ | ⟨t, op, rfl, hop, hm₁⟩
    · cases h
      exact ⟨[], Moved.refl _, by rwa [List.append_nil]⟩
    · simp only [bind_eq_ok] at h
      obtain ⟨right, s₂, h₂, h⟩ := h
      have hb₁ := hm₁.bounded hb
      obtain ⟨us, hm₂, hright⟩ := hoperand s₁ right s₂ hb₁ h₂
      obtain ⟨vs, hm₃, hc⟩ := ih s₂ _ _ (hm₂.bounded hb₁) (.more hleft hop hright) h
      refine ⟨t :: us ++ vs, (hm₁.cons hm₂).trans hm₃, ?_⟩
      simpa [List.append_assoc] using hc

theorem chain_sound (hoperand : Sound operand L) : Sound (chain op? operand) (Chain op? L) := by
  intro s e s' hb h
  simp only [chain, bind_eq_ok] at h
  obtain ⟨first, s₁, h₁, h⟩ := h
  obtain ⟨ts, hm₁, hl⟩ := hoperand s first s₁ hb h₁
  obtain ⟨us, hm₂, hc⟩ :=
    chainAfter_sound hoperand s₁.count s₁ first e s' ts (hm₁.bounded hb) (.one hl) h
  exact ⟨ts ++ us, hm₁.trans hm₂, hc⟩

variable {n : Nat} {stop : List Kind}

/-- Wherever a chain ends in the input, the reader gets there with the whole chain on the left. -/
theorem chain_reaches (hoperand : Complete n stop operand L)
    (hop : ∀ kind op, op? kind = some op → kind ∉ stop) {ts : List Token} {e : Expr}
    (h : Chain op? L ts e) (s : Reading) (k : List Token) (hb : s.Bounded)
    (hr : s.cursor.rest = ts ++ k) (hlen : ts.length ≤ n) (hk : NotNext stop k) :
    ∃ s' bound, Moved s ts s' ∧
      chain op? operand s = chainAfter op? operand bound e s' ∧ k.length ≤ bound := by
  induction h generalizing k with
  | @one ts e hl =>
    obtain ⟨s₁, h₁, hm₁⟩ := hoperand s ts k e hb hr hlen hk hl
    refine ⟨s₁, s₁.count, hm₁, ?_, ?_⟩
    · rw [chain, bind_of_ok h₁, withBound_run]
    · rw [← hm₁.rest_eq hr]
      exact hm₁.bounded hb
  | @more ts l t op us r hl hop' hright ih =>
    rw [List.append_assoc, List.cons_append] at hr
    rw [List.length_append, List.length_cons] at hlen
    obtain ⟨s₁, bound, hm₁, hchain, hbound⟩ := ih (t :: (us ++ k)) hr (by omega)
      (by simpa using hop _ _ hop')
    have hb₁ := hm₁.bounded hb
    have hr₁ := hm₁.rest_eq hr
    obtain ⟨s₂, h₂, hm₂⟩ := operator?_of_next hr₁ hop'
    obtain ⟨s₃, h₃, hm₃⟩ := hoperand s₂ us k r (hm₂.bounded hb₁) (hm₂.rest_of_next hr₁) (by omega)
      hk hright
    simp only [List.length_cons, List.length_append] at hbound
    cases bound with
    | zero => omega
    | succ bound =>
      refine ⟨s₃, bound, hm₁.trans (hm₂.cons hm₃), ?_, by omega⟩
      rw [hchain, chainAfter, bind_of_ok h₂]
      simp only []
      rw [bind_of_ok h₃]

theorem chain_complete (hoperand : Complete n stop operand L) {ops : List Kind}
    (hops : ∀ kind, kind ∉ ops → op? kind = none) (hstop : ∀ kind ∈ ops, kind ∉ stop) :
    Complete n (ops ++ stop) (chain op? operand) (Chain op? L) := by
  intro s ts k e hb hr hlen hk h
  have hop : ∀ kind op, op? kind = some op → kind ∉ stop :=
    fun kind op hop => hstop kind (mem_of_op hops hop)
  obtain ⟨s', bound, hm, hchain, _⟩ := chain_reaches hoperand hop h s k hb hr hlen
    (hk.mono fun _ => List.mem_append_right _)
  have hnone : operator? op? s' = .ok none s' := by
    refine operator?_of_none fun t ht => hops _ ?_
    rw [hm.rest_eq hr] at ht
    exact (hk.mono fun _ => List.mem_append_left _) t ht
  refine ⟨s', ?_, hm⟩
  rw [hchain]
  cases bound with
  | zero => rfl
  | succ bound =>
    rw [chainAfter, bind_of_ok hnone]
    rfl

end Chains

end Offside.Parser
