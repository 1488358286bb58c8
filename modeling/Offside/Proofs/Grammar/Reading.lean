import Offside.Program.Parser.Declaration
import Offside.Proofs.Grammar.Basic
import Offside.Proofs.Token.Consuming

/-! How readers move over tokens, and what it means that a reader reads a language.

`Moved s ts s'` says that reading went from `s` to `s'` by taking exactly `ts`. A reader is `Sound`
for a language if whatever it returns is what the tokens it took stand for, and `Complete` if it
takes every sequence of the language that stands next and returns what it stands for, provided that
the token after it is none of those that would make the reader go on.

A phrase that ends a line is read together with the blank lines after it, which a derivation may
have given to what follows. `CompleteLine` therefore leaves open how many of them are taken. -/
namespace Offside

/-- The next token, if there is one, is of none of the kinds. -/
def NotNext (kinds : List Kind) (ts : List Token) : Prop := ∀ t ∈ ts.head?, t.kind ∉ kinds

@[simp] theorem notNext_nil (kinds : List Kind) : NotNext kinds [] := by
  intro t ht
  cases ht

@[simp] theorem notNext_cons (kinds : List Kind) (t : Token) (ts : List Token) :
    NotNext kinds (t :: ts) ↔ t.kind ∉ kinds := by
  simp [NotNext]

theorem NotNext.mono {kinds fewer : List Kind} {ts : List Token} (h : NotNext kinds ts)
    (hsub : ∀ kind ∈ fewer, kind ∈ kinds) : NotNext fewer ts :=
  fun t ht hk => h t ht (hsub _ hk)

/-- What is left after line ends. -/
def skip (ts : List Token) : List Token := ts.dropWhile (·.kind = .newline)

theorem skip_of_blank {ns : List Token} (h : Grammar.Blank ns) (ts : List Token) :
    skip (ns ++ ts) = skip ts := by
  induction ns with
  | nil => rfl
  | cons n ns ih =>
    have hn : n.kind = .newline := h n (List.mem_cons_self ..)
    have hns : Grammar.Blank ns := fun t ht => h t (List.mem_cons_of_mem _ ht)
    simp only [skip, List.cons_append, hn, decide_true, List.dropWhile_cons_of_pos]
    exact ih hns

/-- What is skipped. -/
theorem eq_blank_append_skip (ts : List Token) : ∃ ns, Grammar.Blank ns ∧ ts = ns ++ skip ts := by
  refine ⟨ts.takeWhile (·.kind = .newline), ?_, List.takeWhile_append_dropWhile.symm⟩
  intro t ht
  simpa using List.all_eq_true.mp List.all_takeWhile t ht

theorem skip_of_notNext {ts : List Token} (h : NotNext [.newline] ts) : skip ts = ts := by
  cases ts with
  | nil => rfl
  | cons t ts =>
    have ht : t.kind ≠ .newline := by simpa using h
    simp [skip, ht]

theorem notNext_skip (ts : List Token) : NotNext [.newline] (skip ts) := by
  intro t ht
  have := List.head?_dropWhile_not (fun t : Token => decide (t.kind = .newline)) ts
  rw [show (ts.dropWhile fun t => decide (t.kind = .newline)).head? = some t from ht] at this
  simpa using this

theorem NotNext.of_skip {kinds : List Kind} {ts : List Token} (h : NotNext kinds (skip ts))
    (hn : Kind.newline ∉ kinds) : NotNext kinds ts := by
  cases ts with
  | nil => exact notNext_nil _
  | cons t ts =>
    by_cases ht : t.kind = .newline
    · rw [notNext_cons, ht]
      exact hn
    · rwa [skip_of_notNext (by simpa using ht)] at h

theorem Grammar.LineEnd.notNext {kinds : List Kind} {ns : List Token} (h : Grammar.LineEnd ns)
    (hk : Kind.newline ∉ kinds) (k : List Token) : NotNext kinds (ns ++ k) := by
  obtain ⟨hne, hblank⟩ := h
  cases ns with
  | nil => exact absurd rfl hne
  | cons n ns =>
    rw [List.cons_append, notNext_cons, hblank n (List.mem_cons_self ..)]
    exact hk

namespace Reading

/-- There are no more tokens left than were counted. -/
def Bounded (s : Reading) : Prop := s.cursor.rest.length ≤ s.count

/-- Reading went on from `s` to `s'` by taking `ts`. -/
structure Moved (s : Reading) (ts : List Token) (s' : Reading) : Prop where
  rest : s.cursor.rest = ts ++ s'.cursor.rest
  taken : s'.cursor.taken = ts.reverse ++ s.cursor.taken
  count : s'.count = s.count

theorem Moved.refl (s : Reading) : Moved s [] s := ⟨rfl, rfl, rfl⟩

theorem Moved.trans {s s' s'' : Reading} {ts us : List Token} (h : Moved s ts s')
    (h' : Moved s' us s'') : Moved s (ts ++ us) s'' := by
  refine ⟨?_, ?_, ?_⟩
  · rw [h.rest, h'.rest, List.append_assoc]
  · rw [h'.taken, h.taken, List.reverse_append, List.append_assoc]
  · rw [h'.count, h.count]

/-- One token and then more. -/
theorem Moved.cons {s s' s'' : Reading} {t : Token} {ts : List Token} (h : Moved s [t] s')
    (h' : Moved s' ts s'') : Moved s (t :: ts) s'' := h.trans h'

/-- A milestone and then tokens. -/
theorem Moved.nil_trans {s s' s'' : Reading} {ts : List Token} (h : Moved s [] s')
    (h' : Moved s' ts s'') : Moved s ts s'' := h.trans h'

theorem Moved.bounded {s s' : Reading} {ts : List Token} (h : Moved s ts s') (hb : s.Bounded) :
    s'.Bounded := by
  unfold Bounded at hb ⊢
  rw [h.rest, List.length_append] at hb
  rw [h.count]
  omega

/-- What is left after tokens that stood in front. -/
theorem Moved.rest_eq {s s' : Reading} {ts k : List Token} (h : Moved s ts s')
    (hr : s.cursor.rest = ts ++ k) : s'.cursor.rest = k := by
  rw [h.rest] at hr
  exact List.append_cancel_left hr

theorem Moved.rest_of_next {s s' : Reading} {t : Token} {k : List Token} (h : Moved s [t] s')
    (hr : s.cursor.rest = t :: k) : s'.cursor.rest = k := h.rest_eq hr

/-- After a phrase and blank lines, what is left is what stood after the phrase, blank lines aside. -/
theorem Moved.skip_rest {s s' : Reading} {ts ns k : List Token} (h : Moved s (ts ++ ns) s')
    (hn : Grammar.Blank ns) (hr : s.cursor.rest = ts ++ k) : skip s'.cursor.rest = skip k := by
  rw [h.rest, List.append_assoc] at hr
  rw [← List.append_cancel_left hr, skip_of_blank hn]

/-- The last token taken. -/
theorem Moved.last {s s' : Reading} {t : Token} {ts : List Token} (h : Moved s (t :: ts) s') :
    s'.cursor.taken.head? = some (ts.getLastD t) := by
  rw [h.taken, List.head?_append, List.head?_reverse, List.getLast?_cons,
    List.getLastD_eq_getLast?]
  rfl

end Reading

namespace Parser

open Reading

variable {α β : Type}

/-! ### Running readers -/

@[simp] theorem pure_run (a : α) (s : Reading) : (pure a : Parser α) s = .ok a s := rfl

theorem bind_eq_ok {p : Parser α} {f : α → Parser β} {s s'' : Reading} {b : β} :
    (p >>= f) s = .ok b s'' ↔ ∃ a s', p s = .ok a s' ∧ f a s' = .ok b s'' := by
  show EStateM.bind p f s = _ ↔ _
  unfold EStateM.bind
  cases h : p s with
  | ok a s' =>
    constructor
    · intro hf
      exact ⟨a, s', rfl, hf⟩
    · rintro ⟨a, s', heq, hf⟩
      cases heq
      exact hf
  | error e s' => simp

theorem bind_of_ok {p : Parser α} {f : α → Parser β} {s s' : Reading} {a : α}
    (h : p s = .ok a s') : (p >>= f) s = f a s' := by
  show EStateM.bind p f s = _
  simp only [EStateM.bind, h]

@[simp] theorem throw_run_ne_ok (e : ParseError) (s : Reading) (a : α) (s' : Reading) :
    ((throw e : Parser α) s = .ok a s') ↔ False := by
  constructor
  · intro h
    cases h
  · exact False.elim

theorem cursor_run (s : Reading) : cursor s = .ok s.cursor s := rfl

theorem nextIs_run (offset : Int) (kinds : List Kind) (s : Reading) :
    nextIs offset kinds s = .ok (s.cursor.peekIs offset kinds) s := rfl

theorem withBound_run (p : Nat → Parser α) (s : Reading) : withBound p s = p s.count s := rfl

theorem withBound_of_ok {p : Nat → Parser α} {s s' : Reading} {a : α}
    (h : p s.count s = .ok a s') : withBound p s = .ok a s' := h

theorem complain_run_ne_ok (kinds : List Kind) (s : Reading) (a : α) (s' : Reading) :
    complain kinds s ≠ .ok a s' := by
  intro h
  obtain ⟨_, _, _, h⟩ := bind_eq_ok.mp h
  exact (throw_run_ne_ok ..).mp h

theorem passing_run (m : Milestone) (s : Reading) :
    ∃ s', passing m s = .ok () s' ∧ Moved s [] s' := ⟨_, rfl, rfl, rfl, rfl⟩

theorem passing_sound {m : Milestone} {s s' : Reading} (h : passing m s = .ok () s') :
    Moved s [] s' := by
  cases h
  exact ⟨rfl, rfl, rfl⟩

/-! ### Single tokens -/

theorem accept_of_next {kind : Kind} {s : Reading} {t : Token} {k : List Token}
    (hr : s.cursor.rest = t :: k) (ht : t.kind = kind) :
    ∃ s', accept kind s = .ok true s' ∧ Moved s [t] s' := by
  refine ⟨{ s with cursor := ⟨t :: s.cursor.taken, k⟩ }, ?_, hr, rfl, rfl⟩
  rw [accept, bind_of_ok (cursor_run s)]
  simp only [Cursor.match?, Cursor.take?, hr, ht, decide_true, if_true]
  rfl

theorem accept_of_notNext {kind : Kind} {s : Reading} (h : NotNext [kind] s.cursor.rest) :
    accept kind s = .ok false s := by
  rw [accept, bind_of_ok (cursor_run s)]
  cases hr : s.cursor.rest with
  | nil => simp [Cursor.match?, Cursor.take?, hr]
  | cons t k =>
    have ht : t.kind ≠ kind := by simpa [hr] using h
    simp [Cursor.match?, Cursor.take?, hr, ht]

/-- Whether a token was taken, and that none was for want of one. -/
theorem accept_cases {kind : Kind} {s s' : Reading} {b : Bool} (h : accept kind s = .ok b s') :
    (b = true ∧ ∃ t, t.kind = kind ∧ Moved s [t] s') ∨
      (b = false ∧ s' = s ∧ NotNext [kind] s.cursor.rest) := by
  by_cases hn : NotNext [kind] s.cursor.rest
  · rw [accept_of_notNext hn] at h
    cases h
    exact .inr ⟨rfl, rfl, hn⟩
  · cases hr : s.cursor.rest with
    | nil => simp [hr] at hn
    | cons t k =>
      have ht : t.kind = kind := by simpa [hr] using hn
      obtain ⟨s₁, h₁, hm⟩ := accept_of_next hr ht
      rw [h₁] at h
      cases h
      exact .inl ⟨rfl, t, ht, hm⟩

theorem expectAny_of_next (kinds : List Kind) {s : Reading} {t : Token} {k : List Token}
    (hr : s.cursor.rest = t :: k) (ht : t.kind ∈ kinds) :
    ∃ s', expectAny kinds s = .ok t s' ∧ Moved s [t] s' := by
  refine ⟨{ s with cursor := ⟨t :: s.cursor.taken, k⟩ }, ?_, hr, rfl, rfl⟩
  rw [expectAny, bind_of_ok (cursor_run s)]
  simp only [Cursor.expect, Cursor.matchFirst?_eq, Cursor.take?, hr, ht, decide_true, if_true]
  rfl

theorem expectAny_sound {kinds : List Kind} {s s' : Reading} {t : Token}
    (h : expectAny kinds s = .ok t s') : t.kind ∈ kinds ∧ Moved s [t] s' := by
  rw [expectAny, bind_of_ok (cursor_run s)] at h
  cases hr : s.cursor.rest with
  | nil => simp [Cursor.expect, Cursor.matchFirst?_eq, Cursor.take?, hr] at h
  | cons u k =>
    by_cases hu : u.kind ∈ kinds
    · obtain ⟨s₁, h₁, hm⟩ := expectAny_of_next kinds hr hu
      rw [expectAny, bind_of_ok (cursor_run s), h] at h₁
      cases h₁
      exact ⟨hu, hm⟩
    · simp [Cursor.expect, Cursor.matchFirst?_eq, Cursor.take?, hr, hu] at h

theorem expect_of_next {kind : Kind} {s : Reading} {t : Token} {k : List Token}
    (hr : s.cursor.rest = t :: k) (ht : t.kind = kind) :
    ∃ s', expect kind s = .ok t s' ∧ Moved s [t] s' :=
  expectAny_of_next [kind] hr (by simp [ht])

theorem expect_sound {kind : Kind} {s s' : Reading} {t : Token} (h : expect kind s = .ok t s') :
    t.kind = kind ∧ Moved s [t] s' := by
  obtain ⟨ht, hm⟩ := expectAny_sound h
  exact ⟨by simpa using ht, hm⟩

/-- What is expected and found is the next token. -/
theorem expect_next {kind : Kind} {s s' : Reading} {t u : Token} {k : List Token}
    (hr : s.cursor.rest = t :: k) (h : expect kind s = .ok u s') :
    u = t ∧ t.kind = kind ∧ Moved s [t] s' := by
  obtain ⟨hu, hm⟩ := expect_sound h
  have hut : u = t := by
    have := hm.rest
    rw [hr] at this
    exact (List.cons.inj this).1.symm
  subst hut
  exact ⟨rfl, hu, hm⟩

theorem peek?_zero {s : Reading} {t : Token} {k : List Token} (hr : s.cursor.rest = t :: k) :
    s.cursor.peek? 0 = some t := by
  show s.cursor.rest[0]? = _
  rw [hr]
  rfl

/-- The span of the tokens taken since a first one. -/
theorem spanFrom_run {s s' : Reading} {t : Token} {ts : List Token} (h : Moved s (t :: ts) s') :
    spanFrom t.span.start s' = .ok (spanOf (t :: ts)) s' := by
  rw [spanFrom, bind_of_ok (cursor_run s')]
  have hlast : s'.cursor.peek? (-1) = some (ts.getLastD t) := by
    show s'.cursor.taken[0]? = _
    rw [← List.head?_eq_getElem?, h.last]
  simp only [hlast]
  rfl

theorem position_run {s : Reading} {t : Token} {k : List Token} (hr : s.cursor.rest = t :: k) :
    position s = .ok t.span.start s := by
  rw [position, bind_of_ok (cursor_run s)]
  simp [Cursor.location, hr]

/-! ### Reading a language -/

/-- Whatever the reader returns, the tokens that it took stand for it. -/
def Sound (p : Parser α) (L : Language α) : Prop :=
  ∀ s a s', s.Bounded → p s = .ok a s' → ∃ ts, Moved s ts s' ∧ L ts a

/-- The reader takes every sequence of the language of at most `n` tokens, unless one of the kinds
in `stop` stands after it. -/
def Complete (n : Nat) (stop : List Kind) (p : Parser α) (L : Language α) : Prop :=
  ∀ s ts k a, s.Bounded → s.cursor.rest = ts ++ k → ts.length ≤ n → NotNext stop k → L ts a →
    ∃ s', p s = .ok a s' ∧ Moved s ts s'

/-- As `Complete`, for languages whose sequences end a line. Line ends that follow may be taken too,
and what must not stand after the sequence must not stand after those either. -/
def CompleteLine (n : Nat) (stop : List Kind) (p : Parser α) (L : Language α) : Prop :=
  ∀ s ts k a, s.Bounded → s.cursor.rest = ts ++ k → ts.length ≤ n → NotNext stop (skip k) → L ts a →
    ∃ ns s', p s = .ok a s' ∧ Moved s (ts ++ ns) s' ∧ Grammar.Blank ns

/-- Every sequence of the language starts with one of the kinds. -/
def Starts (kinds : List Kind) (L : Language α) : Prop :=
  ∀ ts a, L ts a → ∃ t us, ts = t :: us ∧ t.kind ∈ kinds

theorem Starts.ne_nil {kinds : List Kind} {L : Language α} (h : Starts kinds L) {ts : List Token}
    {a : α} (hl : L ts a) : ts ≠ [] := by
  obtain ⟨t, us, rfl, _⟩ := h ts a hl
  exact List.cons_ne_nil _ _

theorem Starts.notNext {kinds other : List Kind} {L : Language α} (h : Starts kinds L)
    {ts : List Token} {a : α} (hl : L ts a) (k : List Token) (hd : ∀ kind ∈ kinds, kind ∉ other) :
    NotNext other (ts ++ k) := by
  obtain ⟨t, us, rfl, ht⟩ := h ts a hl
  rw [List.cons_append, notNext_cons]
  exact hd _ ht

end Parser

end Offside
