import Offside.Proofs.Grammar.Promptness
import Offside.Proofs.Token.Alongside

/-! Readers do not notice line ends that are put in where a line may start, nor do they notice where
tokens stand.

`Padded ts us` says that `us` is `ts` with line ends put in, each after a line end, an opening or a
closing of a level, and none between a closing and an `else`. `Agrees` relates two readers that run
side by side, one over `ts` and one over `us`: either both succeed, with results that look the same,
or both fail for the same cause. The bounds of their repetitions differ with the number of tokens.

Two readings are `Abreast` if their next tokens are the same. After an opening or a closing they may
be only `Near`: line ends are put in before what comes next, and these have to be skipped first. -/
namespace Offside

/-- The kinds of tokens after which a line may start. -/
def lineStarters : List Kind := [.newline, .indent, .dedent]

/-- What a reader can tell of a token: it never asks for the text of a line end. -/
def Token.look (t : Token) : Kind × String := (t.kind, if t.kind = .newline then "" else t.text)

theorem Token.kind_of_look {t u : Token} (h : t.look = u.look) : t.kind = u.kind :=
  congrArg Prod.fst h

theorem Token.look_of_face {t u : Token} (h : t.face = u.face) : t.look = u.look := by
  rw [look, look, kind_of_face h, text_of_face h]

/-- No other text is left out. -/
theorem Token.face_of_look {t u : Token} (h : t.look = u.look) (ht : t.kind ≠ .newline) :
    t.face = u.face := by
  have hkind := kind_of_look h
  have htext := congrArg Prod.snd h
  simp only [look, if_neg ht, if_neg (hkind ▸ ht)] at htext
  rw [face, face, hkind, htext]

theorem map_look_of_faces {ts us : List Token} (h : ts.map Token.face = us.map Token.face) :
    ts.map Token.look = us.map Token.look := by
  have hlook : Token.look =
      (fun face => (face.1, if face.1 = .newline then "" else face.2)) ∘ Token.face := rfl
  rw [hlook, ← List.map_map, ← List.map_map, h]

namespace Grammar

/-- Line ends may be put in between a token and what follows it. -/
def Room (t : Token) (ts : List Token) : Prop :=
  t.kind = .newline ∨ t.kind ∈ [Kind.indent, .dedent] ∧ NotNext [.elseWord] ts

theorem Room.starter {t : Token} {ts : List Token} (h : Room t ts) : t.kind ∈ lineStarters := by
  rcases h with h | ⟨h, -⟩
  · exact h ▸ .head _
  · exact .tail _ h

/-- The same tokens, as far as a reader can tell, with line ends put in where there is room. -/
inductive Padded : List Token → List Token → Prop
  | nil : Padded [] []
  | cons {t u ns ts us} : t.look = u.look → Blank ns → (ns ≠ [] → Room t ts) → Padded ts us →
      Padded (t :: ts) (u :: (ns ++ us))

/-- Tokens that look the same, in front of padded ones. -/
theorem Padded.prepend {ts us k₁ k₂ : List Token} (hlooks : ts.map Token.look = us.map Token.look)
    (h : Padded k₁ k₂) : Padded (ts ++ k₁) (us ++ k₂) := by
  induction ts generalizing us with
  | nil =>
    obtain rfl : us = [] := List.map_eq_nil_iff.mp hlooks.symm
    exact h
  | cons t ts ih =>
    obtain ⟨u, us, rfl, hlook, hrest⟩ := List.map_eq_cons_iff.mp hlooks.symm
    show Padded (t :: (ts ++ k₁)) (u :: ([] ++ (us ++ k₂)))
    exact .cons hlook.symm Parser.blank_nil (fun hne => absurd rfl hne) (ih hrest.symm)

theorem Padded.of_looks {ts us : List Token} (hlooks : ts.map Token.look = us.map Token.look) :
    Padded ts us := by
  rw [← List.append_nil ts, ← List.append_nil us]
  exact .prepend hlooks .nil

theorem Padded.skip {ts us : List Token} (h : Padded ts us) : Padded (skip ts) (skip us) := by
  induction h with
  | nil => exact .nil
  | @cons t u ns ts us hlook hblank hroom h ih =>
    have hkind := Token.kind_of_look hlook
    by_cases ht : t.kind = .newline
    · have hu : Blank [u] := by simpa [Blank] using hkind.symm.trans ht
      have hleft : Offside.skip (t :: ts) = Offside.skip ts := by simp [Offside.skip, ht]
      rw [hleft, ← List.singleton_append, skip_of_blank hu, skip_of_blank hblank]
      exact ih
    · have hu : u.kind ≠ .newline := hkind ▸ ht
      rw [skip_of_notNext (by simpa using ht), skip_of_notNext (by simpa using hu)]
      exact .cons hlook hblank hroom h

/-- Nothing is put in among tokens after which no line may start. -/
theorem Padded.split {ts k₁ r : List Token} (hts : ∀ t ∈ ts, t.kind ∉ lineStarters)
    (h : Padded (ts ++ k₁) r) :
    ∃ us k₂, r = us ++ k₂ ∧ ts.length = us.length ∧ Padded k₁ k₂ := by
  induction ts generalizing r with
  | nil => exact ⟨[], r, rfl, rfl, h⟩
  | cons t ts ih =>
    rw [List.cons_append] at h
    cases h with
    | @cons _ u ns _ us _ _ hroom h =>
      have hns : ns = [] := by
        cases ns with
        | nil => rfl
        | cons n ns => exact absurd (hroom (List.cons_ne_nil _ _)).starter (hts t (.head _))
      subst hns
      obtain ⟨us', k₂, rfl, hlength, h⟩ := ih (fun t ht => hts t (.tail _ ht)) h
      exact ⟨u :: us', k₂, rfl, congrArg (· + 1) hlength, h⟩

end Grammar

open Grammar

namespace Reading

/-- The next tokens are the same, and line ends may be put in among those after them. -/
def Abreast (s₁ s₂ : Reading) : Prop := Padded s₁.cursor.rest s₂.cursor.rest

/-- Line ends that were put in may stand next, but not before an `else`. -/
def Near (s₁ s₂ : Reading) : Prop :=
  ∃ ns us, s₂.cursor.rest = ns ++ us ∧ Blank ns ∧ Padded s₁.cursor.rest us ∧
    (ns ≠ [] → NotNext [.elseWord] s₁.cursor.rest)

/-- Line ends that were put in may stand next. -/
def Apart (s₁ s₂ : Reading) : Prop :=
  ∃ ns us, s₂.cursor.rest = ns ++ us ∧ Blank ns ∧ Padded s₁.cursor.rest us

variable {s₁ s₁' s₂ s₂' : Reading}

theorem Abreast.near (h : Abreast s₁ s₂) : Near s₁ s₂ :=
  ⟨[], s₂.cursor.rest, rfl, Parser.blank_nil, h, fun hne => absurd rfl hne⟩

theorem Near.apart (h : Near s₁ s₂) : Apart s₁ s₂ := by
  obtain ⟨ns, us, hr, hblank, h, -⟩ := h
  exact ⟨ns, us, hr, hblank, h⟩

theorem Apart.skip (h : Apart s₁ s₂) :
    Padded (Offside.skip s₁.cursor.rest) (Offside.skip s₂.cursor.rest) := by
  obtain ⟨ns, us, hr, hblank, h⟩ := h
  rw [hr, skip_of_blank hblank]
  exact h.skip

/-- Both readings are at their end, or both have a next token, which looks the same. -/
theorem Abreast.next (h : Abreast s₁ s₂) :
    (s₁.cursor.rest = [] ∧ s₂.cursor.rest = []) ∨
      ∃ t u k₁ k₂, s₁.cursor.rest = t :: k₁ ∧ s₂.cursor.rest = u :: k₂ ∧ t.look = u.look := by
  unfold Abreast at h
  generalize s₁.cursor.rest = r₁ at h
  generalize s₂.cursor.rest = r₂ at h
  cases h with
  | nil => exact .inl ⟨rfl, rfl⟩
  | cons hlook => exact .inr ⟨_, _, _, _, rfl, rfl, hlook⟩

section Taken
variable {t u : Token} (h : Abreast s₁ s₂) (h₁ : Moved s₁ [t] s₁') (h₂ : Moved s₂ [u] s₂')
include h h₁ h₂

theorem Abreast.rest_of_taken :
    ∃ ns us, s₂'.cursor.rest = ns ++ us ∧ Blank ns ∧ Padded s₁'.cursor.rest us ∧
      (ns ≠ [] → Room t s₁'.cursor.rest) := by
  unfold Abreast at h
  rw [h₁.rest, h₂.rest, List.singleton_append, List.singleton_append] at h
  generalize hr : s₂'.cursor.rest = r at h
  cases h with
  | cons _ hblank hroom h => exact ⟨_, _, rfl, hblank, h, hroom⟩

theorem Abreast.apart_of_taken : Apart s₁' s₂' := by
  obtain ⟨ns, us, hr, hblank, h, -⟩ := h.rest_of_taken h₁ h₂
  exact ⟨ns, us, hr, hblank, h⟩

theorem Abreast.near_of_taken (ht : t.kind ≠ .newline) : Near s₁' s₂' := by
  obtain ⟨ns, us, hr, hblank, h, hroom⟩ := h.rest_of_taken h₁ h₂
  exact ⟨ns, us, hr, hblank, h, fun hne => ((hroom hne).resolve_left ht).2⟩

theorem Abreast.abreast_of_taken (ht : t.kind ∉ lineStarters) : Abreast s₁' s₂' := by
  obtain ⟨ns, us, hr, -, h, hroom⟩ := h.rest_of_taken h₁ h₂
  have hns : ns = [] := by
    cases ns with
    | nil => rfl
    | cons n ns => exact absurd (hroom (List.cons_ne_nil _ _)).starter ht
  subst hns
  unfold Abreast
  rw [hr]
  exact h

end Taken

/-- What stands after tokens among which nothing is put in looks the same. -/
theorem Abreast.peekIs (h : Abreast s₁ s₂) (ts : List Token) {k : List Token}
    (hr : s₁.cursor.rest = ts ++ k)
    (hts : ∀ t ∈ ts, t.kind ∉ lineStarters) (kinds : List Kind) :
    s₁.cursor.peekIs (.ofNat ts.length) kinds = s₂.cursor.peekIs (.ofNat ts.length) kinds := by
  unfold Abreast at h
  rw [hr] at h
  obtain ⟨us, k₂, hr₂, hlength, h⟩ := h.split hts
  have hpeek₁ : s₁.cursor.peek? (.ofNat ts.length) = k.head? := by
    show s₁.cursor.rest[ts.length]? = k.head?
    rw [hr, List.getElem?_append_right (Nat.le_refl _), Nat.sub_self, List.head?_eq_getElem?]
  have hpeek₂ : s₂.cursor.peek? (.ofNat ts.length) = k₂.head? := by
    show s₂.cursor.rest[ts.length]? = k₂.head?
    rw [hr₂, hlength, List.getElem?_append_right (Nat.le_refl _), Nat.sub_self,
      List.head?_eq_getElem?]
  rw [Cursor.peekIs, Cursor.peekIs, hpeek₁, hpeek₂]
  cases h with
  | nil => rfl
  | cons hlook => simp [Token.kind_of_look hlook]

theorem Abreast.peekIs_zero (h : Abreast s₁ s₂) (kinds : List Kind) :
    s₁.cursor.peekIs 0 kinds = s₂.cursor.peekIs 0 kinds :=
  h.peekIs [] rfl nofun kinds

/-- Fewer tokens are left than a bound. -/
structure Under (n : Nat) (s : Reading) : Prop where
  bounded : s.Bounded
  length : s.cursor.rest.length < n

theorem Under.mono {m n : Nat} {s : Reading} (h : s.Under m) (hmn : m ≤ n) : s.Under n :=
  ⟨h.bounded, Nat.lt_of_lt_of_le h.length hmn⟩

theorem Under.moved {n : Nat} {s s' : Reading} {ts : List Token} (h : s.Under n)
    (hm : Moved s ts s') {k : Nat} (hk : k ≤ ts.length) : s'.Under (n - k) := by
  have hlen := h.length
  rw [hm.rest, List.length_append] at hlen
  exact ⟨hm.bounded h.bounded, by omega⟩

end Reading

namespace Parser

open Reading

variable {α β γ δ : Type} {n₁ n₂ : Nat} {P Q Q' : Reading → Reading → Prop} {view : α → γ}
  {view' : β → δ} {p q : Parser α} {s₁ s₂ : Reading}

/-- Both readers succeeded, with results that look the same, or both failed for the same cause. The
second takes a token if the first does. -/
inductive Same (view : α → γ) (Q : Reading → Reading → Prop) (s₁ s₂ : Reading) :
    EStateM.Result ParseError Reading α → EStateM.Result ParseError Reading α → Prop
  | ok {a b s₁' s₂' ts us} : view a = view b → Moved s₁ ts s₁' → Moved s₂ us s₂' →
      (ts ≠ [] → us ≠ []) → Q s₁' s₂' → Same view Q s₁ s₂ (.ok a s₁') (.ok b s₂')
  | error {e₁ e₂ s₁' s₂'} : e₁.cause = e₂.cause →
      Same view Q s₁ s₂ (.error e₁ s₁') (.error e₂ s₂')

/-- Where fewer tokens are left than the bounds, readers that start in `P` come to the same and, if
they succeed, end in `Q`. -/
def Agrees (n₁ n₂ : Nat) (P : Reading → Reading → Prop) (view : α → γ)
    (Q : Reading → Reading → Prop) (p q : Parser α) : Prop :=
  ∀ s₁ s₂, s₁.Under n₁ → s₂.Under n₂ → P s₁ s₂ → Same view Q s₁ s₂ (p s₁) (q s₂)

theorem Agrees.mono {m₁ m₂ : Nat} (h : Agrees n₁ n₂ P view Q p q) (h₁ : m₁ ≤ n₁) (h₂ : m₂ ≤ n₂) :
    Agrees m₁ m₂ P view Q p q :=
  fun s₁ s₂ hs₁ hs₂ => h s₁ s₂ (hs₁.mono h₁) (hs₂.mono h₂)

theorem Same.imp {r₁ r₂ : EStateM.Result ParseError Reading α} (h : Same view Q s₁ s₂ r₁ r₂)
    (hQ : ∀ s₁' s₂', Q s₁' s₂' → Q' s₁' s₂') : Same view Q' s₁ s₂ r₁ r₂ := by
  cases h with
  | ok hview hm₁ hm₂ hne h => exact .ok hview hm₁ hm₂ hne (hQ _ _ h)
  | error he => exact .error he

theorem Agrees.near (h : Agrees n₁ n₂ P view Abreast p q) : Agrees n₁ n₂ P view Near p q :=
  fun s₁ s₂ hs₁ hs₂ hP => (h s₁ s₂ hs₁ hs₂ hP).imp fun _ _ => Abreast.near

/-- Results that look the same also do so under a view that shows less. -/
theorem Agrees.seen {γ' : Type} {less : α → γ'} (h : Agrees n₁ n₂ P view Q p q)
    (hless : ∀ a b, view a = view b → less a = less b) : Agrees n₁ n₂ P less Q p q := by
  intro s₁ s₂ hs₁ hs₂ hP
  have hsame := h s₁ s₂ hs₁ hs₂ hP
  generalize p s₁ = r₁ at hsame ⊢
  generalize q s₂ = r₂ at hsame ⊢
  cases hsame with
  | ok hview hm₁ hm₂ hne hQ => exact .ok (hless _ _ hview) hm₁ hm₂ hne hQ
  | error he => exact .error he

/-- What comes after tokens that both took. -/
theorem Same.after {r₁ r₂ : EStateM.Result ParseError Reading α} {s₁' s₂' : Reading}
    {ts us : List Token} (h : Same view Q s₁' s₂' r₁ r₂) (hm₁ : Moved s₁ ts s₁')
    (hm₂ : Moved s₂ us s₂') (hne : ts ≠ [] → us ≠ []) : Same view Q s₁ s₂ r₁ r₂ := by
  cases h with
  | error he => exact .error he
  | @ok _ _ _ _ vs ws hview hm₁' hm₂' hne' hQ =>
    refine .ok hview (hm₁.trans hm₁') (hm₂.trans hm₂') (fun hvs hws => ?_) hQ
    obtain ⟨rfl, rfl⟩ := List.append_eq_nil_iff.mp hws
    have hts : ts = [] := Decidable.byContradiction fun h => hne h rfl
    have hvs' : vs = [] := Decidable.byContradiction fun h => hne' h rfl
    exact hvs (by rw [hts, hvs', List.append_nil])

/-- Both readers go on without having taken anything. -/
theorem Same.of_ok {ε : Type} {r r' : Parser ε} {f g : ε → Parser β} {a b : ε}
    (h₁ : r s₁ = .ok a s₁) (h₂ : r' s₂ = .ok b s₂)
    (hf : Same view' Q s₁ s₂ (f a s₁) (g b s₂)) :
    Same view' Q s₁ s₂ ((r >>= f) s₁) ((r' >>= g) s₂) := by
  rwa [bind_of_ok h₁, bind_of_ok h₂]

/-- One reader after another, where the first takes a token to return what `takes` says. -/
theorem Agrees.bind_of_takes {f g : α → Parser β} (hp : Agrees n₁ n₂ P view Q p q)
    (takes : α → Bool)
    (htakes : ∀ s ts a s', s.Bounded → p s = .ok a s' → Moved s ts s' → takes a → ts ≠ [])
    (hf : ∀ a b, view a = view b →
      Agrees (n₁ - (takes a).toNat) (n₂ - (takes a).toNat) Q view' Q' (f a) (g b)) :
    Agrees n₁ n₂ P view' Q' (p >>= f) (q >>= g) := by
  intro s₁ s₂ hs₁ hs₂ hP
  have hfirst := hp s₁ s₂ hs₁ hs₂ hP
  generalize hr₁ : p s₁ = r₁ at hfirst
  generalize hr₂ : q s₂ = r₂ at hfirst
  cases hfirst with
  | @error e₁ e₂ s₁' s₂' he =>
    rw [bind_eq_error.mpr (.inl hr₁), bind_eq_error.mpr (.inl hr₂)]
    exact .error he
  | @ok a b s₁' s₂' ts us hview hm₁ hm₂ hne hQ =>
    rw [bind_of_ok hr₁, bind_of_ok hr₂]
    have hts : takes a → ts ≠ [] := htakes s₁ ts a s₁' hs₁.bounded hr₁ hm₁
    have hlengths : (takes a).toNat ≤ ts.length ∧ (takes a).toNat ≤ us.length := by
      cases htake : takes a with
      | false => exact ⟨Nat.zero_le _, Nat.zero_le _⟩
      | true =>
        have hts := hts htake
        exact ⟨List.length_pos_iff.mpr hts, List.length_pos_iff.mpr (hne hts)⟩
    have hsecond := hf a b hview s₁' s₂' (hs₁.moved hm₁ hlengths.1) (hs₂.moved hm₂ hlengths.2) hQ
    exact hsecond.after hm₁ hm₂ hne

theorem Agrees.bind {f g : α → Parser β} (hp : Agrees n₁ n₂ P view Q p q)
    (hf : ∀ a b, view a = view b → Agrees n₁ n₂ Q view' Q' (f a) (g b)) :
    Agrees n₁ n₂ P view' Q' (p >>= f) (q >>= g) :=
  hp.bind_of_takes (fun _ => false) (fun _ _ _ _ _ _ _ => nofun) hf

/-- One reader after another, where the first comes to the very same. -/
theorem Agrees.bindEq {f g : α → Parser β} (hp : Agrees n₁ n₂ P id Q p q)
    (hf : ∀ a, Agrees n₁ n₂ Q view' Q' (f a) (g a)) :
    Agrees n₁ n₂ P view' Q' (p >>= f) (q >>= g) := by
  refine hp.bind fun a b hab => ?_
  cases hab
  exact hf a

/-- A reader of a language without the empty sequence takes a token. -/
theorem Agrees.bind_of_starts {L : Language α} {kinds : List Kind} {f g : α → Parser β}
    (hp : Agrees n₁ n₂ P view Q p q) (hs : Sound p L) (hstart : Starts kinds L)
    (hf : ∀ a b, view a = view b → Agrees (n₁ - 1) (n₂ - 1) Q view' Q' (f a) (g b)) :
    Agrees n₁ n₂ P view' Q' (p >>= f) (q >>= g) := by
  refine hp.bind_of_takes (fun _ => true) (fun s ts a s' hb h hm _ => ?_) hf
  obtain ⟨us, hm', hl⟩ := hs s a s' hb h
  obtain rfl := hm.unique hm'
  exact hstart.ne_nil hl

theorem pure_agrees {a b : α} (h : view a = view b) :
    Agrees n₁ n₂ P view P (pure a : Parser α) (pure b) :=
  fun s₁ s₂ _ _ hP => .ok h (Moved.refl s₁) (Moved.refl s₂) id hP

/-! ### Single tokens -/

/-- Looking at tokens that are the same on both sides. -/
theorem Same.nextIs {f g : Bool → Parser β} {i : Int} {kinds : List Kind}
    (hpeek : s₁.cursor.peekIs i kinds = s₂.cursor.peekIs i kinds)
    (hf : ∀ b, s₁.cursor.peekIs i kinds = b → Same view' Q s₁ s₂ (f b s₁) (g b s₂)) :
    Same view' Q s₁ s₂ ((nextIs i kinds >>= f) s₁) ((nextIs i kinds >>= g) s₂) :=
  .of_ok (nextIs_run i kinds s₁) (nextIs_run i kinds s₂) (by rw [← hpeek]; exact hf _ rfl)

theorem Agrees.nextIs {kinds : List Kind} {f g : Bool → Parser β}
    (hf : ∀ b, Agrees n₁ n₂ Abreast view' Q (f b) (g b)) :
    Agrees n₁ n₂ Abreast view' Q (nextIs 0 kinds >>= f) (nextIs 0 kinds >>= g) :=
  fun s₁ s₂ hs₁ hs₂ h => .nextIs (h.peekIs_zero kinds) fun b _ => hf b s₁ s₂ hs₁ hs₂ h

/-- Readers that are chosen by the next two tokens, the first of them a word. -/
theorem Agrees.ifWord {p' q' : Parser α} {kinds : List Kind}
    (hp : Agrees n₁ n₂ Abreast view Q p p') (hq : Agrees n₁ n₂ Abreast view Q q q') :
    Agrees n₁ n₂ Abreast view Q
      (do if (← Parser.nextIs 0 [.word]) && (← Parser.nextIs 1 kinds) then p else q)
      (do if (← Parser.nextIs 0 [.word]) && (← Parser.nextIs 1 kinds) then p' else q') := by
  intro s₁ s₂ hs₁ hs₂ h
  refine .nextIs (h.peekIs_zero [.word]) fun b hb => ?_
  cases b with
  | false => exact .of_ok (nextIs_run ..) (nextIs_run ..) (hq s₁ s₂ hs₁ hs₂ h)
  | true =>
    obtain ⟨t, k, hr, ht⟩ := next_of_peekIs [] rfl hb
    have hplain : ∀ u ∈ [t], u.kind ∉ lineStarters := by
      simp [List.mem_singleton.mp ht, lineStarters]
    refine .nextIs (h.peekIs [t] hr hplain kinds) fun b _ => ?_
    cases b with
    | false => exact hq s₁ s₂ hs₁ hs₂ h
    | true => exact hp s₁ s₂ hs₁ hs₂ h

/-- Where something stands makes no difference. -/
theorem still_agrees (hp : Still p) (hq : Still q) :
    Agrees n₁ n₂ Abreast (fun _ => ()) Abreast p q := by
  intro s₁ s₂ _ _ h
  obtain ⟨a, s₁', h₁, hm₁⟩ := hp s₁
  obtain ⟨b, s₂', h₂, hm₂⟩ := hq s₂
  rw [h₁, h₂]
  refine .ok rfl hm₁ hm₂ id ?_
  unfold Abreast at h
  rwa [hm₁.rest, hm₂.rest] at h

theorem spanFrom_agrees (start start' : Position) :
    Agrees n₁ n₂ Abreast (fun _ => ()) Abreast (spanFrom start) (spanFrom start') :=
  still_agrees (spanFrom_still start) (spanFrom_still start')

theorem Abreast.complaint (h : Abreast s₁ s₂) (kinds : List Kind) :
    (s₁.cursor.complaint kinds).cause = (s₂.cursor.complaint kinds).cause := by
  rcases h.next with ⟨h₁, h₂⟩ | ⟨t, u, k₁, k₂, h₁, h₂, hlook⟩
  · simp only [Cursor.complaint, h₁, h₂]
  · simp only [Cursor.complaint, h₁, h₂, Token.kind_of_look hlook]

theorem complain_agrees (kinds : List Kind) :
    Agrees n₁ n₂ Abreast view Q (complain kinds) (complain kinds) :=
  fun _ _ _ _ h => .error (Abreast.complaint h kinds)

/-- Readers that fail at once, for a cause of their own. -/
theorem throw_agrees {cause : ParseCause} {f g : Reading → Span}
    (hp : ∀ s, p s = .error ⟨cause, f s⟩ s) (hq : ∀ s, q s = .error ⟨cause, g s⟩ s) :
    Agrees n₁ n₂ P view Q p q := by
  intro s₁ s₂ _ _ _
  rw [hp, hq]
  exact .error rfl

/-- Two readings that took a token of one of the kinds are then in `R`. -/
def Leaves (kinds : List Kind) (R : Reading → Reading → Prop) : Prop :=
  ∀ s₁ s₂ s₁' s₂' t u, Abreast s₁ s₂ → Moved s₁ [t] s₁' → Moved s₂ [u] s₂' → t.kind ∈ kinds →
    R s₁' s₂'

theorem leaves_abreast {kinds : List Kind} (h : ∀ kind ∈ kinds, kind ∉ lineStarters) :
    Leaves kinds Abreast :=
  fun _ _ _ _ _ _ habreast hm₁ hm₂ ht => habreast.abreast_of_taken hm₁ hm₂ (h _ ht)

theorem leaves_near {kinds : List Kind} (h : Kind.newline ∉ kinds) : Leaves kinds Near :=
  fun _ _ _ _ _ _ habreast hm₁ hm₂ ht => habreast.near_of_taken hm₁ hm₂ fun heq => h (heq ▸ ht)

theorem leaves_apart (kinds : List Kind) : Leaves kinds Apart :=
  fun _ _ _ _ _ _ habreast hm₁ hm₂ _ => habreast.apart_of_taken hm₁ hm₂

theorem expectAny_agrees {kinds : List Kind} {view : Token → γ} (h : Leaves kinds Q)
    (hview : ∀ t u : Token, t.kind ∈ kinds → t.look = u.look → view t = view u) :
    Agrees n₁ n₂ Abreast view Q (expectAny kinds) (expectAny kinds) := by
  intro s₁ s₂ _ _ habreast
  have hcomplaint := Abreast.complaint habreast kinds
  rcases habreast.next with ⟨h₁, h₂⟩ | ⟨t, u, k₁, k₂, h₁, h₂, hlook⟩
  · rw [expectAny_of_notNext (by simp [h₁]), expectAny_of_notNext (by simp [h₂])]
    exact .error hcomplaint
  · have hkind := Token.kind_of_look hlook
    by_cases ht : t.kind ∈ kinds
    · obtain ⟨s₁', hr₁, hm₁⟩ := expectAny_of_next kinds h₁ ht
      obtain ⟨s₂', hr₂, hm₂⟩ := expectAny_of_next kinds h₂ (hkind ▸ ht)
      rw [hr₁, hr₂]
      exact .ok (hview t u ht hlook) hm₁ hm₂ (fun _ => List.cons_ne_nil _ _)
        (h s₁ s₂ s₁' s₂' t u habreast hm₁ hm₂ ht)
    · have hu : u.kind ∉ kinds := hkind ▸ ht
      rw [expectAny_of_notNext (by simpa [h₁] using ht),
        expectAny_of_notNext (by simpa [h₂] using hu)]
      exact .error hcomplaint

/-- What is done with a token after it was taken. -/
theorem Agrees.bind_expectAny {kinds : List Kind} {view : Token → γ} {f g : Token → Parser β}
    (h : Agrees n₁ n₂ Abreast view Q (expectAny kinds) (expectAny kinds))
    (hf : ∀ t u, view t = view u → Agrees (n₁ - 1) (n₂ - 1) Q view' Q' (f t) (g u)) :
    Agrees n₁ n₂ Abreast view' Q' (expectAny kinds >>= f) (expectAny kinds >>= g) := by
  refine h.bind_of_takes (fun _ => true) (fun s ts a s' _ hr hm _ => ?_) hf
  rw [hm.unique (expectAny_sound hr).2]
  exact List.cons_ne_nil _ _

theorem Agrees.expectAny {kinds : List Kind} {f g : Token → Parser β} (h : Leaves kinds Q)
    (hf : ∀ t u, t.look = u.look → Agrees (n₁ - 1) (n₂ - 1) Q view' Q' (f t) (g u)) :
    Agrees n₁ n₂ Abreast view' Q' (expectAny kinds >>= f) (expectAny kinds >>= g) :=
  .bind_expectAny (expectAny_agrees h fun _ _ _ => id) hf

/-- A token after which no line may start. -/
theorem Agrees.expect {kind : Kind} {f g : Token → Parser β} (h : kind ∉ lineStarters)
    (hf : ∀ t u, t.face = u.face → Agrees (n₁ - 1) (n₂ - 1) Abreast view' Q' (f t) (g u)) :
    Agrees n₁ n₂ Abreast view' Q' (expect kind >>= f) (expect kind >>= g) := by
  refine .bind_expectAny (expectAny_agrees (leaves_abreast (by simpa using h)) ?_) hf
  intro t u ht hlook
  refine Token.face_of_look hlook fun hline => h ?_
  rw [← List.mem_singleton.mp ht, hline]
  exact .head _

theorem Agrees.acceptAny {kind : Kind} {f g : Bool → Parser β} (h : Leaves [kind] Q)
    (hyes : Agrees (n₁ - 1) (n₂ - 1) Q view' Q' (f true) (g true))
    (hno : Agrees n₁ n₂ Abreast view' Q' (f false) (g false)) :
    Agrees n₁ n₂ Abreast view' Q' (accept kind >>= f) (accept kind >>= g) := by
  intro s₁ s₂ hs₁ hs₂ habreast
  rcases habreast.next with ⟨h₁, h₂⟩ | ⟨t, u, k₁, k₂, h₁, h₂, hlook⟩
  · exact .of_ok (accept_of_notNext (by simp [h₁])) (accept_of_notNext (by simp [h₂]))
      (hno s₁ s₂ hs₁ hs₂ habreast)
  · have hkind := Token.kind_of_look hlook
    by_cases ht : t.kind = kind
    · obtain ⟨s₁', hr₁, hm₁⟩ := accept_of_next h₁ ht
      obtain ⟨s₂', hr₂, hm₂⟩ := accept_of_next h₂ (hkind ▸ ht)
      rw [bind_of_ok hr₁, bind_of_ok hr₂]
      have hQ := h s₁ s₂ s₁' s₂' t u habreast hm₁ hm₂ (by simp [ht])
      have hnext := hyes s₁' s₂' (hs₁.moved hm₁ (Nat.le_refl 1)) (hs₂.moved hm₂ (Nat.le_refl 1)) hQ
      exact hnext.after hm₁ hm₂ fun _ => List.cons_ne_nil _ _
    · have hu : u.kind ≠ kind := hkind ▸ ht
      exact .of_ok (accept_of_notNext (by simpa [h₁] using ht))
        (accept_of_notNext (by simpa [h₂] using hu)) (hno s₁ s₂ hs₁ hs₂ habreast)

theorem Agrees.accept {kind : Kind} {f g : Bool → Parser β} (h : kind ∉ lineStarters)
    (hyes : Agrees (n₁ - 1) (n₂ - 1) Abreast view' Q' (f true) (g true))
    (hno : Agrees n₁ n₂ Abreast view' Q' (f false) (g false)) :
    Agrees n₁ n₂ Abreast view' Q' (accept kind >>= f) (accept kind >>= g) :=
  .acceptAny (leaves_abreast (by simpa using h)) hyes hno

/-- Line ends that were put in hide no `else`. -/
theorem Agrees.acceptElse {f g : Bool → Parser β}
    (hyes : Agrees (n₁ - 1) (n₂ - 1) Abreast view' Near (f true) (g true))
    (hno : Agrees n₁ n₂ Near view' Near (f false) (g false)) :
    Agrees n₁ n₂ Near view' Near (Parser.accept .elseWord >>= f)
      (Parser.accept .elseWord >>= g) := by
  intro s₁ s₂ hs₁ hs₂ hnear
  obtain ⟨ns, us, hr, hblank, hpadded, helse⟩ := hnear
  cases ns with
  | nil =>
    have habreast : Abreast s₁ s₂ := by
      unfold Abreast
      rw [hr]
      exact hpadded
    have hno' : Agrees n₁ n₂ Abreast view' Near (f false) (g false) :=
      fun s₁ s₂ hs₁ hs₂ h => hno s₁ s₂ hs₁ hs₂ h.near
    exact Agrees.accept (by decide) hyes hno' s₁ s₂ hs₁ hs₂ habreast
  | cons n ns =>
    have helse := helse (List.cons_ne_nil _ _)
    have hn : n.kind = .newline := hblank n (List.mem_cons_self ..)
    refine .of_ok (accept_of_notNext helse) (accept_of_notNext ?_) (hno s₁ s₂ hs₁ hs₂ ?_)
    · simp [hr, hn]
    · exact ⟨n :: ns, us, hr, hblank, hpadded, fun _ => helse⟩

/-! ### Repetitions -/

/-- A bound of none is as good as one where nothing is left. -/
def Idle (p : Nat → Parser α) : Prop := ∀ s, s.cursor.rest = [] → p 0 s = p 1 s

/-- A repetition with an argument that changes from round to round, each of which takes a token. -/
theorem Agrees.loopWith {ι : Type} {A B : Reading → Reading → Prop} {p q : Nat → ι → Parser α}
    (hp : ∀ i, Idle fun b => p b i) (hq : ∀ i, Idle fun b => q b i)
    (hstep : ∀ b₁ b₂ m₁ m₂, m₁ ≤ n₁ → m₂ ≤ n₂ →
      (∀ i, Agrees (m₁ - 1) (m₂ - 1) A view B (p b₁ i) (q b₂ i)) →
      ∀ i, Agrees m₁ m₂ A view B (p (b₁ + 1) i) (q (b₂ + 1) i)) (i : ι) :
    Agrees n₁ n₂ A view B (withBound fun b => p b i) (withBound fun b => q b i) := by
  have hround : ∀ {r : Nat → Parser α} {b m : Nat} {s : Reading}, Idle r → m ≤ b + 1 → s.Under m →
      r b s = r (b - 1 + 1) s := by
    intro r b m s hr hm hs
    cases b with
    | zero =>
      have hlen := hs.length
      exact hr s (List.length_eq_zero_iff.mp (by omega))
    | succ b => rfl
  have hbounds : ∀ b₁ b₂ m₁ m₂, m₁ ≤ n₁ → m₂ ≤ n₂ → m₁ ≤ b₁ + 1 → m₂ ≤ b₂ + 1 →
      ∀ i, Agrees m₁ m₂ A view B (p b₁ i) (q b₂ i) := by
    intro b₁
    induction b₁ with
    | zero =>
      intro b₂ m₁ m₂ h₁ h₂ hb₁ hb₂ i s₁ s₂ hs₁ hs₂
      have hvacuous : ∀ i, Agrees (m₁ - 1) (m₂ - 1) A view B (p 0 i) (q (b₂ - 1) i) :=
        fun i s₁ _ hs₁ => absurd hs₁.length (by omega)
      rw [hround (hp i) hb₁ hs₁, hround (hq i) hb₂ hs₂]
      exact hstep 0 (b₂ - 1) m₁ m₂ h₁ h₂ hvacuous i s₁ s₂ hs₁ hs₂
    | succ b₁ ih =>
      intro b₂ m₁ m₂ h₁ h₂ hb₁ hb₂ i s₁ s₂ hs₁ hs₂
      have hrest : ∀ i, Agrees (m₁ - 1) (m₂ - 1) A view B (p b₁ i) (q (b₂ - 1) i) := by
        cases b₂ with
        | zero => exact fun i _ s₂ _ hs₂ => absurd hs₂.length (by omega)
        | succ b₂ => exact ih b₂ _ _ (by omega) (by omega) (by omega) (by omega)
      rw [hround (hq i) hb₂ hs₂]
      exact hstep b₁ (b₂ - 1) m₁ m₂ h₁ h₂ hrest i s₁ s₂ hs₁ hs₂
  intro s₁ s₂ hs₁ hs₂
  exact hbounds s₁.count s₂.count (s₁.cursor.rest.length + 1) (s₂.cursor.rest.length + 1) hs₁.length
    hs₂.length (Nat.succ_le_succ hs₁.bounded) (Nat.succ_le_succ hs₂.bounded) i s₁ s₂
    ⟨hs₁.bounded, Nat.lt_succ_self _⟩ ⟨hs₂.bounded, Nat.lt_succ_self _⟩

theorem Agrees.loop {A B : Reading → Reading → Prop} {p q : Nat → Parser α} (hp : Idle p)
    (hq : Idle q)
    (hstep : ∀ b₁ b₂ m₁ m₂, m₁ ≤ n₁ → m₂ ≤ n₂ → Agrees (m₁ - 1) (m₂ - 1) A view B (p b₁) (q b₂) →
      Agrees m₁ m₂ A view B (p (b₁ + 1)) (q (b₂ + 1))) :
    Agrees n₁ n₂ A view B (withBound p) (withBound q) :=
  Agrees.loopWith (p := fun b (_ : Unit) => p b) (q := fun b (_ : Unit) => q b) (fun _ => hp)
    (fun _ => hq) (fun b₁ b₂ m₁ m₂ h₁ h₂ ih _ => hstep b₁ b₂ m₁ m₂ h₁ h₂ (ih ())) ()

theorem accept_of_nil (kind : Kind) {s : Reading} (hr : s.cursor.rest = []) :
    Parser.accept kind s = .ok false s :=
  accept_of_notNext (by simp [hr])

theorem countOf_idle (kind : Kind) : Idle (countOf kind) := by
  intro s hr
  rw [countOf, countOf, bind_of_ok (accept_of_nil kind hr)]
  rfl

theorem countOf_agrees {kind : Kind} (h : kind ∉ lineStarters) :
    Agrees n₁ n₂ Abreast id Abreast (withBound (countOf kind)) (withBound (countOf kind)) := by
  refine .loop (countOf_idle kind) (countOf_idle kind) fun b₁ b₂ m₁ m₂ _ _ ih => ?_
  exact .accept h (ih.bind fun a b hab => pure_agrees (congrArg (· + 1) hab)) (pure_agrees rfl)

/-- Line ends that were put in are skipped with the others. -/
theorem skipNewlines_agrees : Agrees n₁ n₂ Apart id Abreast skipNewlines skipNewlines := by
  intro s₁ s₂ hs₁ hs₂ h
  obtain ⟨ns₁, s₁', h₁, hm₁, hblank, hr₁⟩ := skipNewlines_run hs₁.bounded
  obtain ⟨ns₂, s₂', h₂, hm₂, -, hr₂⟩ := skipNewlines_run hs₂.bounded
  rw [h₁, h₂]
  refine .ok rfl hm₁ hm₂ (fun hne heq => ?_) ?_
  · -- A line end on the left is one on the right, or comes after one there.
    subst heq
    obtain ⟨n, ns, rfl⟩ := List.exists_cons_of_ne_nil hne
    have hn : n.kind = .newline := hblank n (List.mem_cons_self ..)
    have hstart : NotNext [.newline] s₂.cursor.rest := by
      have hrest : s₂.cursor.rest = skip s₂.cursor.rest := by
        rw [← hr₂]
        exact hm₂.rest
      rw [hrest]
      exact notNext_skip _
    obtain ⟨ms, us, hr, hms, hpadded⟩ := h
    rw [hm₁.rest] at hpadded
    rw [hr] at hstart
    cases hpadded with
    | cons hlook =>
      cases ms with
      | nil => exact hstart _ rfl (by simp [← Token.kind_of_look hlook, hn])
      | cons m ms => exact hstart _ rfl (by simp [hms m (List.mem_cons_self ..)])
  · unfold Abreast
    rw [hr₁, hr₂]
    exact h.skip

theorem skipNewlines_agrees_of_near : Agrees n₁ n₂ Near id Abreast skipNewlines skipNewlines :=
  fun s₁ s₂ hs₁ hs₂ h => skipNewlines_agrees s₁ s₂ hs₁ hs₂ h.apart

theorem lineEnd_agrees : Agrees n₁ n₂ Abreast id Abreast lineEnd lineEnd :=
  .expectAny (leaves_apart _) fun _ _ _ => skipNewlines_agrees

section Lists
variable {item item' : Parser α}

theorem afterSeparators_idle (separator : Kind) (item : Parser α) :
    Idle (afterSeparators separator item) := by
  intro s hr
  rw [afterSeparators, afterSeparators, bind_of_ok (accept_of_nil separator hr)]
  rfl

theorem map_cons_of_map {a b : α} {as bs : List α} (h : view a = view b)
    (hs : as.map view = bs.map view) : (a :: as).map view = (b :: bs).map view := by
  rw [List.map_cons, List.map_cons, h, hs]

theorem afterSeparators_agrees {separator : Kind} (h : separator ∉ lineStarters)
    (hitem : Agrees n₁ n₂ Abreast view Abreast item item') :
    Agrees n₁ n₂ Abreast (List.map view) Abreast (withBound (afterSeparators separator item))
      (withBound (afterSeparators separator item')) := by
  refine .loop (afterSeparators_idle _ _) (afterSeparators_idle _ _) fun b₁ b₂ m₁ m₂ h₁ h₂ ih =>
    .accept h ?_ (pure_agrees rfl)
  exact (hitem.mono (by omega) (by omega)).bind fun _ _ hab => ih.bind fun _ _ has =>
    pure_agrees (map_cons_of_map hab has)

theorem separated_agrees {separator : Kind} (h : separator ∉ lineStarters)
    (hitem : Agrees n₁ n₂ Abreast view Abreast item item') :
    Agrees n₁ n₂ Abreast (List.map view) Abreast (separated separator item)
      (separated separator item') :=
  hitem.bind fun _ _ hab => (afterSeparators_agrees h hitem).bind fun _ _ has =>
    pure_agrees (map_cons_of_map hab has)

/-- A reader of a language without the empty sequence fails where nothing is left. -/
theorem error_of_nil {L : Language α} {kinds : List Kind} (hs : Sound p L) (hstart : Starts kinds L)
    {s : Reading} (hr : s.cursor.rest = []) : ∃ e s', p s = .error e s' := by
  cases hrun : p s with
  | error e s' => exact ⟨e, s', rfl⟩
  | ok a s' =>
    have hb : s.Bounded := by simp [Bounded, hr]
    obtain ⟨ts, hm, hl⟩ := hs s a s' hb hrun
    have hts := hm.rest
    rw [hr] at hts
    exact absurd (List.append_eq_nil_iff.mp hts.symm).1 (hstart.ne_nil hl)

theorem skipNewlines_of_nil {s : Reading} (hr : s.cursor.rest = []) :
    skipNewlines s = .ok () s := by
  have hcount : countOf .newline s.count s = .ok 0 s := by
    cases s.count with
    | zero => rfl
    | succ bound =>
      rw [countOf, bind_of_ok (accept_of_nil .newline hr)]
      rfl
  rw [skipNewlines, bind_of_ok (withBound_of_ok hcount)]
  rfl

theorem untilDedent_idle {L : Language α} {kinds : List Kind} (hs : Sound item L)
    (hstart : Starts kinds L) : Idle (untilDedent item) := by
  intro s hr
  obtain ⟨e, s', he⟩ := error_of_nil hs hstart hr
  have hzero : untilDedent item 0 s = .error e s' := bind_eq_error.mpr (.inl he)
  have hone : untilDedent item 1 s = .error e s' := by
    rw [untilDedent, bind_of_ok (skipNewlines_of_nil hr), bind_of_ok (accept_of_nil .dedent hr)]
    exact bind_eq_error.mpr (.inl he)
  rw [hzero, hone]

/-- A block may be padded before each of its items and before its end. -/
theorem block_agrees {L : Language α} {kinds : List Kind} (hs : Sound item L)
    (hs' : Sound item' L) (hstart : Starts kinds L)
    (hitem : Agrees n₁ n₂ Abreast view Near item item') :
    Agrees n₁ n₂ Abreast (List.map view) Near (block item) (block item') := by
  refine .expectAny (leaves_near (by decide)) fun _ _ _ =>
    .loop (untilDedent_idle hs hstart) (untilDedent_idle hs' hstart) fun b₁ b₂ m₁ m₂ h₁ h₂ ih => ?_
  -- What was put in after the opening or the last item is skipped before the next token is looked at.
  refine skipNewlines_agrees_of_near.bind fun _ _ _ =>
    .acceptAny (leaves_near (by decide)) (pure_agrees rfl) ?_
  exact (hitem.mono (by omega) (by omega)).bind_of_starts hs hstart fun _ _ hab =>
    ih.bind fun _ _ has => pure_agrees (map_cons_of_map hab has)

end Lists

end Parser

end Offside
