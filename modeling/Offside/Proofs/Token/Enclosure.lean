import Offside.Proofs.Token.CommentLine

/-! Inside and outside quotes and comments.

Where quoted texts, quoted characters and comments start and end is told by quotes and braces alone:
`Enclosure.next` follows them through a text, whatever else is in it. A scanner that reads the text
without failing is inside what `Enclosure` says. -/
namespace Offside

/-- What a place in a text is inside of, as quotes and braces tell. -/
inductive Enclosure where
  | free
  | text
  /-- After the opening quote of a character. -/
  | quote
  /-- Before the closing quote of a character. -/
  | character
  /-- In a comment, with so many open inside it. -/
  | comment (inner : Nat)
  deriving DecidableEq

/-- What the place after one more character is inside of. -/
def Enclosure.next : Enclosure → Char → Enclosure
  | .free, c =>
    if c = '\x7b' then .comment 0 else if c = '"' then .text else if c = '\'' then .quote else .free
  | .text, c => if c = '"' then .free else .text
  | .quote, _ => .character
  | .character, _ => .free
  | .comment 0, c => if c = '\x7b' then .comment 1 else if c = '\x7d' then .free else .comment 0
  | .comment (inner + 1), c =>
    if c = '\x7b' then .comment (inner + 2) else if c = '\x7d' then .comment inner
    else .comment (inner + 1)

/-- After `before` a text is outside quotes and comments. -/
def Outside (before : List Char) : Prop := before.foldl Enclosure.next .free = .free

instance (before : List Char) : Decidable (Outside before) := inferInstanceAs (Decidable (_ = _))

/-- What was begun, as far as quotes and braces tell. -/
def Mode.enclosure : Mode → Enclosure
  | .text .. => .text
  | .quote _ => .quote
  | .character .. => .character
  | .comment _ inner => .comment inner
  | .gap | .margin _ | .word .. | .number .. | .symbol .. | .failed _ => .free

theorem Mode.inside_of_enclosure {mode : Mode} (h : mode.enclosure = .free) : mode.inside = false := by
  cases mode with
  | text | quote | character | comment => cases h
  | gap | margin | word | number | symbol | failed => rfl

/-- The characters that end a word, a number and a symbol wherever they follow one. -/
def breaks : List Char := ['\n', '\t', ' ', '\r', '\x7b', '"', '\'']

namespace Scanner

variable {s s' : Scanner} {c : Char} {w body : List Char}

theorem not_continues {mode : Mode} (hc : c ∈ breaks) : ¬ Continues mode c := by
  have hbreaks : breaks.all fun d => !Text.isLetter d && !Text.isDecimalDigit d && d != '.' := by
    decide +kernel
  have hother := List.all_eq_true.mp hbreaks c hc
  simp only [Bool.and_eq_true, Bool.not_eq_true', bne_iff_ne] at hother
  obtain ⟨⟨hletter, hdigit⟩, hpoint⟩ := hother
  have hpair : ∀ first, Kind.pair? first c = none := by
    intro first
    unfold Kind.pair?
    split <;> first | rfl | exact absurd hc (by decide)
  cases mode with
  | word => simp [Continues, hletter]
  | number => simp [Continues, hdigit, hpoint]
  | symbol => simp [Continues, hpair]
  | _ => exact id

theorem begin_failed (h : s.Failed) : s.begin c = s := by
  obtain ⟨e, he⟩ := h
  rw [begin, he]

/-- A character that does not go on with what was begun ends it and is read afresh. -/
theorem feed_of_not_continues (hout : s.mode.inside = false) (hline : ∀ m, s.mode ≠ .margin m)
    (hc : ¬ Continues s.mode c) : s.feed c = s.close.begin c := by
  unfold feed close
  cases hmode : s.mode with
  | text | quote | character | comment =>
    rw [hmode] at hout
    cases hout
  | margin m => exact absurd hmode (hline m)
  | failed e => exact (begin_failed ⟨e, hmode⟩).symm
  | gap => rfl
  | word p letters =>
    rw [hmode] at hc
    exact if_neg hc
  | number p digits point =>
    rw [hmode] at hc
    obtain ⟨hdigit, hpoint⟩ := not_or.mp hc
    dsimp only
    rw [if_neg hdigit, if_neg (by simpa using hpoint)]
  | symbol p first =>
    rw [hmode] at hc
    have hpair : Kind.pair? first c = none := by simpa [Continues] using hc
    simp only [hpair]

/-- A character that goes on with what was begun opens nothing. -/
theorem enclosure_of_continues (hc : Continues s.mode c) :
    (s.feed c).mode.enclosure = s.mode.enclosure.next c := by
  have hnot : ∀ d ∈ breaks, c ≠ d := by
    rintro d hd rfl
    exact not_continues hd hc
  have hnext : Enclosure.free.next c = .free := by
    simp [Enclosure.next, hnot '\x7b' (by decide), hnot '"' (by decide), hnot '\'' (by decide)]
  unfold feed
  cases hmode : s.mode with
  | gap | margin | text | quote | character | comment | failed =>
    rw [hmode] at hc
    exact absurd hc id
  | word p letters =>
    rw [hmode] at hc
    show _ = Enclosure.free.next c
    rw [hnext]
    dsimp only
    rw [if_pos (show Text.isLetter c from hc)]
    rfl
  | number p digits point =>
    rw [hmode] at hc
    show _ = Enclosure.free.next c
    rw [hnext]
    dsimp only
    split
    · rfl
    split
    · rfl
    · simp_all [Continues]
  | symbol p first =>
    rw [hmode] at hc
    obtain ⟨kind, hpair⟩ := Option.isSome_iff_exists.mp hc
    simp only [hpair]
    exact hnext.symm

theorem begin_enclosure (hok : ¬ (s.begin c).Failed) :
    (s.begin c).mode.enclosure = Enclosure.free.next c := by
  have hs : ¬ s.Failed := fun hfailed => hok (by rwa [begin_failed hfailed])
  rw [begin_of_not_failed hs]
  split
  case isTrue hline =>
    subst hline
    rfl
  case isFalse =>
    show (beginning _ c).enclosure = _
    unfold beginning
    dsimp only [Enclosure.next]
    repeat' split
    all_goals rfl

/-- In a line and outside quotes and comments, only a character read afresh opens any. -/
theorem feed_enclosure_of_free (hline : ∀ m, s.mode ≠ .margin m)
    (hfree : s.mode.enclosure = .free) (hok : ¬ (s.feed c).Failed) :
    (s.feed c).mode.enclosure = s.mode.enclosure.next c := by
  by_cases hc : Continues s.mode c
  · exact enclosure_of_continues hc
  · rw [feed_of_not_continues (Mode.inside_of_enclosure hfree) hline hc] at hok ⊢
    rw [begin_enclosure hok, hfree]

/-- As long as nothing fails, quotes and braces alone tell what a scanner is inside of. -/
theorem feed_enclosure (hok : ¬ (s.feed c).Failed) :
    (s.feed c).mode.enclosure = s.mode.enclosure.next c := by
  cases hmode : s.mode with
  | failed e => exact absurd (feed_failed ⟨e, hmode⟩) hok
  | gap | word | number | symbol =>
    rw [← hmode]
    exact feed_enclosure_of_free (by simp [hmode]) (by rw [hmode]; rfl) hok
  | margin m =>
    simp only [feed, hmode] at hok ⊢
    split at hok
    case h_5 => exact begin_enclosure hok
    all_goals rfl
  | text p chars =>
    simp only [feed, hmode]
    by_cases hc : c = '"'
    · rw [if_pos hc]
      exact (if_pos hc).symm
    · rw [if_neg hc]
      exact (if_neg hc).symm
  | quote p =>
    simp only [feed, hmode]
    rfl
  | character p quoted =>
    simp only [feed, hmode] at hok ⊢
    split
    case isTrue => rfl
    case isFalse hc =>
      rw [if_neg hc] at hok
      exact absurd ⟨_, rfl⟩ hok
  | comment p inner =>
    simp only [feed, hmode]
    split
    case h_1 => cases inner <;> rfl
    case h_2 | h_3 => rfl
    case h_4 hnested houter hinner =>
      have hopen : c ≠ '\x7b' := hnested
      have hclose : c ≠ '\x7d' := by
        rintro rfl
        cases inner with
        | zero => exact houter rfl rfl
        | succ inner => exact hinner inner rfl rfl
      cases inner <;> simp [Mode.enclosure, Enclosure.next, take, hopen, hclose]

theorem feedAll_enclosure (cs : List Char) (hok : ¬ (s.feedAll cs).Failed) :
    (s.feedAll cs).mode.enclosure = cs.foldl Enclosure.next s.mode.enclosure := by
  induction cs generalizing s with
  | nil => rfl
  | cons c cs ih =>
    have hfirst : ¬ (s.feed c).Failed := fun hfailed => hok (feedAll_failed hfailed cs)
    have hrest : ((s.feed c).feedAll cs).mode.enclosure = _ := ih hok
    rw [feed_enclosure hfirst] at hrest
    exact hrest

theorem inside_of_outside {file : String} {before : List Char} (hout : Outside before)
    (hok : ¬ ((start file).feedAll before).Failed) :
    ((start file).feedAll before).mode.inside = false := by
  apply Mode.inside_of_enclosure
  rw [feedAll_enclosure before hok]
  exact hout

end Scanner

end Offside
