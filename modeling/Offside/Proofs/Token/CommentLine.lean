import Offside.Proofs.Token.Alongside
import Offside.Proofs.Token.Nesting

/-! What a line with nothing but a comment adds to the tokens.

Such a line is put in before another one, with the same white space in front. It has the other
line's margin, so it opens and closes the levels that the other one would have, and its end is one
more token. What the other line then does depends on the levels that are left: where its margin is
that of an open level, it does nothing more; where it falls back between two of them, it opens
one. -/
namespace Offside

/-! ### White space -/

/-- No range of the list meets the one from `lo` to `hi`. -/
def Text.Ranges.apart (lo hi : Nat) : Ranges → Bool
  | [] => true
  | (first, last) :: rest => hi < first || (last < lo && Ranges.apart lo hi rest)

theorem Text.Ranges.holds_of_apart {lo hi n : Nat} {ranges : Ranges} (h : Ranges.apart lo hi ranges)
    (hlo : lo ≤ n) (hhi : n ≤ hi) : ranges.holds n = false := by
  induction ranges with
  | nil => rfl
  | cons range rest ih =>
    obtain ⟨first, last⟩ := range
    simp only [Ranges.apart, Bool.or_eq_true, Bool.and_eq_true, decide_eq_true_eq] at h
    unfold Ranges.holds
    split
    · rfl
    · rw [if_neg (by omega)]
      exact ih (h.resolve_left (by omega)).2

theorem Text.Ranges.exists_of_holds {n : Nat} {ranges : Ranges} (h : ranges.holds n) :
    ∃ range ∈ ranges, range.1 ≤ n ∧ n ≤ range.2 := by
  induction ranges with
  | nil => cases h
  | cons range rest ih =>
    obtain ⟨first, last⟩ := range
    unfold Ranges.holds at h
    split at h
    · cases h
    split at h
    · exact ⟨(first, last), .head _, by omega, by assumption⟩
    · obtain ⟨range, hmem, hrange⟩ := ih h
      exact ⟨range, .tail _ hmem, hrange⟩

/-- White space is apart from what no white space is in. -/
theorem Text.holds_of_blank {ranges : Ranges}
    (h : blankRanges.all fun range => Ranges.apart range.1 range.2 ranges) {c : Char}
    (hc : isBlank c) : ranges.holds c.toNat = false := by
  obtain ⟨range, hmem, hlo, hhi⟩ := Ranges.exists_of_holds hc
  exact Ranges.holds_of_apart (List.all_eq_true.mp h range hmem) hlo hhi

/-- White space on one line. -/
def White (w : List Char) : Prop := ∀ c ∈ w, Text.isBlank c ∧ c ≠ '\n'

theorem White.tail {c : Char} {w : List Char} (h : White (c :: w)) : White w :=
  fun d hd => h d (.tail _ hd)

/-- The margin after one more character, if that is counted. -/
def Margin.next? (m : Margin) : Char → Option Margin
  | '\t' => some m.tab
  | ' ' => some m.space
  | '\r' => some m
  | _ => none

/-- The margin of a line that goes on with the white space. -/
def Margin.through (m : Margin) : List Char → Margin
  | [] => m
  | c :: w =>
    match m.next? c with
    | some m' => m'.through w
    | none => m

namespace Scanner

variable {s t : Scanner} {c : Char} {w body : List Char}

/-- White space begins nothing. -/
theorem beginning_of_blank (p : Position) (hc : Text.isBlank c) : beginning p c = .gap := by
  have hletter : Text.isLetter c = false := Text.holds_of_blank (by decide +kernel) hc
  have hdigit : Text.isDecimalDigit c = false := Text.holds_of_blank (by decide +kernel) hc
  have hne : ∀ d, Text.isBlank d = false → c ≠ d := by
    rintro d hd rfl
    rw [hc] at hd
    cases hd
  rw [beginning, if_neg (hne _ (by decide)), if_neg (hne _ (by decide)), if_neg (hne _ (by decide)),
    hletter, hdigit, hc]
  rfl

/-- Anything but white space and a comment begins a token. -/
theorem beginning_begun (p : Position) (hc : Text.isBlank c = false) (hcomment : c ≠ '\x7b') :
    (beginning p c).Begun := by
  rw [beginning, if_neg hcomment, hc]
  repeat' split
  all_goals trivial

/-- What the first character begins spells the letters that stand there. -/
theorem beginning_spells (p : Position) {word : List Char} (hword : word ≠ []) (rest : List Char) :
    (beginning p c).Spells word rest ↔ (c :: rest).takeWhile Text.isLetter = word := by
  by_cases hc : Text.isLetter c
  · have hne : ∀ d, Text.isLetter d = false → c ≠ d := by
      rintro d hd rfl
      rw [hc] at hd
      cases hd
    rw [beginning, if_neg (hne _ (by decide +kernel)), if_neg (hne _ (by decide +kernel)),
      if_neg (hne _ (by decide +kernel)), if_pos hc, List.takeWhile_cons_of_pos hc]
    rfl
  · rw [List.takeWhile_cons_of_neg hc]
    refine ⟨fun h => ?_, fun h => absurd h.symm hword⟩
    rw [beginning, if_neg hc] at h
    repeat' split at h
    all_goals exact absurd h id

/-! ### Margins -/

/-- What can be seen of a scanner, places aside. -/
structure Shows (levels : List Nat) (faces : List (Kind × String)) (mode : Mode) (s : Scanner) :
    Prop where
  levels : s.levels = levels
  faces : s.tokens.map Token.face = faces
  mode : mode.Alike s.mode

variable {levels : List Nat} {faces : List (Kind × String)} {m : Margin}

theorem Shows.begin {mode : Mode} (h : Shows levels faces mode s) (hs : ¬ s.Failed)
    (hline : c ≠ '\n') :
    ∃ p, Shows levels faces (beginning p c) (s.begin c) := by
  rw [begin_of_not_failed hs, if_neg hline]
  exact ⟨s.here.right, h.levels, h.faces, beginning_alike _ _ c⟩

theorem Shows.indentTo (h : Shows levels faces (.margin m) s) (level : Nat) :
    Shows (levelsAt levels level) (changesAt levels level ++ faces) (.margin m)
      (s.indentTo level) := by
  refine ⟨?_, ?_, ?_⟩
  · rw [indentTo_levels, h.levels]
  · rw [indentTo_faces, h.levels, h.faces]
  · rw [indentTo_mode]
    exact h.mode

theorem Shows.mode_eq (h : Shows levels faces (.margin m) s) : s.mode = .margin m := by
  have hmode := h.mode
  generalize s.mode = mode at hmode
  cases hmode
  rfl

theorem Shows.mode_gap (h : Shows levels faces .gap s) : s.mode = .gap := by
  have hmode := h.mode
  generalize s.mode = mode at hmode
  cases hmode
  rfl

theorem Shows.not_failed (h : Shows levels faces (.margin m) s) : ¬ s.Failed := by
  rintro ⟨e, he⟩
  exact nomatch he.symm.trans h.mode_eq

theorem feed_margin (h : s.mode = .margin m) (hline : c ≠ '\n') :
    s.feed c = match m.next? c with
      | some m' => s.take c (.margin m')
      | none => (s.indentTo m.level).begin c := by
  unfold feed
  rw [h]
  dsimp only
  split
  case h_1 | h_2 | h_3 => rfl
  case h_4 => exact absurd rfl hline
  case h_5 htab hspace hreturn _ =>
    have hnone : m.next? c = none := by
      unfold Margin.next?
      split
      · exact absurd rfl htab
      · exact absurd rfl hspace
      · exact absurd rfl hreturn
      · rfl
    rw [hnone]

/-- At the first character of a line the margin ends, and the open levels are brought in line with it. -/
theorem feed_marginEnd (hmode : s.mode = .margin m) (hc : c ∉ ['\t', ' ', '\r', '\n']) :
    s.feed c = (s.indentTo m.level).begin c := by
  simp only [List.mem_cons, List.not_mem_nil, or_false, not_or] at hc
  have hnext : m.next? c = none := by
    unfold Margin.next?
    split <;> simp_all
  have hfeed := feed_margin hmode hc.2.2.2
  rwa [hnext] at hfeed

theorem feedAll_gap (h : Shows levels faces .gap s) (hw : White w) :
    Shows levels faces .gap (s.feedAll w) := by
  induction w generalizing s with
  | nil => exact h
  | cons c w ih =>
    obtain ⟨hc, hline⟩ := hw c (.head _)
    have hmode : s.mode = .gap := h.mode_gap
    have hfeed : s.feed c = s.begin c := by rw [feed, hmode]
    obtain ⟨p, hnext⟩ := h.begin (by simp [Failed, hmode]) hline
    rw [beginning_of_blank p hc, ← hfeed] at hnext
    exact ih hnext hw.tail

/-- White space in a margin is counted up to the first character that is neither a tab, a space nor
a carriage return; the levels change there. -/
theorem feedAll_margin (h : Shows levels faces (.margin m) s) (hw : White w) :
    Shows levels faces (.margin (m.through w)) (s.feedAll w) ∨
      Shows (levelsAt levels (m.through w).level) (changesAt levels (m.through w).level ++ faces) .gap
        (s.feedAll w) := by
  induction w generalizing s m with
  | nil => exact .inl h
  | cons c w ih =>
    obtain ⟨hc, hline⟩ := hw c (.head _)
    have hfeed := feed_margin h.mode_eq hline
    unfold Margin.through
    cases hnext : m.next? c with
    | some m' =>
      rw [hnext] at hfeed
      dsimp only at hfeed
      have hcounted : Shows levels faces (.margin m') (s.feed c) := by
        rw [hfeed]
        exact ⟨h.levels, h.faces, .margin⟩
      exact ih hcounted hw.tail
    | none =>
      rw [hnext] at hfeed
      dsimp only at hfeed
      obtain ⟨p, hgap⟩ := (h.indentTo m.level).begin (h.indentTo m.level).not_failed hline
      rw [beginning_of_blank p hc, ← hfeed] at hgap
      have hrest := feedAll_gap hgap hw.tail
      exact .inr hrest

/-- The first character of a line that is not white space, after the levels have changed. -/
theorem feedAll_line (h : Shows levels faces (.margin m) s) (hw : White w)
    (hc : Text.isBlank c = false) :
    ∃ p, Shows (levelsAt levels (m.through w).level) (changesAt levels (m.through w).level ++ faces)
      (beginning p c) (s.feedAll (w ++ [c])) := by
  have hne : ∀ d, Text.isBlank d → c ≠ d := by
    rintro d hd rfl
    rw [hc] at hd
    cases hd
  have hline : c ≠ '\n' := hne _ (by decide)
  rw [feedAll_append]
  show ∃ p, Shows _ _ _ ((s.feedAll w).feed c)
  rcases feedAll_margin h hw with hmargin | hgap
  · have hblank : ['\t', ' ', '\r', '\n'].all Text.isBlank := by decide
    rw [feed_marginEnd hmargin.mode_eq fun hmem => hne c (List.all_eq_true.mp hblank c hmem) rfl]
    exact (hmargin.indentTo _).begin (hmargin.indentTo _).not_failed hline
  · have hfeed : (s.feedAll w).feed c = (s.feedAll w).begin c := by rw [feed, hgap.mode_gap]
    rw [hfeed]
    exact hgap.begin (by simp [Failed, hgap.mode_gap]) hline

/-! ### Comments -/

section Comments
variable {p : Position} {inner : Nat}

theorem Shows.mode_comment (h : Shows levels faces (.comment p inner) s) :
    ∃ q, s.mode = .comment q inner := by
  have hmode := h.mode
  generalize s.mode = mode at hmode
  cases hmode
  exact ⟨_, rfl⟩

theorem feed_open (h : Shows levels faces (.comment p inner) s) :
    Shows levels faces (.comment p (inner + 1)) (s.feed '\x7b') := by
  obtain ⟨q, hmode⟩ := h.mode_comment
  have hfeed : s.feed '\x7b' = s.take '\x7b' (.comment q (inner + 1)) := by
    rw [feed, hmode]
    rfl
  rw [hfeed]
  exact ⟨h.levels, h.faces, .comment⟩

theorem feed_close_inner (h : Shows levels faces (.comment p (inner + 1)) s) :
    Shows levels faces (.comment p inner) (s.feed '\x7d') := by
  obtain ⟨q, hmode⟩ := h.mode_comment
  have hfeed : s.feed '\x7d' = s.take '\x7d' (.comment q inner) := by
    rw [feed, hmode]
    rfl
  rw [hfeed]
  exact ⟨h.levels, h.faces, .comment⟩

theorem feed_close_outer (h : Shows levels faces (.comment p 0) s) :
    Shows levels faces .gap (s.feed '\x7d') := by
  obtain ⟨q, hmode⟩ := h.mode_comment
  have hfeed : s.feed '\x7d' = s.take '\x7d' .gap := by
    rw [feed, hmode]
    rfl
  rw [hfeed]
  exact ⟨h.levels, h.faces, .gap⟩

theorem feed_inside (h : Shows levels faces (.comment p inner) s) (hopen : c ≠ '\x7b')
    (hclose : c ≠ '\x7d') : Shows levels faces (.comment p inner) (s.feed c) := by
  obtain ⟨q, hmode⟩ := h.mode_comment
  have hfeed : s.feed c = s.take c (.comment q inner) := by
    rw [feed, hmode]
    dsimp only
    split
    · exact absurd rfl hopen
    · exact absurd rfl hclose
    · exact absurd rfl hclose
    · rfl
  rw [hfeed]
  exact ⟨h.levels, h.faces, .comment⟩

/-- Text in which every brace has its partner leaves a comment as it is. -/
theorem feedAll_balanced (h : Shows levels faces (.comment p inner) s) (hbody : Balanced body) :
    Shows levels faces (.comment p inner) (s.feedAll body) := by
  induction hbody generalizing s inner with
  | nil => exact h
  | char hopen hclose _ ih => exact ih (feed_inside h hopen hclose)
  | @nested xs ys _ _ ihx ihy =>
    have hinside := ihx (feed_open h)
    have hclosed := ihy (feed_close_inner hinside)
    rw [← List.singleton_append, feedAll_append, feedAll_append]
    exact hclosed

end Comments

/-- A line with nothing but a comment changes the levels as any line there does, and its end is one
more token. -/
theorem feedAll_commentLine (h : Shows levels faces (.margin m) s) (hw : White w)
    (hbody : Balanced body) :
    Shows (levelsAt levels (m.through w).level)
      ((.newline, "") :: (changesAt levels (m.through w).level ++ faces)) (.margin .empty)
      (s.feedAll (w ++ '\x7b' :: (body ++ ['\x7d', '\n']))) := by
  obtain ⟨p, hopened⟩ := feedAll_line (c := '\x7b') h hw (by decide)
  have hinside : Shows _ _ (.comment p 0) ((s.feedAll (w ++ ['\x7b'])).feedAll body) :=
    feedAll_balanced hopened hbody
  have hclosed := feed_close_outer hinside
  rw [List.append_cons, feedAll_append, feedAll_append]
  show Shows _ _ _ ((((s.feedAll (w ++ ['\x7b'])).feedAll body).feed '\x7d').feed '\n')
  generalize ((s.feedAll (w ++ ['\x7b'])).feedAll body).feed '\x7d' = u at hclosed
  have hfeed : u.feed '\n' = u.begin '\n' := by rw [feed, hclosed.mode_gap]
  rw [hfeed, begin_of_not_failed (by simp [Failed, hclosed.mode_gap]), if_pos rfl]
  refine ⟨hclosed.levels, ?_, .margin⟩
  rw [← hclosed.faces]
  rfl

/-! ### Levels -/

/-- A line at this level opens a level or is at one that is open, the outermost included. -/
def KeepsTo (levels : List Nat) (level : Nat) : Prop :=
  levels.headD 0 < level ∨ level ∈ levels ++ [0]

instance (levels : List Nat) (level : Nat) : Decidable (KeepsTo levels level) :=
  inferInstanceAs (Decidable (_ ∨ _))

theorem headD_dropWhile {level : Nat} (hfalling : (levels ++ [0]).Pairwise (· > ·))
    (hmem : level ∈ levels ++ [0]) : (levels.dropWhile (level < ·)).headD 0 = level := by
  induction levels with
  | nil => exact (List.mem_singleton.mp hmem).symm
  | cons inner outer ih =>
    rw [List.cons_append, List.pairwise_cons] at hfalling
    rcases List.mem_cons.mp hmem with rfl | hmem
    · simp
    · rw [List.dropWhile_cons_of_pos (by simpa using hfalling.1 level hmem)]
      exact ih hfalling.2 hmem

/-- A line that keeps to the levels is at the innermost one afterwards. -/
theorem KeepsTo.headD_levelsAt {level : Nat} (hfalling : (levels ++ [0]).Pairwise (· > ·))
    (h : KeepsTo levels level) : (levelsAt levels level).headD 0 = level := by
  unfold levelsAt
  split
  case isTrue => rfl
  case isFalse hdeeper => exact headD_dropWhile hfalling (h.resolve_left hdeeper)

/-- A line that falls back between two levels is deeper than the innermost one afterwards. -/
theorem headD_levelsAt_lt {level : Nat} (h : ¬ KeepsTo levels level) :
    (levelsAt levels level).headD 0 < level := by
  obtain ⟨hdeeper, hmem⟩ := not_or.mp h
  rw [List.mem_append, List.mem_singleton, not_or] at hmem
  rw [levelsAt, if_neg hdeeper]
  have hnot := List.head?_dropWhile_not (fun inner : Nat => decide (level < inner)) levels
  have hsub := List.dropWhile_sublist (fun inner : Nat => decide (level < inner)) (l := levels)
  generalize levels.dropWhile (level < ·) = now at hnot hsub
  cases now with
  | nil => exact Nat.pos_of_ne_zero hmem.2
  | cons inner outer =>
    have hinner : inner ∈ levels := hsub.subset (.head _)
    have hne : inner ≠ level := fun heq => hmem.1 (heq ▸ hinner)
    have hle : ¬ level < inner := by simpa using hnot
    show inner < level
    omega

/-- Where a line keeps to the levels, another one there changes nothing. -/
theorem KeepsTo.again {level : Nat} (hfalling : (levels ++ [0]).Pairwise (· > ·))
    (h : KeepsTo levels level) :
    levelsAt (levelsAt levels level) level = levelsAt levels level ∧
      changesAt (levelsAt levels level) level = [] := by
  have hhead := h.headD_levelsAt hfalling
  generalize levelsAt levels level = now at hhead
  cases now with
  | nil =>
    obtain rfl : 0 = level := hhead
    exact ⟨rfl, rfl⟩
  | cons inner outer =>
    obtain rfl : inner = level := hhead
    simp [levelsAt, changesAt]

/-- Where a line falls back between two levels, it closes one at least, and another one there opens
one. -/
theorem changesAt_of_not_keepsTo {level : Nat} (h : ¬ KeepsTo levels level) :
    (∃ n, changesAt levels level = (.dedent, "") :: List.replicate n (.dedent, "")) ∧
      changesAt (levelsAt levels level) level = [(.indent, "")] := by
  have hlower := headD_levelsAt_lt h
  obtain ⟨hdeeper, hmem⟩ := not_or.mp h
  rw [List.mem_append, List.mem_singleton, not_or] at hmem
  refine ⟨?_, ?_⟩
  · rw [changesAt, if_neg hdeeper]
    cases levels with
    | nil => exact absurd (Nat.pos_of_ne_zero hmem.2) hdeeper
    | cons inner outer =>
      have hne : inner ≠ level := fun heq => hmem.1 (heq ▸ .head _)
      have hlt : level < inner := by
        have : ¬ inner < level := hdeeper
        omega
      rw [List.takeWhile_cons_of_pos (by simpa using hlt)]
      exact ⟨_, rfl⟩
  · rw [changesAt, if_pos hlower]

/-! ### Whole texts -/

theorem lex_of_not_failed {file : String} {source : List Char}
    (h : ¬ ((start file).feedAll source).close.Failed) :
    lex file source = .ok ((start file).feedAll source).close.settle.made := by
  have hmode := congrArg Scanner.mode (settle_of_not_failed h)
  show ((start file).feedAll source).close.settle.result = _
  unfold result
  split
  case h_1 e he => exact absurd ⟨e, hmode.symm.trans he⟩ h
  case h_2 => rfl

theorem map_face_made (s : Scanner) : s.made.map Token.face = (s.tokens.map Token.face).reverse :=
  List.map_reverse

end Scanner

section Insertion
variable {file : String} {before w body after : List Char} {c : Char}

/-- A line starts after `before`: nothing that was begun there goes on, be it a quoted text, a
quoted character or a comment. -/
def LineStarts (file : String) (before : List Char) : Prop :=
  ((Scanner.start file).feedAll before).mode = .margin .empty

/-- The next character belongs to a quoted text, a quoted character or a comment. -/
def Mode.inside : Mode → Bool
  | .text .. | .quote _ | .character .. | .comment .. => true
  | _ => false

/-- The levels that are open after a text. -/
def openAfter (file : String) (before : List Char) : List Nat :=
  ((Scanner.start file).feedAll before).levels

/-- The level of a line with this white space in front. -/
def levelOf (w : List Char) : Nat := (Margin.empty.through w).level

/-- A text with a comment put in on a line of its own, with the same white space in front as the
line after it. -/
def withComment (before w body rest : List Char) : List Char :=
  before ++ (w ++ '\x7b' :: (body ++ ['\x7d', '\n'])) ++ (w ++ rest)

open Scanner

/-- Outside quotes and comments the end of a line starts another one, if it can be read at all. -/
theorem feed_newline {s : Scanner} (hout : s.mode.inside = false) (hok : ¬ (s.feed '\n').Failed) :
    (s.feed '\n').mode = .margin .empty := by
  have hbegin : ∀ s : Scanner, ¬ (s.begin '\n').Failed → (s.begin '\n').mode = .margin .empty := by
    intro s hs
    by_cases hfailed : s.Failed
    · obtain ⟨e, he⟩ := hfailed
      simp only [begin, he] at hs
      exact absurd ⟨e, he⟩ hs
    · rw [begin_of_not_failed hfailed, if_pos rfl]
  unfold feed at hok ⊢
  cases hmode : s.mode with
  | text | quote | character | comment =>
    rw [hmode] at hout
    cases hout
  | failed e =>
    rw [hmode] at hok
    exact absurd ⟨e, hmode⟩ hok
  | margin => rfl
  | gap =>
    simp only [hmode] at hok ⊢
    exact hbegin _ hok
  | word =>
    simp only [hmode, isLetter_newline, Bool.false_eq_true, if_false] at hok ⊢
    exact hbegin _ hok
  | number =>
    have hpoint : '\n' ≠ '.' := by decide
    simp only [hmode, isDecimalDigit_newline, hpoint, Bool.false_eq_true, false_and, if_false]
      at hok ⊢
    exact hbegin _ hok
  | symbol p first =>
    have hpair : Kind.pair? first '\n' = none := by
      unfold Kind.pair?
      split <;> simp_all
    simp only [hmode, hpair] at hok ⊢
    exact hbegin _ hok

theorem lineStarts_of_outside {b rest : List Char} {tokens : List Token}
    (hout : ((start file).feedAll b).mode.inside = false)
    (hlex : lex file (b ++ '\n' :: rest) = .ok tokens) : LineStarts file (b ++ ['\n']) := by
  unfold LineStarts
  rw [feedAll_append]
  refine feed_newline hout fun hfailed => (lex_eq_ok hlex).1 (close_failed ?_)
  rw [feedAll_append]
  exact feedAll_failed hfailed rest

/-- Before a line stands the end of another one or a change of indentation. -/
theorem lineStart_faces {s : Scanner} {m : Margin} (hsettled : Settled s)
    (hmode : s.mode = .margin m)
    (level : Nat) :
    ∃ last earlier, changesAt s.levels level ++ s.tokens.map Token.face = last :: earlier ∧
      last.1 ∈ [Kind.newline, .indent, .dedent] := by
  obtain ⟨ts, t, hmade, ht⟩ := hsettled.margin m hmode
  have htokens : s.tokens = t :: ts.reverse := by
    rw [← List.reverse_reverse s.tokens]
    show s.made.reverse = _
    rw [hmade, List.reverse_concat]
  rw [htokens, List.map_cons]
  unfold changesAt
  split
  · exact ⟨_, _, rfl, by simp⟩
  · cases (s.levels.takeWhile (level < ·)).length with
    | zero => exact ⟨_, _, rfl, by simp [Token.face, List.mem_singleton.mp ht]⟩
    | succ n => exact ⟨_, _, rfl, by simp⟩

section Lines
variable (hstart : LineStarts file before) (hw : White w) (hc : Text.isBlank c = false)
  (hbody : Balanced body)
include hstart

theorem lineStarts_shows :
    Shows (openAfter file before) (((start file).feedAll before).tokens.map Token.face)
      (.margin .empty) ((start file).feedAll before) := by
  refine ⟨rfl, rfl, ?_⟩
  rw [show ((start file).feedAll before).mode = _ from hstart]
  exact .margin

include hw hc

/-- The line itself, up to its first character. -/
theorem line_shows : ∃ p,
    Shows (levelsAt (openAfter file before) (levelOf w))
      (changesAt (openAfter file before) (levelOf w) ++
        ((start file).feedAll before).tokens.map Token.face)
      (beginning p c) ((start file).feedAll (before ++ (w ++ [c]))) := by
  rw [feedAll_append]
  exact feedAll_line (lineStarts_shows hstart) hw hc

include hbody in
/-- The line after the comment, up to its first character. -/
theorem commented_shows : ∃ p,
    Shows (levelsAt (levelsAt (openAfter file before) (levelOf w)) (levelOf w))
      (changesAt (levelsAt (openAfter file before) (levelOf w)) (levelOf w) ++
        (.newline, "") :: (changesAt (openAfter file before) (levelOf w) ++
          ((start file).feedAll before).tokens.map Token.face))
      (beginning p c) ((start file).feedAll (withComment before w body [c])) := by
  rw [withComment, feedAll_append _ (before ++ _), feedAll_append _ before]
  exact feedAll_line (feedAll_commentLine (lineStarts_shows hstart) hw hbody) hw hc

end Lines

theorem withComment_cons (before w body : List Char) (c : Char) (after : List Char) :
    withComment before w body (c :: after) = withComment before w body [c] ++ after := by
  simp [withComment]

/-- Where the line keeps to the levels, the comment line adds its end to the tokens and nothing
else. -/
theorem lex_withComment {tokens : List Token} (hstart : LineStarts file before) (hw : White w)
    (hc : Text.isBlank c = false) (hcomment : c ≠ '\x7b') (hbody : Balanced body)
    (hkeeps : KeepsTo (openAfter file before) (levelOf w))
    (hlex : lex file (before ++ (w ++ c :: after)) = .ok tokens) :
    ∃ tokens' earlier last first post,
      lex file (withComment before w body (c :: after)) = .ok tokens' ∧
      tokens.map Token.face = earlier ++ last :: first :: post ∧
      tokens'.map Token.face = earlier ++ last :: (.newline, "") :: first :: post ∧
      last.1 ∈ [Kind.newline, .indent, .dedent] ∧
      (first.1 = .elseWord ↔ (c :: after).takeWhile Text.isLetter = "else".toList) := by
  have hsettled : Settled ((start file).feedAll before) :=
    feedAll_settled (start_settled file) before
  obtain ⟨p, hleft⟩ := line_shows hstart hw hc
  obtain ⟨q, hright⟩ := commented_shows hstart hw hc hbody
  have hfalling : (openAfter file before ++ [0]).Pairwise (· > ·) := hsettled.levelled.falling
  obtain ⟨hlevels, hchanges⟩ := hkeeps.again hfalling
  obtain ⟨last, earlier, hbase, hlast⟩ := lineStart_faces hsettled hstart (levelOf w)
  rw [hlevels, hchanges, List.nil_append] at hright
  -- At the first character of the line the two scanners differ by the end of the comment line.
  have hbegins : Begins (last :: earlier) ((.newline, "") :: last :: earlier)
      ((start file).feedAll (before ++ (w ++ [c])))
      ((start file).feedAll (withComment before w body [c])) := by
    refine ⟨hleft.levels.trans hright.levels.symm, ?_, ?_, hleft.faces.trans hbase, ?_⟩
    · exact hleft.mode.symm.trans ((beginning_alike p q c).trans hright.mode)
    · exact hleft.mode.begun.mp (beginning_begun p hc hcomment)
    · rw [hright.faces]
      exact congrArg _ hbase
  have hsource : before ++ (w ++ c :: after) = before ++ (w ++ [c]) ++ after := by simp
  have hok := (lex_eq_ok hlex).1
  rw [lex_of_not_failed hok] at hlex
  rw [hsource, feedAll_append] at hok hlex
  obtain ⟨first, hbeside, helse⟩ := ended_begun hbegins hok
  have hok' := hok ∘ hbeside.failed.mpr
  obtain ⟨added, htokens, htokens'⟩ := (settle_beside hbeside).tokens
  rw [← feedAll_append, ← withComment_cons] at hok' htokens'
  refine ⟨_, earlier.reverse, last, first, added.reverse, lex_of_not_failed hok', ?_, ?_, hlast, ?_⟩
  · rw [← Except.ok.inj hlex, map_face_made, htokens]
    simp
  · rw [map_face_made, htokens']
    simp
  · rw [helse, ← hleft.mode.spells, beginning_spells p (by decide)]

/-- Where the line falls back between two levels, it opens one after the end of the comment line,
which closed one. -/
theorem lex_withComment_between {tokens : List Token} (hstart : LineStarts file before)
    (hw : White w)
    (hc : Text.isBlank c = false) (hbody : Balanced body)
    (hkeeps : ¬ KeepsTo (openAfter file before) (levelOf w))
    (hlex : lex file (withComment before w body (c :: after)) = .ok tokens) :
    ∃ pre post, tokens.map Token.face =
      pre ++ (.dedent, "") :: (.newline, "") :: (.indent, "") :: post := by
  obtain ⟨q, hshows⟩ := commented_shows hstart hw hc hbody
  obtain ⟨⟨n, hcloses⟩, hopens⟩ := changesAt_of_not_keepsTo hkeeps
  rw [hopens, hcloses] at hshows
  -- The tokens made so far stay, which is what a scanner beside itself says of its base.
  have hbeside : Beside _ _ ((start file).feedAll (withComment before w body [c]))
      ((start file).feedAll (withComment before w body [c])) :=
    ⟨rfl, .refl _, [], hshows.faces, hshows.faces⟩
  have hended := close_beside (feedAll_beside hbeside after)
  rw [← feedAll_append, ← withComment_cons] at hended
  obtain ⟨added, htokens, -⟩ := (settle_beside hended).tokens
  rw [lex_of_not_failed (lex_eq_ok hlex).1] at hlex
  rw [← Except.ok.inj hlex, map_face_made, htokens]
  refine ⟨(List.replicate n (Kind.dedent, "") ++
    ((start file).feedAll before).tokens.map Token.face).reverse, added.reverse, ?_⟩
  simp

end Insertion

end Offside
