import Mathlib.Data.List.Induction
import Offside.Proofs.Token.Enclosure

/-! Layout that the tokens of a text do not show.

Tabs, spaces and carriage returns at the end of a line, blank lines, and comments behind the tokens of a
line can come and go. The argument is the same for all of them: after the change and without it the
scanner shows the same, places aside, and from there on both read the same text.

The end of the last line is not such a change everywhere. A line in which there is something, though no
token, ends with a token of its own once its end is written. -/
namespace Offside

namespace Scanner

variable {s s' : Scanner} {c : Char} {w body : List Char}

/-! ### Spaces -/

/-- Tabs, spaces and carriage returns. -/
def Spaces (w : List Char) : Prop := ∀ c ∈ w, c ∈ ['\t', ' ', '\r']

theorem Spaces.tail (h : Spaces (c :: w)) : Spaces w := fun d hd => h d (.tail _ hd)

theorem Spaces.white (h : Spaces w) : White w := by
  have hblank : ['\t', ' ', '\r'].all fun d => Text.isBlank d && d != '\n' := by decide
  intro c hc
  simpa using List.all_eq_true.mp hblank c (h c hc)

variable {levels : List Nat} {faces : List (Kind × String)} {m : Margin}

/-- In a margin, spaces are counted and nothing else happens. -/
theorem feedAll_spaces (h : Shows levels faces (.margin m) s) (hw : Spaces w) :
    Shows levels faces (.margin (m.through w)) (s.feedAll w) := by
  induction w generalizing s m with
  | nil => exact h
  | cons c w ih =>
    have hcounts : ∀ d ∈ ['\t', ' ', '\r'], d ≠ '\n' ∧ (m.next? d).isSome := by simp [Margin.next?]
    obtain ⟨hline, hsome⟩ := hcounts c (hw c (.head _))
    obtain ⟨m', hnext⟩ := Option.isSome_iff_exists.mp hsome
    have hfeed := feed_margin h.mode_eq hline
    rw [hnext] at hfeed
    dsimp only at hfeed
    have hcounted : Shows levels faces (.margin m') (s.feed c) := by
      rw [hfeed]
      exact ⟨h.levels, h.faces, .margin⟩
    rw [Margin.through, hnext]
    exact ih hcounted hw.tail

theorem Shows.blankLineEnd (h : Shows levels faces (.margin m) s) :
    Shows levels faces (.margin .empty) (s.feed '\n') := by
  have hfeed : s.feed '\n' = s.take '\n' (.margin .empty) := by
    rw [feed, h.mode_eq]
    rfl
  rw [hfeed]
  exact ⟨h.levels, h.faces, .margin⟩

/-! ### Places in a line -/

/-- A place in a line and outside quotes and comments, and what is shown there once what was begun has
ended. -/
structure Stops (levels : List Nat) (faces : List (Kind × String)) (s : Scanner) : Prop where
  outside : s.mode.inside = false
  line : ∀ m, s.mode ≠ .margin m
  ended : ¬ s.close.Failed
  levels : s.close.levels = levels
  faces : s.close.tokens.map Token.face = faces

theorem close_of_gap (h : s.mode = .gap) : s.close = s := by rw [close, h]

theorem close_of_margin (h : s.mode = .margin m) : s.close = s := by rw [close, h]

theorem Shows.stops (h : Shows levels faces .gap s) : Stops levels faces s := by
  have hmode := h.mode_gap
  have hclose := close_of_gap hmode
  refine ⟨by rw [hmode]; rfl, by simp [hmode], by simp [hclose, Failed, hmode], ?_, ?_⟩
  · rw [hclose, h.levels]
  · rw [hclose, h.faces]

/-- Outside quotes and comments a place is in a margin or in a line. -/
theorem margin_or_stops (hout : s.mode.inside = false) (hok : ¬ s.close.Failed) :
    (∃ m, s.mode = .margin m) ∨ Stops s.close.levels (s.close.tokens.map Token.face) s := by
  by_cases hline : ∃ m, s.mode = .margin m
  · exact .inl hline
  · exact .inr ⟨hout, fun m hm => hline ⟨m, hm⟩, hok, rfl, rfl⟩

namespace Stops

theorem feed (h : Stops levels faces s) (hc : c ∈ breaks) (hline : c ≠ '\n') :
    ∃ p, Shows levels faces (beginning p c) (s.feed c) := by
  rw [feed_of_not_continues h.outside h.line (not_continues hc)]
  have hclosed : Shows levels faces s.close.mode s.close := ⟨h.levels, h.faces, .refl _⟩
  exact hclosed.begin h.ended hline

theorem lineEnd (h : Stops levels faces s) :
    Shows levels ((.newline, "") :: faces) (.margin .empty) (s.feed '\n') := by
  rw [feed_of_not_continues h.outside h.line (not_continues (by decide)),
    begin_of_not_failed h.ended, if_pos rfl]
  refine ⟨h.levels, ?_, .margin⟩
  rw [← h.faces]
  rfl

theorem spaces (h : Stops levels faces s) (hw : Spaces w) (hne : w ≠ []) :
    Shows levels faces .gap (s.feedAll w) := by
  cases w with
  | nil => exact absurd rfl hne
  | cons c w =>
    have hbreaks : ['\t', ' ', '\r'] ⊆ breaks := by simp [breaks]
    obtain ⟨hblank, hline⟩ := hw.white c (.head _)
    obtain ⟨p, hfirst⟩ := h.feed (hbreaks (hw c (.head _))) hline
    rw [beginning_of_blank p hblank] at hfirst
    show Shows levels faces .gap ((s.feed c).feedAll w)
    exact feedAll_gap hfirst hw.tail.white

theorem comment (h : Stops levels faces s) (hbody : Balanced body) :
    Shows levels faces .gap (s.feedAll ('\x7b' :: (body ++ ['\x7d']))) := by
  obtain ⟨p, hopened⟩ := h.feed (show '\x7b' ∈ breaks by decide) (by decide)
  have hinside : Shows levels faces (.comment p 0) ((s.feed '\x7b').feedAll body) :=
    feedAll_balanced hopened hbody
  have hsplit : s.feedAll ('\x7b' :: (body ++ ['\x7d'])) =
      ((s.feed '\x7b').feedAll body).feed '\x7d' := feedAll_append (s.feed '\x7b') body ['\x7d']
  rw [hsplit]
  exact feed_close_outer hinside

end Stops

/-- Outside quotes and comments, what stands before a character that ends anything can end. -/
theorem close_of_feed (hout : s.mode.inside = false) (hc : c ∈ breaks) (hok : ¬ (s.feed c).Failed) :
    ¬ s.close.Failed := by
  by_cases hline : ∃ m, s.mode = .margin m
  · obtain ⟨m, hmode⟩ := hline
    simp [close_of_margin hmode, Failed, hmode]
  · rw [feed_of_not_continues hout (fun m hm => hline ⟨m, hm⟩) (not_continues hc)] at hok
    exact fun hfailed => hok (by rwa [begin_failed hfailed])

theorem Shows.of_margin (h : s.mode = .margin m) :
    Shows s.levels (s.tokens.map Token.face) (.margin m) s := by
  refine ⟨rfl, rfl, ?_⟩
  rw [h]
  exact .margin

theorem Shows.beside {mode : Mode} (h : Shows levels faces mode s) (h' : Shows levels faces mode s') :
    Beside [] [] s s' := by
  refine ⟨h.levels.trans h'.levels.symm, h.mode.symm.trans h'.mode, faces, ?_, ?_⟩
  · rw [h.faces, List.append_nil]
  · rw [h'.faces, List.append_nil]

end Scanner

open Scanner

variable {file : String} {source source' before w body rest : List Char} {tokens : List Token}

/-! ### Whole texts -/

/-- The scanner after a text, with what was begun ended. -/
def ended (file : String) (source : List Char) : Scanner := ((start file).feedAll source).close

/-- The text is read, and its tokens look like this. -/
def LexesAs (file : String) (source : List Char) (faces : List (Kind × String)) : Prop :=
  ∃ tokens, lex file source = .ok tokens ∧ tokens.map Token.face = faces

/-- The look of all tokens of a text, by what the scanner shows at its end. -/
def finished (levels : List Nat) (faces : List (Kind × String)) : List (Kind × String) :=
  faces.reverse ++ ((if faces.head?.any (·.1 ≠ .newline) then [(.newline, "")] else []) ++
    List.replicate levels.length (.dedent, ""))

theorem lexesAs_finished (hok : ¬ (ended file source).Failed) :
    LexesAs file source
      (finished (ended file source).levels ((ended file source).tokens.map Token.face)) := by
  refine ⟨_, lex_of_not_failed hok, ?_⟩
  show (ended file source).settle.made.map Token.face = _
  rw [settle_of_not_failed hok, map_face_made]
  rw [List.map_append, List.map_reverse, List.reverse_append, List.reverse_reverse, map_face_ending,
    unfinished_made]
  rfl

theorem ended_of_lex (hlex : lex file source = .ok tokens) : ¬ (ended file source).Failed :=
  (lex_eq_ok hlex).1

theorem map_face_lex (hlex : lex file source = .ok tokens) :
    tokens.map Token.face =
      finished (ended file source).levels ((ended file source).tokens.map Token.face) := by
  obtain ⟨tokens', hlex', hfaces⟩ := lexesAs_finished (ended_of_lex hlex)
  cases hlex.symm.trans hlex'
  exact hfaces

/-- Scanners that show the same somewhere give the same tokens for the same rest of the text. -/
theorem lexesAs_of_beside (hlex : lex file (source ++ rest) = .ok tokens)
    (h : Beside [] [] ((start file).feedAll source) ((start file).feedAll source')) :
    LexesAs file (source' ++ rest) (tokens.map Token.face) := by
  have hended := close_beside (feedAll_beside h rest)
  rw [← feedAll_append, ← feedAll_append] at hended
  have hok : ¬ (ended file (source' ++ rest)).Failed := ended_of_lex hlex ∘ hended.failed.mpr
  have hlevels : (ended file (source ++ rest)).levels = (ended file (source' ++ rest)).levels :=
    hended.levels
  obtain ⟨added, hfaces, hfaces'⟩ := hended.tokens
  have hsame : (ended file (source ++ rest)).tokens.map Token.face =
      (ended file (source' ++ rest)).tokens.map Token.face := hfaces.trans hfaces'.symm
  rw [map_face_lex hlex, hlevels, hsame]
  exact lexesAs_finished hok

section Ends
variable {levels : List Nat} {faces : List (Kind × String)} {m : Margin}

theorem lexesAs_of_gap (h : Shows levels faces .gap ((start file).feedAll source)) :
    LexesAs file source (finished levels faces) := by
  have hended : ended file source = (start file).feedAll source := close_of_gap h.mode_gap
  rw [← h.levels, ← h.faces, ← hended]
  exact lexesAs_finished (by simp [hended, Failed, h.mode_gap])

theorem lexesAs_of_margin (h : Shows levels faces (.margin m) ((start file).feedAll source)) :
    LexesAs file source (finished levels faces) := by
  have hended : ended file source = (start file).feedAll source := close_of_margin h.mode_eq
  rw [← h.levels, ← h.faces, ← hended]
  exact lexesAs_finished (by simpa [hended] using h.not_failed)

end Ends

/-! ### Line ends -/

theorem feedAll_of_lex (hlex : lex file (before ++ rest) = .ok tokens) :
    ¬ ((start file).feedAll before).Failed := by
  intro hfailed
  apply ended_of_lex hlex
  apply close_failed
  rw [feedAll_append]
  exact feedAll_failed hfailed rest

/-- A place before a character that ends anything is in a margin or in a line. -/
theorem margin_or_stops_of_lex {c : Char} (hc : c ∈ breaks) (hout : Outside before)
    (hlex : lex file (before ++ c :: rest) = .ok tokens) :
    (∃ m, ((start file).feedAll before).mode = .margin m) ∨
      Stops (ended file before).levels ((ended file before).tokens.map Token.face)
        ((start file).feedAll before) := by
  have hinside := inside_of_outside hout (feedAll_of_lex hlex)
  refine margin_or_stops hinside (close_of_feed hinside hc ?_)
  rw [List.append_cons] at hlex
  have hok := feedAll_of_lex hlex
  rw [feedAll_append] at hok
  exact hok

/-- After a line end outside quotes and comments a line starts. -/
theorem lineEnd_shows (hout : Outside before) (hlex : lex file (before ++ '\n' :: rest) = .ok tokens) :
    Shows (openAfter file (before ++ ['\n']))
      (((start file).feedAll (before ++ ['\n'])).tokens.map Token.face) (.margin .empty)
      ((start file).feedAll (before ++ ['\n'])) :=
  lineStarts_shows (lineStarts_of_outside (inside_of_outside hout (feedAll_of_lex hlex)) hlex)

theorem lexesAs_blankLine (hout : Outside before) (hw : Spaces w)
    (hlex : lex file (before ++ '\n' :: rest) = .ok tokens) :
    LexesAs file (before ++ '\n' :: (w ++ '\n' :: rest)) (tokens.map Token.face) := by
  have hstart := lineEnd_shows hout hlex
  have hblank := (feedAll_spaces hstart hw).blankLineEnd
  have htext : before ++ '\n' :: (w ++ '\n' :: rest) = before ++ ['\n'] ++ w ++ ['\n'] ++ rest := by simp
  rw [List.append_cons] at hlex
  rw [htext]
  apply lexesAs_of_beside hlex
  rw [feedAll_append _ (before ++ ['\n'] ++ w), feedAll_append _ (before ++ ['\n'])]
  exact hstart.beside hblank

theorem lexesAs_spaces_lineEnd (hout : Outside before) (hw : Spaces w)
    (hlex : lex file (before ++ '\n' :: rest) = .ok tokens) :
    LexesAs file (before ++ (w ++ '\n' :: rest)) (tokens.map Token.face) := by
  by_cases hne : w = []
  · subst hne
    exact ⟨tokens, hlex, rfl⟩
  have hplace := margin_or_stops_of_lex (by decide) hout hlex
  have htext : before ++ (w ++ '\n' :: rest) = before ++ w ++ ['\n'] ++ rest := by simp
  rw [List.append_cons] at hlex
  rw [htext]
  apply lexesAs_of_beside hlex
  rw [feedAll_append, feedAll_append _ (before ++ w), feedAll_append]
  -- In a margin the spaces are counted in vain; in a line they end what was begun, as the line end does.
  rcases hplace with ⟨m, hmode⟩ | hstops
  · have hmargin := Shows.of_margin hmode
    exact hmargin.blankLineEnd.beside (feedAll_spaces hmargin hw).blankLineEnd
  · exact hstops.lineEnd.beside (hstops.spaces hw hne).stops.lineEnd

/-! ### The end of the text -/

/-- At its end a text is outside quotes and comments. -/
theorem margin_or_stops_end (hlex : lex file source = .ok tokens) :
    (∃ m, ((start file).feedAll source).mode = .margin m) ∨
      Stops (ended file source).levels ((ended file source).tokens.map Token.face)
        ((start file).feedAll source) := by
  have hok := ended_of_lex hlex
  refine margin_or_stops ?_ hok
  unfold ended close at hok
  split at hok
  case h_4 | h_5 | h_6 | h_7 => exact absurd ⟨_, rfl⟩ hok
  case h_8 | h_9 | h_10 | h_1 | h_2 | h_3 =>
    rename_i hmode
    rw [hmode]
    rfl

theorem lexesAs_spaces_end (hw : Spaces w) (hlex : lex file source = .ok tokens) :
    LexesAs file (source ++ w) (tokens.map Token.face) := by
  by_cases hne : w = []
  · subst hne
    exact ⟨tokens, by rwa [List.append_nil], rfl⟩
  rw [map_face_lex hlex]
  rcases margin_or_stops_end hlex with ⟨m, hmode⟩ | hstops
  · have hended : ended file source = (start file).feedAll source := close_of_margin hmode
    have hspaced := feedAll_spaces (Shows.of_margin hmode) hw
    rw [← feedAll_append, ← hended] at hspaced
    exact lexesAs_of_margin hspaced
  · have hspaced := hstops.spaces hw hne
    rw [← feedAll_append] at hspaced
    exact lexesAs_of_gap hspaced

/-! ### Comments -/

/-- There is a token, other than those of the layout, after the last line end. -/
def OnLine (ts : List Token) : Prop :=
  ∃ t ∈ ts.reverse.takeWhile (·.kind ≠ .newline), t.kind ∉ [Kind.newline, .indent, .dedent]

instance (ts : List Token) : Decidable (OnLine ts) := inferInstanceAs (Decidable (∃ t ∈ _, _))

/-- In a margin there is none. -/
theorem OnLine.not_margin (h : OnLine (ended file before).made) (m : Margin) :
    ((start file).feedAll before).mode ≠ .margin m := by
  intro hmode
  have hended : ended file before = (start file).feedAll before := close_of_margin hmode
  obtain ⟨ts, last, hmade, hlast⟩ := (feedAll_settled (start_settled file) before).margin m hmode
  obtain ⟨t, ht, -⟩ := h
  rw [hended, hmade, List.reverse_concat] at ht
  simp [List.mem_singleton.mp hlast] at ht

theorem lexesAs_comment (hout : Outside before) (hbody : Balanced body)
    (hline : OnLine (ended file before).made)
    (hlex : lex file (before ++ '\x7b' :: (body ++ '\x7d' :: rest)) = .ok tokens) :
    LexesAs file (before ++ ' ' :: rest) (tokens.map Token.face) := by
  have hstops := (margin_or_stops_of_lex (by decide) hout hlex).resolve_left
    fun ⟨m, hmode⟩ => hline.not_margin m hmode
  have htext : before ++ '\x7b' :: (body ++ '\x7d' :: rest) =
      before ++ '\x7b' :: (body ++ ['\x7d']) ++ rest := by simp
  rw [htext] at hlex
  rw [List.append_cons]
  apply lexesAs_of_beside hlex
  rw [feedAll_append, feedAll_append]
  exact (hstops.comment hbody).beside (hstops.spaces (by simp [Spaces]) (by simp))

/-! ### The end of the last line -/

/-- The last line is blank: only tabs, spaces and carriage returns stand after a line end. -/
def EndsBlank (source : List Char) : Prop :=
  ∃ before w, source = before ++ '\n' :: w ∧ Outside before ∧ Spaces w

theorem begin_margin {s : Scanner} {c : Char} {m : Margin} (h : (s.begin c).mode = .margin m) :
    c = '\n' := by
  by_cases hs : s.Failed
  · obtain ⟨e, he⟩ := hs
    rw [begin_failed ⟨e, he⟩, he] at h
    cases h
  by_cases hline : c = '\n'
  · exact hline
  · rw [begin_of_not_failed hs, if_neg hline] at h
    exact absurd h (beginning_ne_margin _ c m)

/-- A margin starts after a line end, and tabs, spaces and carriage returns go on with it. -/
theorem feed_margin_cases {s : Scanner} {c : Char} {m : Margin} (h : (s.feed c).mode = .margin m) :
    (c = '\n' ∧ s.mode.enclosure = .free) ∨ (c ∈ ['\t', ' ', '\r'] ∧ ∃ m', s.mode = .margin m') := by
  unfold feed at h
  cases hmode : s.mode with
  | failed e =>
    simp only [hmode] at h
    cases h
  | gap =>
    simp only [hmode] at h
    exact .inl ⟨begin_margin h, rfl⟩
  | margin m' =>
    simp only [hmode] at h
    split at h
    case h_1 | h_2 | h_3 => exact .inr ⟨by decide, m', rfl⟩
    case h_4 => exact .inl ⟨rfl, rfl⟩
    case h_5 => exact .inl ⟨begin_margin h, rfl⟩
  | word p letters =>
    simp only [hmode] at h
    split at h
    · cases h
    · exact .inl ⟨begin_margin h, rfl⟩
  | number p digits point =>
    simp only [hmode] at h
    split at h
    · cases h
    split at h
    · cases h
    · exact .inl ⟨begin_margin h, rfl⟩
  | symbol p first =>
    simp only [hmode] at h
    split at h
    · cases h
    · exact .inl ⟨begin_margin h, rfl⟩
  | text | character | comment =>
    simp only [hmode] at h
    split at h <;> cases h
  | quote p =>
    simp only [hmode] at h
    cases h

/-- A scanner ends in a margin where the last line of the text is blank. -/
theorem endsBlank_of_margin {m : Margin} (h : ((start file).feedAll source).mode = .margin m) :
    EndsBlank source := by
  induction source using List.reverseRecOn generalizing m with
  | nil => cases h
  | append_singleton source c ih =>
    rw [feedAll_append] at h
    have hread : ¬ ((start file).feedAll source).Failed := by
      intro hfailed
      obtain ⟨e, he⟩ := feed_failed (c := c) hfailed
      exact nomatch he.symm.trans h
    rcases feed_margin_cases h with ⟨rfl, hfree⟩ | ⟨hc, m', hmargin⟩
    · rw [feedAll_enclosure source hread] at hfree
      exact ⟨source, [], rfl, hfree, by simp [Spaces]⟩
    · obtain ⟨before, w, rfl, hout, hw⟩ := ih hmargin
      refine ⟨before, w ++ [c], by simp, hout, fun d hd => ?_⟩
      rcases List.mem_append.mp hd with hd | hd
      · exact hw d hd
      · rwa [List.mem_singleton.mp hd]

theorem margin_of_endsBlank (h : EndsBlank source) (hlex : lex file source = .ok tokens) :
    ∃ m, ((start file).feedAll source).mode = .margin m := by
  obtain ⟨before, w, rfl, hout, hw⟩ := h
  rw [List.append_cons, feedAll_append]
  exact ⟨_, (feedAll_spaces (lineEnd_shows hout hlex) hw).mode_eq⟩

/-- The last line is not blank, but has no token: it holds comments or other white space only, at a
level that is open already. -/
def EndsIdle (file : String) (source : List Char) : Prop :=
  unfinished (ended file source).made = false ∧ ¬ EndsBlank source

section Ends
variable {levels : List Nat} {faces : List (Kind × String)}

theorem finished_lineEnd : finished levels ((.newline, "") :: faces) =
    faces.reverse ++ (.newline, "") :: List.replicate levels.length (.dedent, "") := by
  simp [finished]

theorem finished_of_unfinished (h : faces.head?.any (·.1 ≠ .newline) = true) :
    finished levels faces =
      faces.reverse ++ (.newline, "") :: List.replicate levels.length (.dedent, "") := by
  simp only [finished, if_pos h, List.singleton_append]

theorem finished_of_idle (h : faces.head?.any (·.1 ≠ .newline) = false) :
    finished levels faces = faces.reverse ++ List.replicate levels.length (.dedent, "") := by
  simp only [finished, h, Bool.false_eq_true, if_false, List.nil_append]

end Ends

/-- No level is open before the first token. -/
theorem ended_tokens_ne_nil (hlex : lex file source = .ok tokens) (hne : tokens ≠ []) :
    (ended file source).tokens ≠ [] := by
  intro hnil
  have hlevels : (ended file source).levels = [] := by
    have hcount := (close_levelled (feedAll_settled (start_settled file) source).levelled).nested.count
    have hmade : ((start file).feedAll source).close.made = [] := by
      show (ended file source).tokens.reverse = []
      rw [hnil, List.reverse_nil]
    rw [hmade] at hcount
    simpa [countKind, ended] using hcount
  apply hne
  have hfaces := map_face_lex hlex
  rw [hlevels, hnil] at hfaces
  exact List.map_eq_nil_iff.mp hfaces

/-- The end of the last line, where that is blank. -/
theorem lexesAs_lineEnd_blank (hblank : EndsBlank source) (hlex : lex file source = .ok tokens) :
    LexesAs file (source ++ ['\n']) (tokens.map Token.face) := by
  obtain ⟨m, hmode⟩ := margin_of_endsBlank hblank hlex
  have hended : ended file source = (start file).feedAll source := close_of_margin hmode
  have hline : Shows (ended file source).levels ((ended file source).tokens.map Token.face)
      (.margin .empty) ((start file).feedAll (source ++ ['\n'])) := by
    rw [hended, feedAll_append]
    exact (Shows.of_margin hmode).blankLineEnd
  rw [map_face_lex hlex]
  exact lexesAs_of_margin hline

/-- The end of the last line, where something is in it. -/
theorem lexesAs_lineEnd (hblank : ¬ EndsBlank source) (hlex : lex file source = .ok tokens) :
    LexesAs file (source ++ ['\n'])
      (((ended file source).tokens.map Token.face).reverse ++
        (.newline, "") :: List.replicate (ended file source).levels.length (.dedent, "")) := by
  have hstops := (margin_or_stops_end hlex).resolve_left
    fun ⟨m, hmode⟩ => hblank (endsBlank_of_margin hmode)
  have hline := hstops.lineEnd
  rw [← finished_lineEnd]
  apply lexesAs_of_margin (m := .empty)
  rw [feedAll_append]
  exact hline

/-! ### Edits -/

/-- Blank lines after the end of a line, tabs, spaces and carriage returns before it and at the end of
the text, and comments behind the tokens of a line do not change the tokens, places aside. The end of
the last line does not either, unless that line is not blank and has no token: then there is one more
line end after the last one. -/
theorem lex_respaced (file : String) (source : List Char) (tokens : List Token)
    (h : lex file source = .ok tokens) (hne : tokens ≠ []) :
    (∀ before w rest, source = before ++ '\n' :: rest → Outside before → Spaces w →
      LexesAs file (before ++ '\n' :: (w ++ '\n' :: rest)) (tokens.map Token.face) ∧
        LexesAs file (before ++ (w ++ '\n' :: rest)) (tokens.map Token.face)) ∧
      (∀ w, Spaces w → LexesAs file (source ++ w) (tokens.map Token.face)) ∧
      (∀ before body rest, source = before ++ '\x7b' :: (body ++ '\x7d' :: rest) → Outside before →
        Balanced body → OnLine (ended file before).made →
          LexesAs file (before ++ ' ' :: rest) (tokens.map Token.face)) ∧
      (¬ EndsIdle file source → LexesAs file (source ++ ['\n']) (tokens.map Token.face)) ∧
      (EndsIdle file source → ∃ lines closing, tokens.map Token.face = lines ++ closing ∧
        (lines.getLast?.any (·.1 = .newline)) ∧ (∀ face ∈ closing, face = (.dedent, "")) ∧
          LexesAs file (source ++ ['\n']) (lines ++ (.newline, "") :: closing)) := by
  refine ⟨?_, fun w hw => lexesAs_spaces_end hw h, ?_, fun hidle => ?_, fun ⟨hlast, hblank⟩ => ?_⟩
  · rintro before w rest rfl hout hw
    exact ⟨lexesAs_blankLine hout hw h, lexesAs_spaces_lineEnd hout hw h⟩
  · rintro before body rest rfl hout hbody hline
    exact lexesAs_comment hout hbody hline h
  · by_cases hblank : EndsBlank source
    · exact lexesAs_lineEnd_blank hblank h
    · have hlast : unfinished (ended file source).made = true :=
        Bool.of_not_eq_false fun hlast => hidle ⟨hlast, hblank⟩
      rw [unfinished_made] at hlast
      rw [map_face_lex h, finished_of_unfinished hlast]
      exact lexesAs_lineEnd hblank h
  · rw [unfinished_made] at hlast
    refine ⟨_, _, (map_face_lex h).trans (finished_of_idle hlast), ?_, ?_, lexesAs_lineEnd hblank h⟩
    · -- There is a last token, since no level is open before the first one.
      rw [List.getLast?_reverse]
      cases htokens : (ended file source).tokens with
      | nil => exact absurd htokens (ended_tokens_ne_nil h hne)
      | cons t ts => simpa [htokens] using hlast
    · exact fun face hface => List.eq_of_mem_replicate hface

/-- A comment over two lines, a text over two lines, and a last line with a comment only. -/
theorem lex_respaced_around_comments :
    let line := "a \x7bx\ny\x7d b".toList
    let rest := "\tc \"p\nq\"\n\t\x7be\x7d".toList
    let tokens : List Token := [
      ⟨.word, .single ⟨1, 1, "f"⟩, "a"⟩, ⟨.word, .single ⟨2, 4, "f"⟩, "b"⟩, ⟨.newline, .single ⟨2, 5, "f"⟩, ""⟩,
      ⟨.indent, .single ⟨3, 2, "f"⟩, ""⟩, ⟨.word, .single ⟨3, 2, "f"⟩, "c"⟩,
      ⟨.text, ⟨⟨3, 4, "f"⟩, ⟨4, 2, "f"⟩⟩, "p\nq"⟩, ⟨.newline, .single ⟨4, 3, "f"⟩, ""⟩,
      ⟨.dedent, .single ⟨5, 5, "f"⟩, ""⟩]
    lex "f" (line ++ '\n' :: rest) = .ok tokens ∧ tokens ≠ [] ∧
      Outside line ∧ Spaces " \t\r".toList ∧
      LexesAs "f" (line ++ '\n' :: (" \t\r".toList ++ '\n' :: rest)) (tokens.map Token.face) ∧
      LexesAs "f" (line ++ (" \t\r".toList ++ '\n' :: rest)) (tokens.map Token.face) ∧
      LexesAs "f" (line ++ '\n' :: rest ++ " \t\r".toList) (tokens.map Token.face) ∧
      Outside "a ".toList ∧ Balanced "x\ny".toList ∧ OnLine (ended "f" "a ".toList).made ∧
      LexesAs "f" ("a ".toList ++ ' ' :: (" b\n".toList ++ rest)) (tokens.map Token.face) ∧
      EndsIdle "f" (line ++ '\n' :: rest) ∧
      ∃ lines closing, tokens.map Token.face = lines ++ closing ∧
        (lines.getLast?.any (·.1 = .newline)) ∧ (∀ face ∈ closing, face = (.dedent, "")) ∧
          LexesAs "f" (line ++ '\n' :: rest ++ ['\n']) (lines ++ (.newline, "") :: closing) := by
  intro line rest tokens
  have hlex : lex "f" (line ++ '\n' :: rest) = .ok tokens := by decide +kernel
  have hne : tokens ≠ [] := List.cons_ne_nil _ _
  have houtside : Outside line := by decide +kernel
  have hspaces : Spaces " \t\r".toList := by simp [Spaces]
  have hbalanced : Balanced "x\ny".toList :=
    .char (by decide) (by decide) (.char (by decide) (by decide) (.char (by decide) (by decide) .nil))
  have honline : OnLine (ended "f" "a ".toList).made := by decide +kernel
  have hidle : EndsIdle "f" (line ++ '\n' :: rest) := by
    refine ⟨by decide +kernel, ?_⟩
    rintro ⟨before, w, hsource, -, hw⟩
    have hlast : (before ++ '\n' :: w).getLast? = some '\x7d' := by
      rw [← hsource]
      decide +kernel
    have hmem : '\x7d' ∈ '\n' :: w := by
      rw [List.getLast?_append] at hlast
      cases hrest : ('\n' :: w).getLast? with
      | none => simp at hrest
      | some c =>
        rw [hrest] at hlast
        cases hlast
        exact List.mem_of_getLast? hrest
    rcases List.mem_cons.mp hmem with hline | hspace
    · cases hline
    · exact absurd (hw _ hspace) (by decide)
  obtain ⟨hlines, hend, hcomment, -, hadded⟩ := lex_respaced "f" _ tokens hlex hne
  obtain ⟨hblank, htrailing⟩ := hlines line " \t\r".toList rest rfl houtside hspaces
  have hreplaced := hcomment "a ".toList "x\ny".toList (" b\n".toList ++ rest) (by decide +kernel)
    (by decide +kernel) hbalanced honline
  exact ⟨hlex, hne, houtside, hspaces, hblank, htrailing, hend _ hspaces, by decide +kernel, hbalanced,
    honline, hreplaced, hidle, hadded hidle⟩

/-- The end of a line with a comment only is a token, even as the last character of the text. -/
theorem lineEnd_after_comment :
    let tokens : List Token := [⟨.word, .single ⟨1, 1, "f"⟩, "a"⟩, ⟨.newline, .single ⟨1, 2, "f"⟩, ""⟩]
    let added : Token := ⟨.newline, .single ⟨2, 4, "f"⟩, ""⟩
    lex "f" "a\n\x7bc\x7d".toList = .ok tokens ∧ tokens ≠ [] ∧
      lex "f" ("a\n\x7bc\x7d".toList ++ ['\n']) = .ok (tokens ++ [added]) ∧
      (tokens ++ [added]).map Token.face ≠ tokens.map Token.face := by
  intro tokens added
  exact ⟨by decide +kernel, List.cons_ne_nil _ _, by decide +kernel, by decide +kernel⟩

end Offside
