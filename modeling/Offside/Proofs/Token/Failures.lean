import Offside.Proofs.Token.Margins

/-! Where a text stops being a sequence of tokens, and why.

A text cannot be read if one of its characters begins something that does not end: a quoted text, a
quoted character, a comment, or a symbol that is none. `LexCause.Spoils` says so from that character and
what stands after it, without a scanner. The failure is at the first such character that begins
something, so everything before it is a text that can be read. -/
namespace Offside

/-- How many more braces open in a text than close. -/
def braceDepth (cs : List Char) : Int := cs.count '\x7b' - cs.count '\x7d'

/-- A character that can neither be a token by itself nor begin anything else. -/
def Unknown (c : Char) : Prop :=
  c ∉ ['\n', '"', '\'', '\x7b'] ∧ Text.isLetter c = false ∧ Text.isDecimalDigit c = false ∧
    Text.isBlank c = false ∧ Kind.single? c = none

/-- What a character begins does not end in the text after it, and why. -/
def LexCause.Spoils (c : Char) (after : List Char) : LexCause → Prop
  | .unterminatedString => c = '"' ∧ '"' ∉ after
  | .unterminatedCharacter => c = '\'' ∧ after[1]? ≠ some '\''
  | .unterminatedComment => c = '\x7b' ∧ ∀ inner, inner <+: after → braceDepth (c :: inner) ≠ 0
  | .unknownCharacter d => d = c ∧ Unknown c ∧ NotFollowed (fun d => (Kind.pair? c d).isSome) after

namespace LexCause

variable {c : Char} {after : List Char} {cause cause' : LexCause}

/-- A text is spoiled for one reason. -/
theorem Spoils.unique (h : cause.Spoils c after) (h' : cause'.Spoils c after) : cause = cause' := by
  have hquote : ∀ d, Unknown c → d ∈ ['\n', '"', '\'', '\x7b'] → c ≠ d := by
    rintro d hunknown hd rfl
    exact hunknown.1 hd
  cases cause <;> cases cause' <;> simp_all [Spoils]

theorem Spoils.not_white (h : cause.Spoils c after) : c ∉ ['\t', ' ', '\r', '\n'] := by
  cases cause with
  | unterminatedString | unterminatedCharacter | unterminatedComment =>
    rw [h.1]
    decide
  | unknownCharacter d =>
    obtain ⟨-, ⟨hlist, -, -, hblank, -⟩, -⟩ := h
    have hwhite : ['\t', ' ', '\r'].all Text.isBlank := by decide +kernel
    intro hc
    simp only [List.mem_cons, List.not_mem_nil, or_false] at hc hlist
    rcases hc with rfl | rfl | rfl | rfl
    all_goals simp_all

end LexCause

namespace Scanner

variable {s t : Scanner} {c d first : Char} {p : Position} {after inner : List Char} {cause : LexCause}

/-! ### What does not end -/

theorem feedAll_of_failed {e : LexError} (h : s.mode = .failed e) (cs : List Char) : s.feedAll cs = s := by
  induction cs with
  | nil => rfl
  | cons c cs ih =>
    have hfeed : s.feed c = s := by rw [feed, h]
    show (s.feed c).feedAll cs = s
    rw [hfeed, ih]

theorem close_mode_of_failed {e : LexError} (h : s.mode = .failed e) : s.close.mode = .failed e := by
  rw [close, h]
  exact h

/-- Characters that all go on with what was begun are taken into it one after the other. -/
theorem feedAll_run (mode : List Char → Mode) (P : Char → Prop) {chars cs : List Char}
    (hstep : ∀ (s : Scanner) c chars, s.mode = mode chars → P c → s.feed c = s.take c (mode (c :: chars)))
    (h : s.mode = mode chars) (hcs : ∀ c ∈ cs, P c) :
    ∃ here, s.feedAll cs = { s with here, mode := mode (cs.reverse ++ chars) } := by
  induction cs generalizing s chars with
  | nil => exact ⟨s.here, by rw [List.reverse_nil, List.nil_append, ← h]; rfl⟩
  | cons c cs ih =>
    obtain ⟨hc, hcs⟩ := List.forall_mem_cons.mp hcs
    have hfeed := hstep s c chars h hc
    have hmode : (s.feed c).mode = mode (c :: chars) := by rw [hfeed]; rfl
    obtain ⟨here, hrest⟩ := ih hmode hcs
    refine ⟨here, ?_⟩
    show (s.feed c).feedAll cs = _
    rw [hrest, hfeed, List.reverse_cons, List.append_assoc]
    rfl

theorem feedAll_text {chars : List Char} (h : s.mode = .text p chars) (hafter : '"' ∉ after) :
    ∃ here, s.feedAll after = { s with here, mode := .text p (after.reverse ++ chars) } := by
  refine feedAll_run (.text p) (· ≠ '"') ?_ h fun c hc => ?_
  · intro s c chars hmode hc
    simp [feed, hmode, hc]
  · rintro rfl
    exact hafter hc

theorem feed_quote (h : s.mode = .quote p) : (s.feed c).mode = .character p c := by
  rw [feed, h]
  rfl

/-- What a scanner is in with so many comments open, the outermost of which started at `p`. -/
def commented (p : Position) : Nat → Mode
  | 0 => .gap
  | n + 1 => .comment p n

theorem feed_comment {n : Nat} (h : s.mode = commented p (n + 1)) :
    ∃ n' : Nat, (s.feed c).mode = commented p n' ∧ (n' : Int) = n + 1 + braceDepth [c] := by
  rw [commented] at h
  simp only [feed, h]
  split
  case h_1 => exact ⟨n + 2, rfl, rfl⟩
  case h_2 => exact ⟨0, rfl, rfl⟩
  case h_3 n =>
    have hone : braceDepth ['\x7d'] = -1 := rfl
    exact ⟨n + 1, rfl, by omega⟩
  case h_4 hopen houter hinner =>
    have hclose : c ≠ '\x7d' := by
      rintro rfl
      cases n with
      | zero => exact houter rfl rfl
      | succ n => exact hinner n rfl rfl
    have hopen : c ≠ '\x7b' := hopen
    exact ⟨n + 1, rfl, by simp [braceDepth, hopen, hclose]⟩

theorem braceDepth_cons (c : Char) (cs : List Char) : braceDepth (c :: cs) = braceDepth [c] + braceDepth cs := by
  simp only [braceDepth, List.count_cons, List.count_nil]
  omega

theorem feedAll_comment {n : Nat} (h : s.mode = commented p (n + 1))
    (hafter : ∀ inner, inner <+: after → n + 1 + braceDepth inner ≠ 0) :
    ∃ n', (s.feedAll after).mode = commented p (n' + 1) := by
  induction after generalizing s n with
  | nil => exact ⟨n, h⟩
  | cons c after ih =>
    obtain ⟨n', hmode, hdepth⟩ := feed_comment (c := c) h
    have hopen : n' ≠ 0 := by
      have hone := hafter [c] (List.prefix_append [c] after)
      omega
    obtain ⟨n', rfl⟩ := Nat.exists_eq_succ_of_ne_zero hopen
    apply ih (s := s.feed c) hmode
    intro inner hinner
    have hdeeper := hafter (c :: inner) (List.cons_prefix_cons.mpr ⟨rfl, hinner⟩)
    rw [braceDepth_cons] at hdeeper
    omega

/-- A comment ends where as many braces are closed as opened. -/
theorem exists_feedAll_gap {n : Nat} (h : s.mode = commented p (n + 1)) (hinner : inner <+: after)
    (hdepth : n + 1 + braceDepth inner = 0) : ∃ inner, inner <+: after ∧ (s.feedAll inner).mode = .gap := by
  induction after generalizing s n inner with
  | nil =>
    rw [List.prefix_nil.mp hinner] at hdepth
    simp [braceDepth] at hdepth
    omega
  | cons c after ih =>
    cases inner with
    | nil =>
      simp [braceDepth] at hdepth
      omega
    | cons d inner =>
      obtain ⟨rfl, hrest⟩ := List.cons_prefix_cons.mp hinner
      obtain ⟨n', hmode, hnext⟩ := feed_comment (c := d) h
      rw [braceDepth_cons] at hdepth
      cases n' with
      | zero => exact ⟨[d], List.prefix_append [d] after, hmode⟩
      | succ n' =>
        obtain ⟨more, hmore, hgap⟩ := ih hmode hrest (by omega)
        exact ⟨d :: more, List.cons_prefix_cons.mpr ⟨rfl, hmore⟩, hgap⟩

theorem beginning_of_unknown (p : Position) (h : Unknown c) : beginning p c = .symbol p c := by
  obtain ⟨hlist, hletter, hdigit, hblank, -⟩ := h
  simp only [List.mem_cons, List.not_mem_nil, or_false, not_or] at hlist
  simp [beginning, hlist, hletter, hdigit, hblank]

/-- What a character begins and does not end is what fails, and it fails where that begins. -/
theorem failed_of_spoils (h : s.mode = beginning p c) (hspoils : cause.Spoils c after) :
    (s.feedAll after).close.mode = .failed ⟨cause, p⟩ := by
  cases cause with
  | unterminatedString =>
    obtain ⟨rfl, hafter⟩ := hspoils
    obtain ⟨here, hread⟩ := feedAll_text h hafter
    rw [hread]
    rfl
  | unterminatedCharacter =>
    obtain ⟨rfl, hafter⟩ := hspoils
    replace h : s.mode = .quote p := h
    rcases after with _ | ⟨d, _ | ⟨e, rest⟩⟩
    · show s.close.mode = _
      rw [close, h]
      rfl
    · show (s.feed d).close.mode = _
      rw [close, feed_quote h]
      rfl
    · have he : e ≠ '\'' := by simpa using hafter
      have hfailed : ((s.feed d).feed e).mode = .failed ⟨.unterminatedCharacter, p⟩ := by
        rw [feed, feed_quote h]
        simp [he, fail]
      show (((s.feed d).feed e).feedAll rest).close.mode = _
      rw [feedAll_of_failed hfailed]
      exact close_mode_of_failed hfailed
  | unterminatedComment =>
    obtain ⟨rfl, hafter⟩ := hspoils
    have hdepth : ∀ inner, inner <+: after → ((0 : Nat) : Int) + 1 + braceDepth inner ≠ 0 := by
      intro inner hinner
      have hne := hafter inner hinner
      rw [braceDepth_cons] at hne
      exact hne
    obtain ⟨n, hmode⟩ := feedAll_comment (n := 0) (h : s.mode = commented p 1) hdepth
    rw [commented] at hmode
    rw [close, hmode]
    rfl
  | unknownCharacter d =>
    obtain ⟨rfl, hunknown, hafter⟩ := hspoils
    rw [beginning_of_unknown p hunknown] at h
    have hend : (s.endSymbol p d).mode = .failed ⟨.unknownCharacter d, p⟩ := by
      rw [endSymbol, hunknown.2.2.2.2]
      rfl
    cases after with
    | nil =>
      show s.close.mode = _
      rw [close, h]
      exact hend
    | cons e rest =>
      have hpair : Kind.pair? d e = none := by simpa [NotFollowed] using hafter
      have hfeed : s.feed e = s.endSymbol p d := by
        simp only [feed, h, hpair]
        exact begin_failed ⟨_, hend⟩
      show ((s.feed e).feedAll rest).close.mode = _
      rw [hfeed, feedAll_of_failed hend]
      exact close_mode_of_failed hend

/-! ### What ends -/

theorem not_failed_of_gap (h : s.mode = .gap) : ¬ s.close.Failed := by
  rw [close_of_gap h]
  rintro ⟨e, he⟩
  rw [h] at he
  cases he

/-- What a character begins ends somewhere, unless the text is spoiled there. -/
theorem ends_or_spoils (h : s.mode = beginning p c) (hc : c ≠ '\n') (after : List Char) :
    (∃ inner, inner <+: after ∧ ¬ (s.feedAll inner).close.Failed) ∨ ∃ cause : LexCause, cause.Spoils c after := by
  unfold beginning at h
  split at h
  case isTrue hopen =>
    subst hopen
    by_cases hends : ∃ inner, inner <+: after ∧ braceDepth ('\x7b' :: inner) = 0
    · obtain ⟨inner, hinner, hdepth⟩ := hends
      rw [braceDepth_cons] at hdepth
      obtain ⟨inner, hinner, hgap⟩ := exists_feedAll_gap (n := 0) (h : s.mode = commented p 1) hinner hdepth
      exact .inl ⟨inner, hinner, not_failed_of_gap hgap⟩
    · exact .inr ⟨.unterminatedComment, rfl, fun inner hinner hdepth => hends ⟨inner, hinner, hdepth⟩⟩
  split at h
  case isTrue hquote =>
    subst hquote
    by_cases hafter : '"' ∈ after
    · obtain ⟨chars, rest, rfl, hchars⟩ := List.eq_append_cons_of_mem hafter
      obtain ⟨here, hread⟩ := feedAll_text h hchars
      refine .inl ⟨chars ++ ['"'], ⟨rest, by simp⟩, not_failed_of_gap ?_⟩
      rw [feedAll_append, hread]
      rfl
    · exact .inr ⟨.unterminatedString, rfl, hafter⟩
  split at h
  case isTrue hquote =>
    subst hquote
    by_cases hafter : after[1]? = some '\''
    · obtain ⟨d, rest, rfl⟩ : ∃ d rest, after = d :: '\'' :: rest := by
        rcases after with _ | ⟨d, _ | ⟨e, rest⟩⟩
        · simp at hafter
        · simp at hafter
        · exact ⟨d, rest, by simpa using hafter⟩
      refine .inl ⟨[d, '\''], ⟨rest, rfl⟩, not_failed_of_gap ?_⟩
      show ((s.feed d).feed '\'').mode = .gap
      rw [feed, feed_quote h]
      rfl
    · exact .inr ⟨.unterminatedCharacter, rfl, hafter⟩
  split at h
  case isTrue =>
    refine .inl ⟨[], List.nil_prefix, ?_⟩
    show ¬ s.close.Failed
    simp [close, h, endWord, Failed]
  split at h
  case isTrue =>
    refine .inl ⟨[], List.nil_prefix, ?_⟩
    show ¬ s.close.Failed
    simp [close, h, endNumber, Failed]
  split at h
  case isTrue => exact .inl ⟨[], List.nil_prefix, not_failed_of_gap h⟩
  case isFalse hopen htext hchar hletter hdigit hblank =>
    cases hsingle : Kind.single? c with
    | some kind =>
      refine .inl ⟨[], List.nil_prefix, ?_⟩
      show ¬ s.close.Failed
      simp [close, h, endSymbol, hsingle, Failed]
    | none =>
      have hunknown : Unknown c := by
        refine ⟨?_, by simpa using hletter, by simpa using hdigit, by simpa using hblank, hsingle⟩
        simp [hc, htext, hchar, hopen]
      rcases after with _ | ⟨d, rest⟩
      · exact .inr ⟨.unknownCharacter c, rfl, hunknown, trivial⟩
      · cases hpair : Kind.pair? c d with
        | none => exact .inr ⟨.unknownCharacter c, rfl, hunknown, by simp [NotFollowed, hpair]⟩
        | some kind =>
          refine .inl ⟨[d], ⟨rest, rfl⟩, not_failed_of_gap ?_⟩
          show (s.feed d).mode = .gap
          simp only [feed, h, hpair]
          rfl

/-! ### Beginning afresh -/

theorem inside_of_not_failed (h : ¬ s.close.Failed) : s.mode.inside = false := by
  cases hmode : s.mode with
  | text | quote | character | comment =>
    apply absurd _ h
    rw [close, hmode]
    exact ⟨_, rfl⟩
  | gap | margin | word | number | symbol | failed => rfl

/-- A character that neither goes on with what was begun nor is white space begins something. -/
theorem feed_begins (hok : ¬ s.close.Failed) (hc : ¬ Continues s.mode c) (hwhite : c ∉ ['\t', ' ', '\r', '\n']) :
    (s.feed c).mode = beginning s.here.right c := by
  by_cases hline : ∃ m, s.mode = .margin m
  · obtain ⟨m, hm⟩ := hline
    rw [feed_first hm hwhite]
  · have hnewline : c ≠ '\n' := by
      rintro rfl
      exact hwhite (by decide)
    rw [feed_of_not_continues (inside_of_not_failed hok) (fun m hm => hline ⟨m, hm⟩) hc,
      begin_of_not_failed hok, if_neg hnewline, close_here]

/-- White space and what goes on with what was begun leave nothing that cannot end. -/
theorem feed_ends (hok : ¬ s.close.Failed) (hc : Continues s.mode c ∨ c ∈ ['\t', ' ', '\r', '\n']) :
    ¬ (s.feed c).close.Failed := by
  rcases hc with hcontinues | hwhite
  · cases hmode : s.mode with
    | gap | margin | text | quote | character | comment | failed =>
      rw [hmode] at hcontinues
      exact hcontinues.elim
    | word p letters =>
      rw [hmode] at hcontinues
      have hletter : Text.isLetter c := hcontinues
      simp [feed, hmode, hletter, take, close, endWord, Failed]
    | number p digits point =>
      rw [hmode] at hcontinues
      rcases hcontinues with hdigit | ⟨rfl, rfl⟩
      · simp [feed, hmode, hdigit, take, close, endNumber, Failed]
      · have hdigit : Text.isDecimalDigit '.' = false := by decide +kernel
        simp [feed, hmode, hdigit, take, close, endNumber, Failed]
    | symbol p first =>
      rw [hmode] at hcontinues
      obtain ⟨kind, hkind⟩ := Option.isSome_iff_exists.mp hcontinues
      apply not_failed_of_gap
      simp only [feed, hmode, hkind]
      rfl
  · by_cases hline : ∃ m, s.mode = .margin m
    · obtain ⟨m, hm⟩ := hline
      obtain ⟨m', hm'⟩ : ∃ m', (s.feed c).mode = .margin m' := by
        simp only [List.mem_cons, List.not_mem_nil, or_false] at hwhite
        rcases hwhite with rfl | rfl | rfl | rfl
        all_goals
          simp only [feed, hm]
          exact ⟨_, rfl⟩
      simp [close_of_margin hm', Failed, hm']
    · have hbreaks : ['\t', ' ', '\r', '\n'] ⊆ breaks := by simp [breaks]
      rw [feed_of_not_continues (inside_of_not_failed hok) (fun m hm => hline ⟨m, hm⟩)
        (not_continues (hbreaks hwhite)), begin_of_not_failed hok]
      split
      case isTrue => simp [close, Failed]
      case isFalse hnewline =>
        have hblank : ['\t', ' ', '\r', '\n'].all Text.isBlank := by decide +kernel
        apply not_failed_of_gap
        exact beginning_of_blank _ (List.all_eq_true.mp hblank c hwhite)

theorem not_continues_of_spoils (hok : ¬ s.close.Failed) (hspoils : cause.Spoils c after) :
    ¬ Continues s.mode c := by
  cases cause with
  | unterminatedString | unterminatedCharacter | unterminatedComment =>
    rw [hspoils.1]
    exact not_continues (by decide)
  | unknownCharacter d =>
    obtain ⟨-, ⟨-, hletter, hdigit, -, hsingle⟩, -⟩ := hspoils
    intro hc
    cases hmode : s.mode with
    | gap | margin | text | quote | character | comment | failed =>
      rw [hmode] at hc
      exact hc
    | word => simp [hmode, Continues, hletter] at hc
    | number =>
      simp [hmode, Continues, hdigit] at hc
      rw [hc.1] at hsingle
      cases hsingle
    | symbol p first =>
      -- Only a pair of two such characters is a token, and the first of them cannot end by itself.
      rw [hmode] at hc
      have hfirst : Kind.single? first = none := by
        obtain ⟨kind, hkind⟩ := Option.isSome_iff_exists.mp hc
        unfold Kind.pair? at hkind
        split at hkind
        all_goals first | rfl | cases hsingle | cases hkind
      apply hok
      simp only [close, hmode, endSymbol, hfirst]
      exact ⟨_, rfl⟩

end Scanner

section Whole
open Scanner
variable {file : String} {source before after : List Char} {c : Char} {e : LexError} {cause : LexCause}

theorem lex_eq_error_iff_mode : lex file source = .error e ↔ (ended file source).mode = .failed e := by
  by_cases hok : (ended file source).Failed
  · obtain ⟨e', he'⟩ := hok
    have hlex : lex file source = .error e' := by
      show (ended file source).settle.result = _
      simp only [settle, he', result]
    rw [hlex, he', Except.error.injEq, Mode.failed.injEq]
  · rw [lex_of_not_failed hok]
    exact iff_of_false (by simp) fun h => hok ⟨e, h⟩

theorem lexes_iff : (∃ tokens, lex file source = .ok tokens) ↔ ¬ (ended file source).Failed :=
  ⟨fun ⟨_, h⟩ => ended_of_lex h, fun h => ⟨_, lex_of_not_failed h⟩⟩

theorem ended_cons (file : String) (before : List Char) (c : Char) (after : List Char) :
    ended file (before ++ c :: after) = ((((start file).feedAll before).feed c).feedAll after).close := by
  rw [ended, feedAll_append]
  rfl

/-- A text is not read past the first thing that does not end. -/
theorem lex_of_spoils (hbefore : ¬ (ended file before).Failed) (hspoils : cause.Spoils c after) :
    lex file (before ++ c :: after) = .error ⟨cause, placeAt file before⟩ := by
  have hread : ¬ ((start file).feedAll before).Failed := mt close_failed hbefore
  have hbegins := feed_begins hbefore (not_continues_of_spoils hbefore hspoils) hspoils.not_white
  rw [here_feedAll hread] at hbegins
  rw [lex_eq_error_iff_mode, ended_cons]
  exact failed_of_spoils hbegins hspoils

/-- After a text that can be read, another can be read that is longer, or something does not end. -/
theorem longer_or_spoils (hbefore : ¬ (ended file before).Failed) (c : Char) (after : List Char) :
    (∃ inner, inner <+: after ∧ ¬ (ended file (before ++ c :: inner)).Failed) ∨
      ∃ cause : LexCause, cause.Spoils c after := by
  let s := (start file).feedAll before
  by_cases hc : Continues s.mode c ∨ c ∈ ['\t', ' ', '\r', '\n']
  · exact .inl ⟨[], List.nil_prefix, by rw [ended_cons]; exact feed_ends hbefore hc⟩
  · obtain ⟨hc, hwhite⟩ := not_or.mp hc
    have hnewline : c ≠ '\n' := by
      rintro rfl
      exact hwhite (by decide)
    refine (ends_or_spoils (feed_begins hbefore hc hwhite) hnewline after).imp_left ?_
    rintro ⟨inner, hinner, hends⟩
    exact ⟨inner, hinner, by rw [ended_cons]; exact hends⟩

/-- A text that cannot be read is spoiled after a part of it that can be. -/
theorem exists_spoils (hsource : (ended file source).Failed) :
    ∃ before c after, source = before ++ c :: after ∧ ¬ (ended file before).Failed ∧
      ∃ cause : LexCause, cause.Spoils c after := by
  -- The part that can be read grows until what follows it spoils the text; it cannot be all of it.
  suffices h : ∀ rest before, source = before ++ rest → ¬ (ended file before).Failed →
      ∃ before c after, source = before ++ c :: after ∧ ¬ (ended file before).Failed ∧
        ∃ cause : LexCause, cause.Spoils c after by
    refine h source [] rfl ?_
    rintro ⟨e, he⟩
    cases he
  intro rest
  induction h : rest.length using Nat.strongRecOn generalizing rest with
  | ind n ih =>
    rintro before rfl hbefore
    cases rest with
    | nil =>
      rw [List.append_nil] at hsource
      exact absurd hsource hbefore
    | cons c after =>
      rcases longer_or_spoils hbefore c after with ⟨inner, ⟨more, rfl⟩, hlonger⟩ | hspoils
      · refine ih more.length ?_ more rfl (before ++ c :: inner) (by simp) hlonger
        rw [← h, List.length_cons, List.length_append]
        omega
      · exact ⟨before, c, after, rfl, hbefore, hspoils⟩

/-- **A text that cannot be read fails at the first character that begins what does not end.** Everything
before it can be read, and the failure says which of the four things it is, of which there is only one. -/
theorem lex_eq_error_iff (file : String) (source : List Char) (e : LexError) :
    lex file source = .error e ↔
      ∃ before c after, source = before ++ c :: after ∧ e.position = placeAt file before ∧
        (∃ tokens, lex file before = .ok tokens) ∧ ∀ cause : LexCause, cause.Spoils c after ↔ cause = e.cause := by
  constructor
  · intro hlex
    have hfailed : (ended file source).Failed := ⟨e, lex_eq_error_iff_mode.mp hlex⟩
    obtain ⟨before, c, after, rfl, hbefore, cause, hspoils⟩ := exists_spoils hfailed
    cases (lex_of_spoils hbefore hspoils).symm.trans hlex
    refine ⟨before, c, after, rfl, rfl, lexes_iff.mpr hbefore, fun cause' => ⟨fun h => h.unique hspoils, ?_⟩⟩
    rintro rfl
    exact hspoils
  · rintro ⟨before, c, after, rfl, hplace, hbefore, hcause⟩
    have hspoils : e.cause.Spoils c after := (hcause e.cause).mpr rfl
    rw [lex_of_spoils (lexes_iff.mp hbefore) hspoils, ← hplace]

end Whole

end Offside
