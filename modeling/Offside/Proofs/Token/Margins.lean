import Offside.Proofs.Token.Spacing

/-! Where indentation changes, and how.

Levels open and close only at the first character of a line that is not blank, and what happens there
depends on the line's own level and on the innermost one that is open: a deeper line opens a level, one
at the same level changes nothing, one less deep closes levels. The line before it is at the innermost
level itself, unless it fell back between two levels. So it is with the open levels, and not with the
line before, that a line is compared. -/
namespace Offside

open Scanner

/-- A line that is not blank: it comes after a line end outside quotes and comments, and starts with
`margin`. -/
structure LineAt (source front margin : List Char) : Prop where
  text : ∃ first rest, source = front ++ '\n' :: (margin ++ first :: rest) ∧
    first ∉ ['\t', ' ', '\r', '\n']
  outside : Outside front
  spaces : Spaces margin

/-- Two lines that are not blank, with none in between. -/
structure Adjacent (source front margin front' margin' : List Char) : Prop where
  earlier : LineAt source front margin
  later : LineAt source front' margin'
  ordered : front.length < front'.length
  between : ∀ f w, LineAt source f w → f.length ≤ front.length ∨ front'.length ≤ f.length

/-- The changes of indentation where a line at level `b` comes after one at level `a`: a level is opened,
or none is, or some are closed. -/
def ChangesFrom (a b : Nat) (kinds : List Kind) : Prop :=
  (a < b → kinds = [.indent]) ∧ (b = a → kinds = []) ∧
    (b < a → ∃ n, kinds = List.replicate (n + 1) .dedent)

/-! ### Places of lines -/

namespace LineAt
variable {source front margin front' margin' : List Char}

theorem getElem?_end (h : LineAt source front margin) : source[front.length]? = some '\n' := by
  obtain ⟨first, rest, rfl, -⟩ := h.text
  simp

theorem getElem?_margin (h : LineAt source front margin) {i : Nat} (hi : i < margin.length) :
    ∃ d ∈ ['\t', ' ', '\r'], source[front.length + 1 + i]? = some d := by
  obtain ⟨first, rest, rfl, -⟩ := h.text
  refine ⟨margin[i], h.spaces _ (List.getElem_mem hi), ?_⟩
  rw [List.getElem?_append_right (by omega), show front.length + 1 + i - front.length = i + 1 by omega,
    List.getElem?_cons_succ, List.getElem?_append_left hi, List.getElem?_eq_getElem hi]

theorem getElem?_first (h : LineAt source front margin) :
    ∃ d ∉ ['\t', ' ', '\r', '\n'], source[front.length + 1 + margin.length]? = some d := by
  obtain ⟨first, rest, rfl, hfirst⟩ := h.text
  refine ⟨first, hfirst, ?_⟩
  rw [List.getElem?_append_right (by omega),
    show front.length + 1 + margin.length - front.length = margin.length + 1 by omega,
    List.getElem?_cons_succ, List.getElem?_append_right (Nat.le_refl _), Nat.sub_self]
  rfl

/-- From its line end to its first character, a line lies before another one or after it, unless the two
are one. -/
theorem apart (h : LineAt source front margin) (h' : LineAt source front' margin') :
    front.length + 1 + margin.length < front'.length ∨ front'.length + 1 + margin'.length < front.length ∨
      (front.length = front'.length ∧ margin.length = margin'.length) := by
  -- The first character of either line is no white space, and its line end is in no margin.
  have hside : ∀ {f w f' w' : List Char}, LineAt source f w → LineAt source f' w' → f.length < f'.length →
      f.length + 1 + w.length < f'.length := by
    intro f w f' w' hline hline' hlt
    refine Classical.byContradiction fun hnot => ?_
    rcases Nat.lt_or_ge f'.length (f.length + 1 + w.length) with hin | hge
    · obtain ⟨d, hd, hget⟩ := hline.getElem?_margin (i := f'.length - f.length - 1) (by omega)
      rw [show f.length + 1 + (f'.length - f.length - 1) = f'.length by omega, hline'.getElem?_end] at hget
      cases hget
      exact absurd hd (by decide)
    · obtain ⟨d, hd, hget⟩ := hline.getElem?_first
      rw [show f.length + 1 + w.length = f'.length by omega, hline'.getElem?_end] at hget
      cases hget
      exact hd (by decide)
  rcases Nat.lt_trichotomy front.length front'.length with hlt | heq | hgt
  · exact .inl (hside h h' hlt)
  · refine .inr (.inr ⟨heq, ?_⟩)
    have hsame : ∀ {f w f' w' : List Char}, LineAt source f w → LineAt source f' w' → f.length = f'.length →
        ¬ w.length < w'.length := by
      intro f w f' w' hline hline' hlen hlt
      obtain ⟨d, hd, hget⟩ := hline.getElem?_first
      obtain ⟨d', hd', hget'⟩ := hline'.getElem?_margin hlt
      rw [← hlen, hget] at hget'
      cases hget'
      exact hd (List.mem_append_left ['\n'] hd')
    have := hsame h h' heq
    have := hsame h' h heq.symm
    omega
  · exact .inr (.inl (hside h' h hgt))

end LineAt

/-- Whether a line that is not blank comes after this place of a text. -/
def startsLine (source : List Char) (i : Nat) : Bool :=
  source[i]? = some '\n' && decide (Outside (source.take i)) &&
    ((source.drop (i + 1)).dropWhile (['\t', ' ', '\r'].contains ·)).head?.any (· ≠ '\n')

theorem LineAt.startsLine {source front margin : List Char} (h : LineAt source front margin) :
    startsLine source front.length = true := by
  have hend := h.getElem?_end
  obtain ⟨first, rest, rfl, hfirst⟩ := h.text
  have htake : (front ++ '\n' :: (margin ++ first :: rest)).take front.length = front := by simp
  have hdrop : (front ++ '\n' :: (margin ++ first :: rest)).drop (front.length + 1) =
      margin ++ first :: rest := by
    rw [List.append_cons]
    exact List.drop_left' (by simp)
  have hmargin : ∀ c ∈ margin, ['\t', ' ', '\r'].contains c = true :=
    fun c hc => List.contains_iff_mem.mpr (h.spaces c hc)
  have hstop : ¬ ['\t', ' ', '\r'].contains first = true :=
    fun hmem => hfirst (List.mem_append_left ['\n'] (List.contains_iff_mem.mp hmem))
  rw [Offside.startsLine, hend, htake, hdrop, List.dropWhile_append_of_pos hmargin,
    List.dropWhile_cons_of_neg hstop]
  simp only [List.mem_cons, not_or] at hfirst
  simp [h.outside, hfirst.2.2.2.1]

/-- Two lines are adjacent if none starts at a place between them. -/
theorem Adjacent.of_all {source front margin front' margin' : List Char} (h : LineAt source front margin)
    (h' : LineAt source front' margin') (hlt : front.length < front'.length)
    (hnone : (List.range front'.length).all fun i => i ≤ front.length || !startsLine source i) :
    Adjacent source front margin front' margin' := by
  refine ⟨h, h', hlt, fun f w hline => ?_⟩
  rcases Nat.lt_or_ge f.length front'.length with hin | hout
  · have hplace := List.all_eq_true.mp hnone f.length (List.mem_range.mpr hin)
    rw [hline.startsLine] at hplace
    exact .inl (by simpa using hplace)
  · exact .inr hout

/-- Where what was begun starts. -/
def Mode.start? : Mode → Option Position
  | .word p _ | .number p _ _ | .symbol p _ | .text p _ | .quote p | .character p _ | .comment p _ => some p
  | .gap | .margin _ | .failed _ => none

namespace Scanner
variable {P : Position → Prop} {s s' s'' : Scanner} {c : Char}

/-! ### What one character adds -/

/-- The second scanner has made more tokens. They start at places with the property, and so does what was
begun. -/
structure Emits (P : Position → Prop) (s s' : Scanner) : Prop where
  tokens : ∃ added, s'.tokens = added ++ s.tokens ∧ ∀ t ∈ added, P t.span.start
  start : ∀ p, s'.mode.start? = some p → P p

/-- The tokens that the second scanner has made are no changes of indentation. -/
structure Adds (P : Position → Prop) (s s' : Scanner) : Prop where
  levels : s'.levels = s.levels
  tokens : ∃ added, s'.tokens = added ++ s.tokens ∧ ∀ t ∈ added, t.isLexical = true ∧ P t.span.start
  start : ∀ p, s'.mode.start? = some p → P p

theorem Adds.emits (h : Adds P s s') : Emits P s s' := by
  obtain ⟨added, htokens, hadded⟩ := h.tokens
  exact ⟨⟨added, htokens, fun t ht => (hadded t ht).2⟩, h.start⟩

theorem Emits.trans (h : Emits P s s') (h' : Emits P s' s'') : Emits P s s'' := by
  obtain ⟨⟨added, htokens, hadded⟩, -⟩ := h
  obtain ⟨⟨more, htokens', hmore⟩, hstart⟩ := h'
  refine ⟨⟨more ++ added, ?_, ?_⟩, hstart⟩
  · rw [htokens', htokens, List.append_assoc]
  · intro t ht
    rcases List.mem_append.mp ht with ht | ht
    · exact hmore t ht
    · exact hadded t ht

namespace Adds

theorem none (hlevels : s'.levels = s.levels) (htokens : s'.tokens = s.tokens)
    (hstart : ∀ p, s'.mode.start? = some p → P p) : Adds P s s' :=
  ⟨hlevels, ⟨[], htokens, List.forall_mem_nil _⟩, hstart⟩

theorem one {t : Token} (hlevels : s'.levels = s.levels) (htokens : s'.tokens = t :: s.tokens)
    (ht : t.isLexical = true) (hplace : P t.span.start) (hmode : s'.mode.start? = Option.none) :
    Adds P s s' := by
  refine ⟨hlevels, ⟨[t], htokens, ?_⟩, by simp [hmode]⟩
  intro u hu
  rw [List.mem_singleton.mp hu]
  exact ⟨ht, hplace⟩

theorem trans (h : Adds P s s') (h' : Adds P s' s'') : Adds P s s'' := by
  obtain ⟨hlevels, ⟨added, htokens, hadded⟩, -⟩ := h
  obtain ⟨hlevels', ⟨more, htokens', hmore⟩, hstart⟩ := h'
  refine ⟨hlevels'.trans hlevels, ⟨more ++ added, ?_, ?_⟩, hstart⟩
  · rw [htokens', htokens, List.append_assoc]
  · intro t ht
    rcases List.mem_append.mp ht with ht | ht
    · exact hmore t ht
    · exact hadded t ht

end Adds

theorem start?_beginning {p q : Position} (h : (beginning q c).start? = some p) : p = q := by
  unfold beginning at h
  repeat' split at h
  all_goals cases h
  all_goals rfl

theorem begin_adds (hhere : P s.here.right) : Adds P s (s.begin c) := by
  by_cases hs : s.Failed
  · rw [begin_failed hs]
    obtain ⟨e, he⟩ := hs
    exact .none rfl rfl (by simp [he, Mode.start?])
  · rw [begin_of_not_failed hs]
    split
    · exact .one rfl rfl rfl hhere rfl
    · refine .none rfl rfl fun p hp => ?_
      rw [start?_beginning hp]
      exact hhere

theorem fail_adds {cause : LexCause} {p : Position} : Adds P s (s.fail cause p) :=
  .none rfl rfl (by simp [fail, Mode.start?])

theorem endSymbol_adds {p : Position} (hp : P p) : Adds P s (s.endSymbol p c) := by
  unfold endSymbol
  split
  · exact .one rfl rfl (isLexical_of_kind (single_kinds ‹_›)) hp rfl
  · exact fail_adds

theorem close_adds (hstart : ∀ p, s.mode.start? = some p → P p) : Adds P s s.close := by
  unfold close
  split
  case h_1 hmode =>
    exact .one rfl rfl (isLexical_of_kind (reserved_kinds _)) (hstart _ (by rw [hmode]; rfl)) rfl
  case h_2 hmode => exact .one rfl rfl rfl (hstart _ (by rw [hmode]; rfl)) rfl
  case h_3 hmode => exact endSymbol_adds (hstart _ (by rw [hmode]; rfl))
  case h_8 | h_9 | h_10 => exact .none rfl rfl hstart
  all_goals exact fail_adds

theorem close_here (s : Scanner) : s.close.here = s.here := by
  unfold close
  split
  case h_3 => unfold endSymbol; split <;> rfl
  all_goals rfl

theorem take_adds {mode : Mode} (hmode : ∀ p, mode.start? = some p → P p) : Adds P s (s.take c mode) :=
  .none rfl rfl hmode

/-- Indentation does not change but at the first character of a line. -/
theorem feed_adds (hstart : ∀ p, s.mode.start? = some p → P p) (hhere : P s.here.right)
    (hline : c ∈ ['\t', ' ', '\r', '\n'] ∨ ∀ m, s.mode ≠ .margin m) : Adds P s (s.feed c) := by
  -- What does not go on with what was begun ends it and begins something else.
  have hbegin : Adds P s (s.close.begin c) :=
    (close_adds hstart).trans (begin_adds (by rwa [close_here]))
  unfold feed
  unfold close at hbegin
  cases hmode : s.mode with
  | failed => exact .none rfl rfl hstart
  | gap => exact begin_adds hhere
  | margin m =>
    have hc := hline.resolve_right fun hline => hline m hmode
    simp only [List.mem_cons, List.not_mem_nil, or_false] at hc
    rw [hmode] at hstart
    rcases hc with rfl | rfl | rfl | rfl
    all_goals exact take_adds hstart
  | word p letters =>
    simp only [hmode] at hstart hbegin ⊢
    split
    · exact take_adds hstart
    · exact hbegin
  | number p digits point =>
    simp only [hmode] at hstart hbegin ⊢
    split
    · exact take_adds hstart
    split
    · exact take_adds hstart
    · exact hbegin
  | symbol p first =>
    simp only [hmode] at hstart hbegin ⊢
    split
    · exact .one rfl rfl (isLexical_of_kind (pair_kinds ‹_›)) (hstart p rfl) rfl
    · exact hbegin
  | text p chars =>
    simp only [hmode] at hstart ⊢
    split
    · exact .one rfl rfl rfl (hstart p rfl) rfl
    · exact take_adds hstart
  | quote p =>
    rw [hmode] at hstart
    exact take_adds hstart
  | character p quoted =>
    simp only [hmode] at hstart ⊢
    split
    · exact .one rfl rfl rfl (hstart p rfl) rfl
    · exact fail_adds
  | comment p inner =>
    simp only [hmode] at hstart ⊢
    split
    case h_2 => exact take_adds (by simp [Mode.start?])
    all_goals exact take_adds hstart

/-- The changes of indentation at a place where a line starts, last first. -/
def changeTokens (place : Position) (levels : List Nat) (level : Nat) : List Token :=
  (changesAt levels level).map fun face => ⟨face.1, .single place, face.2⟩

theorem indentTo_tokens (s : Scanner) (level : Nat) :
    (s.indentTo level).tokens = changeTokens s.here.right s.levels level ++ s.tokens := by
  unfold indentTo changeTokens changesAt
  split
  · rfl
  · simp [closeLevels_eq]

theorem changeTokens_layout {place : Position} {levels : List Nat} {level : Nat} :
    ∀ t ∈ changeTokens place levels level, t.isLexical = false ∧ t.span = .single place := by
  intro t ht
  obtain ⟨face, hface, rfl⟩ := List.mem_map.mp ht
  refine ⟨?_, rfl⟩
  unfold changesAt at hface
  split at hface
  · rw [List.mem_singleton.mp hface]
    rfl
  · rw [List.eq_of_mem_replicate hface]
    rfl

theorem ending_span {place : Position} {made : List Token} {levels : Nat} :
    ∀ t ∈ ending place made levels, t.span = .single place := by
  intro t ht
  rcases List.mem_append.mp ht with ht | ht
  · split at ht
    · rw [List.mem_singleton.mp ht]
    · cases ht
  · rw [List.eq_of_mem_replicate ht]

/-- At the first character of a line, indentation changes as the open levels and its own level say. -/
theorem feed_first {m : Margin} (hmode : s.mode = .margin m) (hc : c ∉ ['\t', ' ', '\r', '\n']) :
    s.feed c = { s with
      here := s.here.right
      levels := levelsAt s.levels m.level
      tokens := changeTokens s.here.right s.levels m.level ++ s.tokens
      mode := beginning s.here.right c } := by
  have hfeed := feed_marginEnd hmode hc
  simp only [List.mem_cons, List.not_mem_nil, or_false, not_or] at hc
  have hok : ¬ (s.indentTo m.level).Failed := by
    rintro ⟨e, he⟩
    rw [indentTo_mode, hmode] at he
    cases he
  have hhere : (s.indentTo m.level).here = s.here := by
    unfold indentTo
    split <;> rfl
  rw [hfeed, begin_of_not_failed hok, if_neg hc.2.2.2, hhere]
  rw [← indentTo_tokens, ← indentTo_levels]

theorem feed_emits (hstart : ∀ p, s.mode.start? = some p → P p) (hhere : P s.here.right) :
    Emits P s (s.feed c) := by
  by_cases hline : c ∈ ['\t', ' ', '\r', '\n'] ∨ ∀ m, s.mode ≠ .margin m
  · exact (feed_adds hstart hhere hline).emits
  · obtain ⟨hc, hmargin⟩ := not_or.mp hline
    obtain ⟨m, hm⟩ := Classical.not_forall.mp hmargin
    rw [feed_first (Classical.not_not.mp hm) hc]
    refine ⟨⟨_, rfl, fun t ht => ?_⟩, fun p hp => ?_⟩
    · obtain ⟨face, -, rfl⟩ := List.mem_map.mp ht
      exact hhere
    · rw [start?_beginning hp]
      exact hhere

/-- Once a line has started, indentation does not change before there is another token. -/
structure Starting (s s' : Scanner) : Prop where
  tokens : (s'.tokens = s.tokens ∧ ∀ m, s'.mode ≠ .margin m) ∨
    ∃ added first, s'.tokens = added ++ first :: s.tokens ∧ first.isLexical = true

/-- A line end is a token, unless the line is blank. -/
theorem feed_lineEnd_tokens (hline : ∀ m, s.mode ≠ .margin m) {m : Margin}
    (hmode : (s.feed c).mode = .margin m) : (s.feed c).tokens ≠ s.tokens := by
  rcases feed_margin_cases hmode with ⟨rfl, hfree⟩ | ⟨-, m', hmargin⟩
  · have hfeed := feed_of_not_continues (Mode.inside_of_enclosure hfree) hline
      (not_continues (show '\n' ∈ breaks by decide))
    have hok : ¬ s.close.Failed := by
      intro hfailed
      rw [hfeed, begin_failed hfailed] at hmode
      obtain ⟨e, he⟩ := hfailed
      exact nomatch he.symm.trans hmode
    obtain ⟨added, hadded, -⟩ := (close_adds (P := fun _ => True) (s := s) fun _ _ => trivial).tokens
    rw [hfeed, begin_of_not_failed hok, if_pos rfl]
    show _ :: s.close.tokens ≠ s.tokens
    intro heq
    have hlength := congrArg List.length heq
    rw [hadded, List.length_cons, List.length_append] at hlength
    omega
  · exact absurd hmargin (hline m')

theorem Starting.feed (h : Starting s s') : Starting s (s'.feed c) := by
  rcases h.tokens with ⟨htokens, hline⟩ | ⟨added, first, htokens, hfirst⟩
  · obtain ⟨added, hadded, hlexical⟩ :=
      (feed_adds (P := fun _ => True) (c := c) (fun _ _ => trivial) trivial (.inr hline)).tokens
    rcases List.eq_nil_or_concat added with rfl | ⟨earlier, first, rfl⟩
    · refine ⟨.inl ⟨hadded.trans htokens, fun m hm => ?_⟩⟩
      exact feed_lineEnd_tokens hline hm hadded
    · refine ⟨.inr ⟨earlier, first, ?_, (hlexical first (by simp)).1⟩⟩
      rw [hadded, htokens]
      simp
  · obtain ⟨⟨more, hmore, -⟩, -⟩ :=
      feed_emits (P := fun _ => True) (c := c) (s := s') (fun _ _ => trivial) trivial
    exact ⟨.inr ⟨more ++ added, first, by rw [hmore, htokens, List.append_assoc], hfirst⟩⟩

theorem Starting.feedAll (h : Starting s s') (cs : List Char) : Starting s (s'.feedAll cs) := by
  induction cs generalizing s' with
  | nil => exact h
  | cons c cs ih => exact ih h.feed

theorem Starting.close_first {added : List Token} (h : Starting s s')
    (hadded : s'.close.tokens = added ++ s.tokens) : ∀ t ∈ added.getLast?, t.isLexical = true := by
  obtain ⟨more, hmore, hlexical⟩ := (close_adds (P := fun _ => True) (s := s') fun _ _ => trivial).tokens
  intro t ht
  rcases h.tokens with ⟨htokens, -⟩ | ⟨made, first, htokens, hfirst⟩
  · obtain rfl : more = added := List.append_cancel_right (hmore.symm.trans (htokens ▸ hadded))
    exact (hlexical t (List.mem_of_getLast? ht)).1
  · have hsplit : more ++ made ++ [first] = added := by
      apply (List.append_left_inj s.tokens).mp
      rw [← hadded, hmore, htokens]
      simp
    rw [← hsplit, List.getLast?_concat] at ht
    cases ht
    exact hfirst

end Scanner

/-! ### Reading on -/

section Reading
variable {file : String} {source consumed rest : List Char} {tokens : List Token}

theorem here_feedAll (hok : ¬ ((start file).feedAll consumed).Failed) :
    ((start file).feedAll consumed).here.right = placeAt file consumed := by
  have hreads : Reads file consumed consumed ((start file).feedAll consumed) :=
    feedAll_reads start_reads rfl
  generalize (start file).feedAll consumed = s at hok hreads
  cases hreads with
  | failed hmode => exact absurd ⟨_, hmode⟩ hok
  | reading _ _ _ hhere => exact hhere

theorem not_failed_of_append (hok : ¬ ((start file).feedAll (consumed ++ rest)).Failed) :
    ¬ ((start file).feedAll consumed).Failed := by
  intro hfailed
  rw [feedAll_append] at hok
  exact hok (feedAll_failed hfailed rest)

/-- Tokens start where there were characters to read. -/
theorem feedAll_emits {P : Position → Prop} (hok : ¬ ((start file).feedAll (consumed ++ rest)).Failed)
    (hstart : ∀ p, ((start file).feedAll consumed).mode.start? = some p → P p)
    (hplaces : ∀ read c more, rest = read ++ c :: more → P (placeAt file (consumed ++ read))) :
    Emits P ((start file).feedAll consumed) ((start file).feedAll (consumed ++ rest)) := by
  induction rest generalizing consumed with
  | nil =>
    rw [List.append_nil]
    exact ⟨⟨[], rfl, List.forall_mem_nil _⟩, hstart⟩
  | cons c rest ih =>
    have hread := not_failed_of_append hok
    have hhere := hplaces [] c rest rfl
    rw [List.append_nil, ← here_feedAll hread] at hhere
    have hstep := feed_emits (c := c) hstart hhere
    have hfeed : ((start file).feedAll consumed).feed c = (start file).feedAll (consumed ++ [c]) :=
      (feedAll_append (start file) consumed [c]).symm
    rw [hfeed] at hstep
    rw [List.append_cons] at hok ⊢
    refine hstep.trans (ih hok hstep.start fun read d more hrest => ?_)
    have hplace := hplaces (c :: read) d more (by rw [hrest]; rfl)
    rwa [List.append_cons] at hplace

/-- The tokens made so far start before the next character. -/
theorem tokens_before (hok : ¬ ((start file).feedAll consumed).Failed) :
    ∀ t ∈ ((start file).feedAll consumed).tokens, t.span.start.Before (placeAt file consumed) := by
  have hemits : Emits (·.Before (placeAt file consumed)) (start file) ((start file).feedAll consumed) := by
    have hread : ¬ ((start file).feedAll ([] ++ consumed)).Failed := hok
    apply feedAll_emits hread
    · intro p hp
      cases hp
    · intro read c more hread
      rw [hread, List.nil_append]
      exact before_append (List.cons_ne_nil _ _)
  obtain ⟨added, htokens, hadded⟩ := hemits.tokens
  rw [htokens, show (start file).tokens = [] from rfl, List.append_nil]
  exact hadded

/-- The tokens made from a place on, if nothing was begun before it, start there or later. -/
theorem tokens_after {place : Position} (hok : ¬ (ended file (consumed ++ rest)).Failed)
    (hstart : ∀ p, ((start file).feedAll consumed).mode.start? = some p → ¬ p.Before place)
    (hplace : place.Before (placeAt file consumed)) :
    ∃ added, (ended file (consumed ++ rest)).tokens = added ++ ((start file).feedAll consumed).tokens ∧
      ∀ t ∈ added, ¬ t.span.start.Before place := by
  have hread : ¬ ((start file).feedAll (consumed ++ rest)).Failed := fun hfailed => hok (close_failed hfailed)
  have hemits : Emits (¬ ·.Before place) ((start file).feedAll consumed)
      ((start file).feedAll (consumed ++ rest)) := by
    apply feedAll_emits hread hstart
    intro read c more _
    cases read with
    | nil =>
      rw [List.append_nil]
      exact hplace.asymm
    | cons d read => exact (hplace.trans (before_append (List.cons_ne_nil _ _))).asymm
  exact (hemits.trans (close_adds hemits.start).emits).tokens

/-- Levels stay as they are where no line starts. -/
theorem openAfter_append (hsource : (consumed ++ rest) <+: source)
    (hlines : ∀ front margin, LineAt source front margin →
      front.length + 1 + margin.length < consumed.length ∨
        (consumed ++ rest).length ≤ front.length + 1 + margin.length) :
    openAfter file (consumed ++ rest) = openAfter file consumed := by
  induction rest generalizing consumed with
  | nil => rw [List.append_nil]
  | cons c rest ih =>
    have hline : c ∈ ['\t', ' ', '\r', '\n'] ∨ ∀ m, ((start file).feedAll consumed).mode ≠ .margin m := by
      refine Classical.or_iff_not_imp_left.mpr fun hc m hmode => ?_
      obtain ⟨front, margin, rfl, hout, hspaces⟩ := endsBlank_of_margin hmode
      obtain ⟨more, rfl⟩ := hsource
      have hat : LineAt (front ++ '\n' :: margin ++ c :: rest ++ more) front margin :=
        ⟨⟨c, rest ++ more, by simp, hc⟩, hout, hspaces⟩
      have := hlines front margin hat
      simp only [List.length_append, List.length_cons] at this
      omega
    have hstep : openAfter file (consumed ++ [c]) = openAfter file consumed := by
      unfold openAfter
      rw [feedAll_append]
      exact (feed_adds (P := fun _ => True) (fun _ _ => trivial) trivial hline).levels
    rw [List.append_cons] at hsource hlines ⊢
    rw [ih hsource fun front margin hat => ?_, hstep]
    have := hlines front margin hat
    simp only [List.length_append, List.length_singleton] at this ⊢
    omega

end Reading

/-! ### Lines -/

/-- The tokens of a text around a place where a line starts: those before it, the last of which is a line
end, the changes of indentation there, and those after it, which start with one of another kind if the
line has any. -/
structure Around (file : String) (source : List Char) (place : Position) (tokens pre changes post : List Token) :
    Prop where
  tokens_eq : tokens = pre ++ changes ++ post
  earlier : ∀ t ∈ pre, t.span.start.Before place
  lineEnd : EndsIn [.newline] pre
  changes : ∀ t ∈ changes, t.isLexical = false ∧ t.span = .single place
  later : ∀ t ∈ post, ¬ t.span.start.Before place
  next : ∀ t ∈ post.head?, t.isLexical = true ∨ t.span = .single (placeAt file source)

section Lines
variable {file : String} {source front margin front' margin' : List Char} {tokens : List Token}

/-- At its first character a line is in its margin, with the levels open that were open before it. -/
theorem LineAt.state (h : LineAt source front margin) (hlex : lex file source = .ok tokens) :
    ∃ m : Margin, m.level = levelOf margin ∧
      ((start file).feedAll (front ++ '\n' :: margin)).mode = .margin m ∧
      openAfter file (front ++ '\n' :: margin) = openAfter file front := by
  obtain ⟨first, rest, rfl, -⟩ := h.text
  have hshows := feedAll_spaces (lineEnd_shows h.outside hlex) h.spaces
  rw [← feedAll_append, ← List.append_cons] at hshows
  refine ⟨_, rfl, hshows.mode_eq, ?_⟩
  show ((start file).feedAll (front ++ '\n' :: margin)).levels = _
  rw [hshows.levels]
  unfold openAfter
  rw [feedAll_append]
  exact (feed_adds (P := fun _ => True) (fun _ _ => trivial) trivial (.inl (by decide))).levels

/-- After its first character, the levels are those that its own level leaves. -/
theorem LineAt.openAfter_first (h : LineAt source front margin) (hlex : lex file source = .ok tokens)
    {first : Char} (hfirst : first ∉ ['\t', ' ', '\r', '\n']) :
    openAfter file (front ++ '\n' :: margin ++ [first]) = levelsAt (openAfter file front) (levelOf margin) := by
  obtain ⟨m, hlevel, hmode, hopen⟩ := h.state hlex
  unfold openAfter at hopen ⊢
  rw [feedAll_append]
  show (((start file).feedAll (front ++ '\n' :: margin)).feed first).levels = _
  rw [feed_first hmode hfirst, hlevel, ← hopen]

theorem Adjacent.openAfter_eq (h : Adjacent source front margin front' margin')
    (hlex : lex file source = .ok tokens) :
    openAfter file front' = levelsAt (openAfter file front) (levelOf margin) := by
  obtain ⟨first, rest, hsource, hfirst⟩ := h.earlier.text
  obtain ⟨first', rest', hsource', -⟩ := h.later.text
  have hapart := h.earlier.apart h.later
  have hordered := h.ordered
  -- The earlier line has started where the later one's line end comes.
  have hbegun : (front ++ '\n' :: margin ++ [first]) <+: front' := by
    have hstarts : (front ++ '\n' :: margin ++ [first]) <+: source := ⟨rest, by rw [hsource]; simp⟩
    apply List.prefix_of_prefix_length_le hstarts ⟨_, hsource'.symm⟩
    simp only [List.length_append, List.length_cons, List.length_nil]
    omega
  obtain ⟨between, rfl⟩ := hbegun
  rw [← h.earlier.openAfter_first hlex hfirst]
  apply openAfter_append ⟨_, hsource'.symm⟩
  intro f w hline
  have hapart := hline.apart h.earlier
  have hbetween := h.between f w hline
  simp only [List.length_append, List.length_cons, List.length_nil] at hbetween ⊢
  omega

/-- What the tokens are around the first character of a line. -/
theorem LineAt.around (h : LineAt source front margin) (hlex : lex file source = .ok tokens) :
    ∃ pre post, Around file source (placeAt file (front ++ '\n' :: margin)) tokens pre
      (changeTokens (placeAt file (front ++ '\n' :: margin)) (openAfter file front) (levelOf margin)).reverse
      post := by
  obtain ⟨first, rest, hsource, hfirst⟩ := h.text
  obtain ⟨m, hlevel, hmode, hopen⟩ := h.state hlex
  obtain ⟨hclosed, htokens⟩ := lex_eq_ok hlex
  have hcut : source = front ++ '\n' :: margin ++ [first] ++ rest := by
    rw [hsource]
    simp
  generalize front ++ '\n' :: margin = consumed at *
  have hread : ¬ ((start file).feedAll source).Failed := fun hfailed => hclosed (close_failed hfailed)
  have hbefore : ¬ ((start file).feedAll consumed).Failed := by
    rw [hcut, List.append_assoc] at hread
    exact not_failed_of_append hread
  -- Its first character changes the levels and begins something.
  have hline : (start file).feedAll (consumed ++ [first]) =
      ((start file).feedAll consumed).feed first := feedAll_append ..
  rw [feed_first hmode hfirst, here_feedAll hbefore, hlevel] at hline
  have hbegun : ∀ p, ((start file).feedAll (consumed ++ [first])).mode.start? = some p →
      ¬ p.Before (placeAt file consumed) := by
    intro p hp
    rw [hline] at hp
    rw [start?_beginning hp]
    exact Position.Before.irrefl _
  rw [hcut] at hclosed
  obtain ⟨added, hadded, hlater⟩ := tokens_after hclosed hbegun (before_snoc first)
  have hstarting : Starting ((start file).feedAll (consumed ++ [first])) ((start file).feedAll source) := by
    rw [hcut, feedAll_append _ (consumed ++ [first])]
    refine Starting.feedAll ⟨.inl ⟨rfl, fun n hn => ?_⟩⟩ rest
    rw [hline] at hn
    exact beginning_ne_margin _ first n hn
  rw [← hcut] at hadded
  have hnext := hstarting.close_first hadded
  rw [hline] at hadded
  rw [close_here, here_feedAll hread] at htokens
  have hend : (placeAt file consumed).Before (placeAt file source) := by
    rw [hcut, List.append_assoc]
    exact before_append (by simp)
  refine ⟨((start file).feedAll consumed).made, added.reverse ++ ending (placeAt file source)
    (ended file source).made (ended file source).levels.length, ⟨?_, ?_, ?_, ?_, ?_, ?_⟩⟩
  · have hmade : (ended file source).made = ((start file).feedAll consumed).made ++
        (changeTokens (placeAt file consumed) (openAfter file front) (levelOf margin)).reverse ++
          added.reverse := by
      rw [made, hadded, ← hopen]
      simp [made, openAfter]
    rw [htokens, ← List.append_assoc, ← hmade]
    rfl
  · intro t ht
    exact tokens_before hbefore t (List.mem_reverse.mp ht)
  · exact (feedAll_settled (start_settled file) consumed).margin m hmode
  · intro t ht
    exact changeTokens_layout t (List.mem_reverse.mp ht)
  · intro t ht
    rcases List.mem_append.mp ht with ht | ht
    · exact hlater t (List.mem_reverse.mp ht)
    · rw [ending_span t ht]
      exact hend.asymm
  · intro t ht
    rw [List.head?_append] at ht
    cases hlast : added.reverse.head? with
    | none =>
      rw [hlast] at ht
      exact .inr (ending_span t (List.mem_of_mem_head? ht))
    | some u =>
      rw [hlast] at ht
      cases ht
      rw [List.head?_reverse] at hlast
      exact .inl (hnext t hlast)

/-! ### Comparing lines -/

section Comparison
variable {levels : List Nat} {place : Position} {a b innermost : Nat} {kinds : List Kind}

/-- A line is compared with the innermost level. -/
theorem changesFrom_innermost : ChangesFrom (levels.headD 0) b
    ((changeTokens place levels b).reverse.map Token.kind) := by
  unfold changeTokens changesAt
  refine ⟨fun hdeeper => ?_, fun hsame => ?_, fun hlower => ?_⟩
  · rw [if_pos hdeeper]
    rfl
  · rw [if_neg (by omega)]
    cases levels with
    | nil => rfl
    | cons inner outer =>
      rw [List.takeWhile_cons_of_neg (by simp [hsame])]
      rfl
  · rw [if_neg (by omega)]
    cases levels with
    | nil => exact absurd hlower (Nat.not_lt_zero b)
    | cons inner outer =>
      rw [List.takeWhile_cons_of_pos (by simpa using hlower)]
      exact ⟨(outer.takeWhile (b < ·)).length, by simp⟩

/-- Comparing with the line before comes to the same where that is at the innermost level, and where the
line is deeper than both or less deep than both. -/
theorem changesFrom_iff (hinnermost : innermost ≤ a) (h : ChangesFrom innermost b kinds) :
    ChangesFrom a b kinds ↔ innermost = a ∨ a < b ∨ b < innermost := by
  obtain ⟨hdeeper, hsame, hlower⟩ := h
  constructor
  · rintro ⟨-, hsame', hlower'⟩
    refine Classical.byContradiction fun hnot => ?_
    simp only [not_or, Nat.not_lt] at hnot
    obtain ⟨hne, hle, hge⟩ := hnot
    rcases Nat.lt_or_eq_of_le hle with hlt | heq
    · obtain ⟨n, hn⟩ := hlower' hlt
      rcases Nat.lt_or_eq_of_le hge with hbetween | hback
      · rw [hdeeper hbetween] at hn
        cases hn
      · rw [hsame hback.symm] at hn
        cases hn
    · have := hdeeper (by omega)
      rw [hsame' heq] at this
      cases this
  · rintro (rfl | hdeep | hless)
    · exact ⟨hdeeper, hsame, hlower⟩
    · exact ⟨fun _ => hdeeper (by omega), fun heq => absurd heq (by omega), fun hlt => absurd hlt (by omega)⟩
    · exact ⟨fun hlt => absurd hlt (by omega), fun heq => absurd heq (by omega), fun _ => hlower hless⟩

end Comparison

/-- A line is compared with the innermost open level: where it is deeper, one level is opened, where it
is at it, nothing happens, and where it is less deep, levels are closed, all between the end of the line
before it and its first token. That is the level of the line before it, if this one opened a level or was
at an open one. Otherwise it is less deep, and then the two lines are compared with one another only where
the later one is deeper than both or less deep than both. -/
theorem indentation_of_line (file : String) (source : List Char) (tokens : List Token)
    (hlex : lex file source = .ok tokens) (front margin front' margin' : List Char)
    (h : Adjacent source front margin front' margin') :
    ∃ pre changes post innermost,
      Around file source (placeAt file (front' ++ '\n' :: margin')) tokens pre changes post ∧
      innermost = (openAfter file front').headD 0 ∧ innermost ≤ levelOf margin ∧
      (innermost = levelOf margin ↔ KeepsTo (openAfter file front) (levelOf margin)) ∧
      ChangesFrom innermost (levelOf margin') (changes.map Token.kind) ∧
      (ChangesFrom (levelOf margin) (levelOf margin') (changes.map Token.kind) ↔
        innermost = levelOf margin ∨ levelOf margin < levelOf margin' ∨ levelOf margin' < innermost) := by
  obtain ⟨pre, post, haround⟩ := h.later.around hlex
  have hfalling : (openAfter file front ++ [0]).Pairwise (· > ·) :=
    (feedAll_settled (start_settled file) front).levelled.falling
  have hinnermost : (openAfter file front').headD 0 ≤ levelOf margin ∧
      ((openAfter file front').headD 0 = levelOf margin ↔
        KeepsTo (openAfter file front) (levelOf margin)) := by
    rw [h.openAfter_eq hlex]
    by_cases hkeeps : KeepsTo (openAfter file front) (levelOf margin)
    · have hhead := hkeeps.headD_levelsAt hfalling
      exact ⟨Nat.le_of_eq hhead, iff_of_true hhead hkeeps⟩
    · have hhead := headD_levelsAt_lt hkeeps
      exact ⟨Nat.le_of_lt hhead, iff_of_false (Nat.ne_of_lt hhead) hkeeps⟩
  exact ⟨pre, _, post, _, haround, rfl, hinnermost.1, hinnermost.2, changesFrom_innermost,
    changesFrom_iff hinnermost.1 changesFrom_innermost⟩

end Lines

/-- A line that falls back between two levels, with a comment over two lines in it, a blank line after it,
and then a line that is less deep and yet opens a level. -/
theorem indentation_of_line_between_levels :
    let source := "a\n\t\t\tb\n\t\tc \x7bx\ny\x7d\n \n\td".toList
    let tokens : List Token := [
      ⟨.word, .single ⟨1, 1, "f"⟩, "a"⟩, ⟨.newline, .single ⟨1, 2, "f"⟩, ""⟩,
      ⟨.indent, .single ⟨2, 4, "f"⟩, ""⟩, ⟨.word, .single ⟨2, 4, "f"⟩, "b"⟩, ⟨.newline, .single ⟨2, 5, "f"⟩, ""⟩,
      ⟨.dedent, .single ⟨3, 3, "f"⟩, ""⟩, ⟨.word, .single ⟨3, 3, "f"⟩, "c"⟩, ⟨.newline, .single ⟨4, 3, "f"⟩, ""⟩,
      ⟨.indent, .single ⟨6, 2, "f"⟩, ""⟩, ⟨.word, .single ⟨6, 2, "f"⟩, "d"⟩, ⟨.newline, .single ⟨6, 3, "f"⟩, ""⟩,
      ⟨.dedent, .single ⟨6, 3, "f"⟩, ""⟩]
    let front := "a\n\t\t\tb".toList
    let front' := "a\n\t\t\tb\n\t\tc \x7bx\ny\x7d\n ".toList
    lex "f" source = .ok tokens ∧ Adjacent source front ['\t', '\t'] front' ['\t'] ∧
      ∃ pre changes post innermost,
        Around "f" source (placeAt "f" (front' ++ '\n' :: ['\t'])) tokens pre changes post ∧
        innermost = (openAfter "f" front').headD 0 ∧ innermost ≤ levelOf ['\t', '\t'] ∧
        (innermost = levelOf ['\t', '\t'] ↔ KeepsTo (openAfter "f" front) (levelOf ['\t', '\t'])) ∧
        ChangesFrom innermost (levelOf ['\t']) (changes.map Token.kind) ∧
        (ChangesFrom (levelOf ['\t', '\t']) (levelOf ['\t']) (changes.map Token.kind) ↔
          innermost = levelOf ['\t', '\t'] ∨ levelOf ['\t', '\t'] < levelOf ['\t'] ∨
            levelOf ['\t'] < innermost) := by
  intro source tokens front front'
  have hlex : lex "f" source = .ok tokens := by decide +kernel
  have hearlier : LineAt source front ['\t', '\t'] :=
    ⟨⟨'c', " \x7bx\ny\x7d\n \n\td".toList, by decide +kernel, by decide⟩, by decide +kernel, by simp [Spaces]⟩
  have hlater : LineAt source front' ['\t'] :=
    ⟨⟨'d', [], by decide +kernel, by decide⟩, by decide +kernel, by simp [Spaces]⟩
  have hadjacent := Adjacent.of_all hearlier hlater (by decide +kernel) (by decide +kernel)
  exact ⟨hlex, hadjacent, indentation_of_line "f" source tokens hlex front _ front' _ hadjacent⟩

/-- Two adjacent lines with the same margin, the second of which opens a level. -/
theorem equal_margins_differ :
    let source := "a\n\t\tb\n\tc\n\td\n".toList
    let pre : List Token := [
      ⟨.word, .single ⟨1, 1, "f"⟩, "a"⟩, ⟨.newline, .single ⟨1, 2, "f"⟩, ""⟩,
      ⟨.indent, .single ⟨2, 3, "f"⟩, ""⟩, ⟨.word, .single ⟨2, 3, "f"⟩, "b"⟩, ⟨.newline, .single ⟨2, 4, "f"⟩, ""⟩,
      ⟨.dedent, .single ⟨3, 2, "f"⟩, ""⟩, ⟨.word, .single ⟨3, 2, "f"⟩, "c"⟩, ⟨.newline, .single ⟨3, 3, "f"⟩, ""⟩]
    let change : Token := ⟨.indent, .single ⟨4, 2, "f"⟩, ""⟩
    let post : List Token := [
      ⟨.word, .single ⟨4, 2, "f"⟩, "d"⟩, ⟨.newline, .single ⟨4, 3, "f"⟩, ""⟩, ⟨.dedent, .single ⟨5, 1, "f"⟩, ""⟩]
    lex "f" source = .ok (pre ++ [change] ++ post) ∧
      Adjacent source "a\n\t\tb".toList ['\t'] "a\n\t\tb\n\tc".toList ['\t'] ∧
      change.span = .single (placeAt "f" ("a\n\t\tb\n\tc".toList ++ '\n' :: ['\t'])) ∧
      ¬ ChangesFrom (levelOf ['\t']) (levelOf ['\t']) [change.kind] := by
  intro source pre change post
  have hearlier : LineAt source "a\n\t\tb".toList ['\t'] :=
    ⟨⟨'c', "\n\td\n".toList, by decide +kernel, by decide⟩, by decide +kernel, by simp [Spaces]⟩
  have hlater : LineAt source "a\n\t\tb\n\tc".toList ['\t'] :=
    ⟨⟨'d', ['\n'], by decide +kernel, by decide⟩, by decide +kernel, by simp [Spaces]⟩
  refine ⟨by decide +kernel, Adjacent.of_all hearlier hlater (by decide +kernel) (by decide +kernel),
    by decide +kernel, ?_⟩
  rintro ⟨-, hsame, -⟩
  cases hsame rfl

end Offside
