import Offside.Proofs.Token.Failures

/-! Texts that are known by their lexemes.

Where a line is put together from lexemes, none of which goes on with what follows it, and spaces, its
tokens are these lexemes and the end of the line. So what is printed that way is read as it was meant. -/
namespace Offside

/-- A line that is put together from lexemes and spaces, and its tokens. -/
inductive Phrased : List Char → List (Kind × String) → Prop
  | nil : Phrased [] []
  | space {rest faces} : Phrased rest faces → Phrased (' ' :: rest) faces
  | lexeme {kind text written rest faces} : Lexeme kind text written rest → kind ≠ .newline →
      Phrased rest faces → Phrased (written ++ rest) ((kind, text) :: faces)

/-- No decimal digit is a letter. -/
theorem Text.isLetter_of_isDecimalDigit {c : Char} (h : isDecimalDigit c) : isLetter c = false := by
  have hapart : decimalDigitRanges.all fun range => Ranges.apart range.1 range.2 letterRanges := by decide +kernel
  obtain ⟨range, hmem, hlo, hhi⟩ := Ranges.exists_of_holds h
  exact Ranges.holds_of_apart (List.all_eq_true.mp hapart range hmem) hlo hhi

namespace Scanner

variable {s : Scanner} {c d : Char} {p : Position} {cs rest written : List Char} {levels : List Nat}
  {faces : List (Kind × String)} {kind : Kind} {text : String}

/-! ### What a lexeme begins with -/

/-- The characters that stand for a token by themselves or with another. -/
def symbols : List Char := ['=', '(', ')', '+', '-', '*', '/', '%', '.', ',', ':', '<', '>', '!', '&', '|']

/-- Nothing that is a sign is a letter or a digit. -/
theorem not_letter_or_digit (h : c ∈ [' ', '\x7b', '"', '\''] ++ symbols) :
    Text.isLetter c = false ∧ Text.isDecimalDigit c = false := by
  have hall : ([' ', '\x7b', '"', '\''] ++ symbols).all fun d => !Text.isLetter d && !Text.isDecimalDigit d := by
    decide +kernel
  simpa using List.all_eq_true.mp hall c h

theorem beginning_of_letter (p : Position) (h : Text.isLetter c) : beginning p c = .word p [c] := by
  have hne : ∀ d ∈ ['\x7b', '"', '\''], c ≠ d := by
    rintro d hd rfl
    have hnot : Text.isLetter c = false := (not_letter_or_digit (List.mem_append_left _ (.tail _ hd))).1
    rw [h] at hnot
    cases hnot
  simp [beginning, hne, h]

theorem beginning_of_digit (p : Position) (h : Text.isDecimalDigit c) : beginning p c = .number p [c] false := by
  have hne : ∀ d ∈ ['\x7b', '"', '\''], c ≠ d := by
    rintro d hd rfl
    have hnot : Text.isDecimalDigit c = false := (not_letter_or_digit (List.mem_append_left _ (.tail _ hd))).2
    rw [h] at hnot
    cases hnot
  simp [beginning, hne, h, Text.isLetter_of_isDecimalDigit h]

theorem beginning_of_symbol (p : Position) (h : c ∈ symbols) : beginning p c = .symbol p c := by
  have hblank : Text.isBlank c = false := by
    have hall : symbols.all fun d => !Text.isBlank d := by decide
    simpa using List.all_eq_true.mp hall c h
  have hne : ∀ d ∈ ['\x7b', '"', '\''], c ≠ d := by
    rintro d hd rfl
    revert h
    simp only [List.mem_cons, List.not_mem_nil, or_false] at hd
    rcases hd with rfl | rfl | rfl <;> decide
  obtain ⟨hletter, hdigit⟩ := not_letter_or_digit (List.mem_append_right _ h)
  simp [beginning, hne, hletter, hdigit, hblank]

theorem mem_symbols_of_single (h : Kind.single? c = some kind) : c ∈ symbols := by
  unfold Kind.single? at h
  split at h <;> first | decide | cases h

theorem mem_symbols_of_pair (h : Kind.pair? c d = some kind) : c ∈ symbols := by
  unfold Kind.pair? at h
  split at h <;> first | decide | cases h

theorem ne_newline_of_mem_symbols (h : c ∈ symbols) : c ≠ '\n' := by
  rintro rfl
  exact absurd h (by decide)

/-! ### Reading a lexeme -/

theorem feedAll_letters {letters : List Char} (h : s.mode = .word p letters) (hcs : ∀ c ∈ cs, Text.isLetter c) :
    ∃ here, s.feedAll cs = { s with here, mode := .word p (cs.reverse ++ letters) } :=
  feedAll_run (.word p) (Text.isLetter ·) (fun s c letters hmode hc => by simp [feed, hmode, hc]) h hcs

theorem feedAll_digits {digits : List Char} {point : Bool} (h : s.mode = .number p digits point)
    (hcs : ∀ c ∈ cs, Text.isDecimalDigit c) :
    ∃ here, s.feedAll cs = { s with here, mode := .number p (cs.reverse ++ digits) point } :=
  feedAll_run (.number p · point) (Text.isDecimalDigit ·) (fun s c digits hmode hc => by simp [feed, hmode, hc]) h hcs

theorem feed_point {digits : List Char} (h : s.mode = .number p digits false) :
    s.feed '.' = s.take '.' (.number p ('.' :: digits) true) := by
  have hpoint : Text.isDecimalDigit '.' = false := by decide +kernel
  simp [feed, h, hpoint]

theorem feed_pair (h : s.mode = .symbol p c) (hpair : Kind.pair? c d = some kind) :
    s.feed d = (s.take d .gap).emit kind ⟨p, s.here.right⟩ (String.ofList [c, d]) := by
  simp only [feed, h, hpair]

theorem close_symbol (h : s.mode = .symbol p c) (hsingle : Kind.single? c = some kind) :
    s.close = { s.emit kind (.single p) c.toString with mode := .gap } := by
  simp only [close, h, endSymbol, hsingle]

theorem spelled_reverse (cs : List Char) : spelled cs.reverse = String.ofList cs := by
  rw [spelled, List.reverse_reverse]

namespace Stops

/-- A character that does not go on with what was begun ends it and begins something. -/
theorem begins (h : Stops levels faces s) (hc : ¬ Continues s.mode c) (hline : c ≠ '\n') :
    ∃ p, s.feed c = { s.close with here := p, mode := beginning p c } := by
  rw [feed_of_not_continues h.outside h.line hc, begin_of_not_failed h.ended, if_neg hline]
  exact ⟨_, rfl⟩

/-- What was begun has ended, or would end, as a token. -/
theorem ends (h : Stops levels faces s) (t : Scanner) (last : Token) (hout : t.mode.inside = false)
    (hline : ∀ m, t.mode ≠ .margin m) (hclose : t.close.mode = .gap) (hlevels : t.close.levels = s.close.levels)
    (htokens : t.close.tokens = last :: s.close.tokens) : Stops levels (last.face :: faces) t := by
  refine ⟨hout, hline, ?_, hlevels.trans h.levels, ?_⟩
  · rintro ⟨e, he⟩
    rw [hclose] at he
    cases he
  · rw [htokens, List.map_cons, h.faces]

theorem word (h : Stops levels faces s) (hc : ¬ Continues s.mode c) (hletters : ∀ d ∈ c :: cs, Text.isLetter d) :
    ∃ p here, s.feedAll (c :: cs) = { s.close with here, mode := .word p (c :: cs).reverse } := by
  obtain ⟨hletter, hcs⟩ := List.forall_mem_cons.mp hletters
  obtain ⟨p, hfirst⟩ := h.begins hc (by rintro rfl; simp [isLetter_newline] at hletter)
  rw [beginning_of_letter p hletter] at hfirst
  have hmode : (s.feed c).mode = .word p [c] := by rw [hfirst]
  obtain ⟨here, hread⟩ := feedAll_letters hmode hcs
  refine ⟨p, here, ?_⟩
  show (s.feed c).feedAll cs = _
  rw [hread, hfirst, List.reverse_cons]

theorem integer (h : Stops levels faces s) (hc : ¬ Continues s.mode c) (hdigits : ∀ d ∈ c :: cs, Text.isDecimalDigit d) :
    ∃ p here, s.feedAll (c :: cs) = { s.close with here, mode := .number p (c :: cs).reverse false } := by
  obtain ⟨hdigit, hcs⟩ := List.forall_mem_cons.mp hdigits
  obtain ⟨p, hfirst⟩ := h.begins hc (by rintro rfl; simp [isDecimalDigit_newline] at hdigit)
  rw [beginning_of_digit p hdigit] at hfirst
  have hmode : (s.feed c).mode = .number p [c] false := by rw [hfirst]
  obtain ⟨here, hread⟩ := feedAll_digits hmode hcs
  refine ⟨p, here, ?_⟩
  show (s.feed c).feedAll cs = _
  rw [hread, hfirst, List.reverse_cons]

theorem decimal {es : List Char} (h : Stops levels faces s) (hc : ¬ Continues s.mode c)
    (hdigits : ∀ d ∈ c :: cs, Text.isDecimalDigit d) (hes : ∀ e ∈ es, Text.isDecimalDigit e) :
    ∃ p here, s.feedAll (c :: cs ++ '.' :: es) =
      { s.close with here, mode := .number p (c :: cs ++ '.' :: es).reverse true } := by
  obtain ⟨p, here, hwhole⟩ := h.integer hc hdigits
  have hpoint := feed_point (s := s.feedAll (c :: cs)) (by rw [hwhole])
  have hmode : ((s.feedAll (c :: cs)).feed '.').mode = .number p ('.' :: (c :: cs).reverse) true := by
    rw [hpoint]
    rfl
  obtain ⟨here', hread⟩ := feedAll_digits hmode hes
  refine ⟨p, here', ?_⟩
  rw [feedAll_append]
  show ((s.feedAll (c :: cs)).feed '.').feedAll es = _
  have hreverse : (c :: cs ++ '.' :: es).reverse = es.reverse ++ '.' :: (c :: cs).reverse := by simp
  rw [hread, hpoint, hwhole, hreverse]
  rfl

theorem symbol (h : Stops levels faces s) (hc : ¬ Continues s.mode c) (hsymbol : c ∈ symbols) :
    ∃ p, s.feed c = { s.close with here := p, mode := .symbol p c } := by
  obtain ⟨p, hfirst⟩ := h.begins hc (ne_newline_of_mem_symbols hsymbol)
  rw [beginning_of_symbol p hsymbol] at hfirst
  exact ⟨p, hfirst⟩

/-- After a token that is known to be complete anything may follow. -/
theorem of_gap (h : Stops levels faces s) (t : Scanner) (last : Token) (hmode : t.mode = .gap)
    (hlevels : t.levels = s.close.levels) (htokens : t.tokens = last :: s.close.tokens) :
    Stops levels (last.face :: faces) t ∧ NotFollowed (Continues t.mode) rest := by
  have hclose := close_of_gap hmode
  rw [← hclose] at hlevels htokens
  refine ⟨h.ends t last (by rw [hmode]; rfl) (by simp [hmode]) (by rw [hclose, hmode]) hlevels htokens, ?_⟩
  rw [hmode]
  cases rest with
  | nil => trivial
  | cons c rest => exact id

/-- A lexeme is read as its token, and what follows it does not go on with it. -/
theorem lexeme (h : Stops levels faces s) (hlex : Lexeme kind text written rest) (hkind : kind ≠ .newline)
    (hnext : ∀ c ∈ written.head?, ¬ Continues s.mode c) :
    Stops levels ((kind, text) :: faces) (s.feedAll written) ∧
      NotFollowed (Continues (s.feedAll written).mode) rest := by
  cases hlex with
  | word hne hletters hrest =>
    obtain ⟨c, cs, rfl⟩ := List.exists_cons_of_ne_nil hne
    obtain ⟨p, here, hall⟩ := h.word (hnext c rfl) hletters
    rw [hall, ← spelled_reverse]
    exact ⟨h.ends _ ⟨_, ⟨p, here⟩, _⟩ rfl (fun m hm => by cases hm) rfl rfl rfl, hrest⟩
  | integer hne hdigits hrest =>
    obtain ⟨c, cs, rfl⟩ := List.exists_cons_of_ne_nil hne
    obtain ⟨p, here, hall⟩ := h.integer (hnext c rfl) hdigits
    rw [hall, ← spelled_reverse]
    refine ⟨h.ends _ ⟨_, ⟨p, here⟩, _⟩ rfl (fun m hm => by cases hm) rfl rfl rfl, hrest.imp fun d hd => ?_⟩
    exact hd.imp_right And.left
  | decimal hne hds hes hrest =>
    obtain ⟨c, cs, rfl⟩ := List.exists_cons_of_ne_nil hne
    obtain ⟨p, here, hall⟩ := h.decimal (hnext c rfl) hds hes
    rw [hall, ← spelled_reverse]
    refine ⟨h.ends _ ⟨_, ⟨p, here⟩, _⟩ rfl (fun m hm => by cases hm) rfl rfl rfl, hrest.imp fun d hd => ?_⟩
    exact hd.resolve_right fun hpoint => by cases hpoint.2
  | @single c _ _ hsingle hrest =>
    obtain ⟨p, hfirst⟩ := h.symbol (hnext c rfl) (mem_symbols_of_single hsingle)
    have hclose := close_symbol (s := s.feed c) (by rw [hfirst]) hsingle
    show Stops levels _ (s.feed c) ∧ NotFollowed (Continues (s.feed c).mode) rest
    refine ⟨h.ends (s.feed c) ⟨_, .single p, _⟩ ?_ ?_ ?_ ?_ ?_, ?_⟩
    · rw [hfirst]
      rfl
    · rw [hfirst]
      exact fun m hm => by cases hm
    · rw [hclose]
    · rw [hclose, hfirst]
      rfl
    · rw [hclose, hfirst]
      rfl
    · rw [hfirst]
      exact hrest
  | @pair c d _ _ hpair =>
    obtain ⟨p, hfirst⟩ := h.symbol (hnext c rfl) (mem_symbols_of_pair hpair)
    have hfeed := feed_pair (s := s.feed c) (by rw [hfirst]) hpair
    show Stops levels _ ((s.feed c).feed d) ∧ NotFollowed (Continues ((s.feed c).feed d).mode) rest
    rw [hfeed, hfirst]
    exact h.of_gap _ ⟨_, ⟨p, p.right⟩, _⟩ rfl rfl rfl
  | @text cs _ hcs =>
    obtain ⟨p, hfirst⟩ := h.begins (hnext '"' rfl) (by decide)
    have hmode : (s.feed '"').mode = .text p [] := by rw [hfirst]; rfl
    obtain ⟨here, hread⟩ := feedAll_text hmode hcs
    have hall : s.feedAll ('"' :: (cs ++ ['"'])) =
        (Scanner.mk here s.close.levels s.close.tokens (.text p cs.reverse)).feed '"' := by
      show (s.feed '"').feedAll (cs ++ ['"']) = _
      rw [feedAll_append, hread, hfirst, List.append_nil]
      rfl
    rw [hall, ← spelled_reverse]
    exact h.of_gap _ ⟨_, ⟨p, here.right⟩, _⟩ rfl rfl rfl
  | @character c _ =>
    obtain ⟨p, hfirst⟩ := h.begins (hnext '\'' rfl) (by decide)
    have hall : s.feedAll ['\'', c, '\''] =
        (Scanner.mk (after p c) s.close.levels s.close.tokens (.character p c)).feed '\'' := by
      show ((s.feed '\'').feed c).feed '\'' = _
      rw [hfirst]
      rfl
    rw [hall]
    exact h.of_gap _ ⟨_, ⟨p, (after p c).right⟩, _⟩ rfl rfl rfl
  | newline => exact absurd rfl hkind

end Stops

/-- What a line is put together from is what is read of it. -/
theorem Stops.phrased {source : List Char} {more : List (Kind × String)} (h : Stops levels faces s)
    (hsource : Phrased source more) (hnext : NotFollowed (Continues s.mode) source) :
    Stops levels (more.reverse ++ faces) (s.feedAll source) := by
  induction hsource generalizing s faces with
  | nil => exact h
  | @space rest more _ ih =>
    have hgap : Shows levels faces .gap (s.feedAll [' ']) := h.spaces (by simp [Spaces]) (by simp)
    refine ih hgap.stops ?_
    have hmode : (s.feed ' ').mode = .gap := hgap.mode_gap
    rw [hmode]
    cases rest with
    | nil => trivial
    | cons c rest => exact id
  | @lexeme kind text written rest more hlex hkind _ ih =>
    have hfirst : ∀ c ∈ written.head?, ¬ Continues s.mode c := by
      intro c hc
      obtain ⟨cs, rfl⟩ := List.head?_eq_some_iff.mp hc
      exact hnext
    obtain ⟨hstops, hrest⟩ := h.lexeme hlex hkind hfirst
    rw [feedAll_append, List.reverse_cons, List.append_assoc]
    exact ih hstops hrest

end Scanner

theorem Phrased.kind_ne {source : List Char} {faces : List (Kind × String)} (h : Phrased source faces) :
    ∀ face ∈ faces, face.1 ≠ .newline := by
  induction h with
  | nil => exact List.forall_mem_nil _
  | space _ ih => exact ih
  | lexeme _ hkind _ ih => exact List.forall_mem_cons.mpr ⟨hkind, ih⟩

/-- The tokens of a line are what it is put together from, and its end. -/
theorem lexesAs_of_phrased {file : String} {source : List Char} {faces : List (Kind × String)}
    (h : Phrased source faces) (hne : faces ≠ []) : LexesAs file source (faces ++ [(.newline, "")]) := by
  have hstart : Scanner.Stops [] [] (Scanner.start file) :=
    Scanner.Shows.stops ⟨rfl, rfl, Mode.Alike.refl _⟩
  have hnext : NotFollowed (Scanner.Continues (Scanner.start file).mode) source := by
    cases source with
    | nil => trivial
    | cons c rest => exact id
  have hstops := hstart.phrased h hnext
  have hlex : LexesAs file source _ := lexesAs_finished hstops.ended
  rw [ended, hstops.levels, hstops.faces, List.append_nil] at hlex
  have hlast : (faces.reverse.head?.any (·.1 ≠ .newline)) = true := by
    obtain ⟨face, hface⟩ := List.getLast?_isSome.mpr hne |> Option.isSome_iff_exists.mp
    rw [List.head?_reverse, hface]
    simpa using h.kind_ne face (List.mem_of_getLast? hface)
  rw [finished_of_unfinished hlast] at hlex
  simpa using hlex

end Offside
