import Offside.Proofs.Token.Cut
import Offside.Proofs.Token.Scanning

/-! The tokens of a text are a cut of it.

What a scanner has read is a cut of the beginning of the text, a gap, and the beginning of what it
has begun. Reading a character keeps that so, whatever the character is; at the end of the text
nothing begun is left, and only the end of the last line and the ends of open levels are added. -/
namespace Offside

/-! ### What was begun -/

/-- A comment with `inner` more open inside it, none of them closed yet. -/
inductive Opened : (inner : Nat) → List Char → Prop
  | outer {xs} : Balanced xs → Opened 0 ('\x7b' :: xs)
  | inner {n cs xs} : Opened n cs → Balanced xs → Opened (n + 1) (cs ++ '\x7b' :: xs)

namespace Opened

theorem append {n : Nat} {cs ys : List Char} (h : Opened n cs) (hy : Balanced ys) :
    Opened n (cs ++ ys) := by
  cases h with
  | outer hx => exact .outer (hx.append hy)
  | inner h hx =>
    rw [List.append_assoc]
    exact .inner h (hx.append hy)

/-- Closing the innermost leaves the others open. -/
theorem close_inner {n : Nat} {cs : List Char} (h : Opened (n + 1) cs) : Opened n (cs ++ ['\x7d']) := by
  cases h with
  | inner h hx =>
    rw [List.append_assoc, List.cons_append]
    exact h.append (.nested hx .nil)

/-- Closing the last one makes a comment. -/
theorem close_outer {cs : List Char} (h : Opened 0 cs) : Gap (cs ++ ['\x7d']) := by
  cases h with
  | outer hx => exact .comment hx .nil

end Opened

/-- The characters of what a scanner has begun after `before`. -/
inductive Began (file : String) (before : List Char) : Mode → (pending : List Char) → Prop
  | gap : Began file before .gap []
  | margin {m} : Began file before (.margin m) []
  | word {letters} : letters ≠ [] → (∀ c ∈ letters, Text.isLetter c) →
      Began file before (.word (placeAt file before) letters) letters.reverse
  | integer {digits} : digits ≠ [] → (∀ d ∈ digits, Text.isDecimalDigit d) →
      Began file before (.number (placeAt file before) digits false) digits.reverse
  | decimal {ds es} : ds ≠ [] → (∀ d ∈ ds, Text.isDecimalDigit d) → (∀ e ∈ es, Text.isDecimalDigit e) →
      Began file before (.number (placeAt file before) (es ++ '.' :: ds) true) (es ++ '.' :: ds).reverse
  | symbol {c} : Began file before (.symbol (placeAt file before) c) [c]
  | text {chars} : '"' ∉ chars →
      Began file before (.text (placeAt file before) chars) ('"' :: chars.reverse)
  | quote : Began file before (.quote (placeAt file before)) ['\'']
  | character {c} : Began file before (.character (placeAt file before) c) ['\'', c]
  | comment {inner cs} : Opened inner cs →
      Began file before (.comment (placeAt file before) inner) cs

namespace Scanner

/-- The lexical tokens made so far. -/
def lexical (s : Scanner) : List Token := s.made.filter Token.isLexical

/-- Everything consumed is cut, but for a gap at its end. -/
structure Ready (file : String) (source consumed : List Char) (s : Scanner) : Prop where
  cut : ∃ body gap, consumed = body ++ gap ∧ Cut file source body s.lexical ∧ Gap gap
  here : s.here.right = placeAt file consumed

/-- Everything consumed is cut, but for a gap and what was begun after it. -/
inductive Reads (file : String) (source : List Char) : (consumed : List Char) → Scanner → Prop
  | failed {consumed s e} : s.mode = .failed e → Reads file source consumed s
  | reading {body gap pending s} : Cut file source body s.lexical → Gap gap →
      Began file (body ++ gap) s.mode pending →
      s.here.right = placeAt file (body ++ gap ++ pending) → Reads file source (body ++ gap ++ pending) s

section Steps
variable {file : String} {source consumed body gap pending rest : List Char} {s s' : Scanner} {c : Char}

/-- Nothing begun. -/
theorem Ready.reads (h : Ready file source consumed s) (hmode : Began file consumed s.mode []) :
    Reads file source consumed s := by
  obtain ⟨⟨body, gap, rfl, hcut, hgap⟩, hhere⟩ := h
  rw [← List.append_nil (body ++ gap)] at hhere ⊢
  exact .reading hcut hgap hmode hhere

theorem lexical_congr (htokens : s'.tokens = s.tokens) : s'.lexical = s.lexical := by
  simp only [lexical, made, htokens]

/-- A lexeme after a gap. -/
theorem Ready.of_lexeme {kind : Kind} {text : String} {written : List Char}
    (hcut : Cut file source body s.lexical) (hgap : Gap gap) (hlex : Lexeme kind text written rest)
    (hsource : source = body ++ gap ++ written ++ rest)
    (htokens : s'.tokens = ⟨kind, ⟨placeAt file (body ++ gap),
      placeAt file (body ++ gap ++ written.dropLast)⟩, text⟩ :: s.tokens)
    (hhere : s'.here.right = placeAt file (body ++ gap ++ written)) :
    Ready file source (body ++ gap ++ written) s' := by
  refine ⟨⟨_, [], (List.append_nil _).symm, ?_, .nil⟩, hhere⟩
  have hlexical : s'.lexical = s.lexical ++ [⟨kind, ⟨placeAt file (body ++ gap),
      placeAt file (body ++ gap ++ written.dropLast)⟩, text⟩] := by
    simp [lexical, made, htokens, hlex.isLexical]
  rw [hlexical]
  exact .lexeme hcut hgap hlex hsource

/-- A blank or a comment after a gap. -/
theorem Ready.skip {cs : List Char} (h : Ready file source consumed s) (hcs : Gap cs)
    (htokens : s'.tokens = s.tokens) (hhere : s'.here.right = placeAt file (consumed ++ cs)) :
    Ready file source (consumed ++ cs) s' := by
  obtain ⟨⟨body, gap, rfl, hcut, hgap⟩, -⟩ := h
  rw [← lexical_congr htokens] at hcut
  exact ⟨⟨body, gap ++ cs, by rw [List.append_assoc], hcut, hgap.append hcs⟩, hhere⟩

/-! ### Places -/

theorem after_right {p : Position} (h : p.right = placeAt file consumed) :
    (after p c).right = placeAt file (consumed ++ [c]) := by
  unfold after
  by_cases hc : c = '\n'
  · rw [if_pos hc, hc, placeAt_newline, h]
  · rw [if_neg hc, placeAt_snoc hc, h]

theorem right_injective {p q : Position} (h : p.right = q.right) : p = q := by
  cases p
  cases q
  simpa [Position.right] using h

/-- What ends on a line ends at its last character. -/
theorem eq_placeAt_dropLast {p : Position} {written : List Char} (hne : written ≠ [])
    (hline : '\n' ∉ written) (h : p.right = placeAt file (consumed ++ written)) :
    p = placeAt file (consumed ++ written.dropLast) := by
  have hlast : written.getLast hne ≠ '\n' := fun heq => hline (heq ▸ List.getLast_mem hne)
  rw [← List.dropLast_concat_getLast hne, ← List.append_assoc, placeAt_snoc hlast] at h
  exact right_injective h

/-! ### Reading on -/

/-- A character taken into what was begun. -/
theorem Reads.of_take {mode : Mode} (hcut : Cut file source body s.lexical) (hgap : Gap gap)
    (hhere : s.here.right = placeAt file (body ++ gap ++ pending))
    (hmode : Began file (body ++ gap) mode (pending ++ [c])) :
    Reads file source (body ++ gap ++ pending ++ [c]) (s.take c mode) := by
  have hnext : (s.take c mode).here.right = placeAt file (body ++ gap ++ pending ++ [c]) :=
    after_right hhere
  rw [List.append_assoc (body ++ gap)] at hnext ⊢
  exact .reading hcut hgap hmode hnext

/-! ### Ending what was begun -/

theorem isLetter_newline : Text.isLetter '\n' = false := by decide +kernel

theorem isDecimalDigit_newline : Text.isDecimalDigit '\n' = false := by decide +kernel

/-- A character that belongs to what was begun, where that may also end without one. -/
def Continues : Mode → Char → Prop
  | .word _ _, c => Text.isLetter c
  | .number _ _ point, c => Text.isDecimalDigit c ∨ c = '.' ∧ point = false
  | .symbol _ first, c => (Kind.pair? first c).isSome
  | _, _ => False

/-- A word that does not go on is a lexeme. -/
theorem word_lexeme {start : Position} {letters : List Char} (hne : letters ≠ [])
    (hletters : ∀ c ∈ letters, Text.isLetter c) (hrest : NotFollowed (Continues (.word start letters)) rest) :
    Lexeme ((Kind.reserved? (spelled letters)).getD .word) (spelled letters) letters.reverse rest ∧
      '\n' ∉ letters.reverse := by
  refine ⟨.word (by simpa using hne) (by simpa using hletters) hrest, fun hmem => ?_⟩
  simpa [isLetter_newline] using hletters _ (List.mem_reverse.mp hmem)

/-- A number that does not go on is a lexeme. -/
theorem number_lexeme {before : List Char} {start : Position} {digits : List Char} {point : Bool}
    (h : Began file before (.number start digits point) pending)
    (hrest : NotFollowed (Continues (.number start digits point)) rest) :
    Lexeme .number (spelled digits) pending rest ∧ '\n' ∉ pending := by
  cases h with
  | integer hne hdigits =>
    have hfollow : NotFollowed (fun c => Text.isDecimalDigit c ∨ c = '.') rest :=
      hrest.imp fun c hc => hc.imp_right fun hdot => ⟨hdot, rfl⟩
    refine ⟨.integer (by simpa using hne) (by simpa using hdigits) hfollow, fun hmem => ?_⟩
    simpa [isDecimalDigit_newline] using hdigits _ (List.mem_reverse.mp hmem)
  | @decimal ds es hne hds hes =>
    have hfollow : NotFollowed (Text.isDecimalDigit ·) rest := hrest.imp fun c hc => .inl hc
    have hreverse : (es ++ '.' :: ds).reverse = ds.reverse ++ '.' :: es.reverse := by simp
    refine ⟨?_, fun hmem => ?_⟩
    · rw [spelled, hreverse]
      exact .decimal (by simpa using hne) (by simpa using hds) (by simpa using hes) hfollow
    · rcases List.mem_append.mp (List.mem_reverse.mp hmem) with hmem | hmem
      · simpa [isDecimalDigit_newline] using hes _ hmem
      · simpa [isDecimalDigit_newline] using hds _ (List.mem_of_ne_of_mem (by decide) hmem)

/-- A lexeme on one line ends where the scanner is. -/
theorem Ready.of_ended {kind : Kind} {text : String} (hcut : Cut file source body s.lexical)
    (hgap : Gap gap) (hhere : s.here.right = placeAt file (body ++ gap ++ pending))
    (hlex : Lexeme kind text pending rest) (hline : '\n' ∉ pending)
    (hsource : source = body ++ gap ++ pending ++ rest) :
    Ready file source (body ++ gap ++ pending)
      { s.emit kind ⟨placeAt file (body ++ gap), s.here⟩ text with mode := .gap } := by
  refine .of_lexeme hcut hgap hlex hsource ?_ hhere
  rw [← eq_placeAt_dropLast hlex.ne_nil hline hhere]
  rfl

theorem endSymbol_ready (hcut : Cut file source body s.lexical) (hgap : Gap gap)
    (hhere : s.here.right = placeAt file (body ++ gap ++ [c]))
    (hsource : source = body ++ gap ++ [c] ++ rest)
    (hrest : NotFollowed (fun d => (Kind.pair? c d).isSome) rest) :
    Ready file source (body ++ gap ++ [c]) (s.endSymbol (placeAt file (body ++ gap)) c) ∨
      (s.endSymbol (placeAt file (body ++ gap)) c).Failed := by
  unfold endSymbol
  cases hkind : Kind.single? c with
  | none => exact .inr ⟨_, rfl⟩
  | some kind =>
    refine .inl (.of_lexeme hcut hgap (.single hkind hrest) hsource ?_ hhere)
    simp [emit, Span.single]

/-- At the end of the text, or at a character that does not belong to it, what was begun ends in a
lexeme. -/
theorem close_ready (h : Reads file source consumed s) (hsource : source = consumed ++ rest)
    (hrest : NotFollowed (Continues s.mode) rest) : Ready file source consumed s.close ∨ s.close.Failed := by
  cases h with
  | failed he => exact .inr (by simp [Failed, close, he])
  | @reading body gap pending s hcut hgap hbegan hhere =>
    generalize hmode : s.mode = mode at hbegan hrest
    cases hbegan with
    | gap | margin =>
      simp only [close, hmode]
      rw [List.append_nil] at hhere ⊢
      exact .inl ⟨⟨_, _, rfl, hcut, hgap⟩, hhere⟩
    | word hne hletters =>
      obtain ⟨hlex, hline⟩ := word_lexeme hne hletters hrest
      simp only [close, hmode]
      exact .inl (.of_ended hcut hgap hhere hlex hline hsource)
    | integer hne hdigits =>
      obtain ⟨hlex, hline⟩ := number_lexeme (.integer hne hdigits) hrest
      simp only [close, hmode]
      exact .inl (.of_ended hcut hgap hhere hlex hline hsource)
    | decimal hne hds hes =>
      obtain ⟨hlex, hline⟩ := number_lexeme (.decimal hne hds hes) hrest
      simp only [close, hmode]
      exact .inl (.of_ended hcut hgap hhere hlex hline hsource)
    | symbol =>
      simp only [close, hmode]
      exact endSymbol_ready hcut hgap hhere hsource hrest
    | text | quote | character | comment => exact .inr (by simp [Failed, close, hmode, fail])

/-! ### Reading a character -/

theorem beginning_began : Began file consumed (beginning (placeAt file consumed) c) [c] ∨
    beginning (placeAt file consumed) c = .gap ∧ Gap [c] := by
  unfold beginning
  split
  case isTrue h =>
    subst h
    exact .inl (.comment (.outer .nil))
  split
  case isTrue h =>
    subst h
    exact .inl (.text List.not_mem_nil)
  split
  case isTrue h =>
    subst h
    exact .inl .quote
  split
  case isTrue h => exact .inl (.word (List.cons_ne_nil _ _) (by simpa using h))
  split
  case isTrue h => exact .inl (.integer (List.cons_ne_nil _ _) (by simpa using h))
  split
  case isTrue h => exact .inr ⟨rfl, .blank h .nil⟩
  exact .inl .symbol

/-- A character after a gap is a lexeme, goes into the gap or begins something. -/
theorem begin_reads (h : Ready file source consumed s ∨ s.Failed) (hsource : source = consumed ++ c :: rest) :
    Reads file source (consumed ++ [c]) (s.begin c) := by
  by_cases hfailed : s.Failed
  · obtain ⟨e, he⟩ := hfailed
    rw [begin, he]
    exact .failed he
  have hready := h.resolve_right hfailed
  have hhere := hready.here
  rw [begin_of_not_failed hfailed]
  by_cases hnewline : c = '\n'
  · subst hnewline
    obtain ⟨⟨body, gap, rfl, hcut, hgap⟩, -⟩ := hready
    refine Ready.reads (.of_lexeme hcut hgap .newline (by simpa using hsource) ?_ ?_) .margin
    · simp [emit, Span.single, hhere]
    · rw [placeAt_newline, ← hhere]
      rfl
  rw [if_neg hnewline, hhere]
  have hnext : (placeAt file consumed).right = placeAt file (consumed ++ [c]) := (placeAt_snoc hnewline).symm
  rcases @beginning_began file consumed c with hbegan | ⟨hgap, hblank⟩
  · obtain ⟨⟨body, gap, rfl, hcut, hgap⟩, -⟩ := hready
    exact .reading hcut hgap hbegan hnext
  · rw [hgap]
    exact Ready.reads (hready.skip hblank rfl hnext) .gap

/-! ### Indentation -/

/-- Changes of indentation are no lexical tokens. -/
theorem indentTo_ready (level : Nat) (h : Ready file source consumed s) :
    Ready file source consumed (s.indentTo level) := by
  obtain ⟨⟨body, gap, rfl, hcut, hgap⟩, hhere⟩ := h
  unfold indentTo
  by_cases hdeeper : s.levels.headD 0 < level
  · rw [if_pos hdeeper]
    refine ⟨⟨body, gap, rfl, ?_, hgap⟩, hhere⟩
    simpa [lexical, made, emit, Token.isLexical] using hcut
  · rw [if_neg hdeeper, closeLevels_eq]
    refine ⟨⟨body, gap, rfl, ?_, hgap⟩, hhere⟩
    simpa [lexical, made, Token.isLexical] using hcut

/-! ### Reading the next character -/

/-- What was begun ends before a character that does not belong to it. -/
theorem close_begin_reads (h : Reads file source consumed s) (hsource : source = consumed ++ c :: rest)
    (hstop : ¬ Continues s.mode c) : Reads file source (consumed ++ [c]) (s.close.begin c) :=
  begin_reads (close_ready h hsource hstop) hsource

/-- What was begun ends with a character that belongs to it. -/
theorem Reads.of_last {kind : Kind} {text : String} (hcut : Cut file source body s.lexical)
    (hgap : Gap gap) (hhere : s.here.right = placeAt file (body ++ gap ++ pending))
    (hlex : Lexeme kind text (pending ++ [c]) rest) (hsource : source = body ++ gap ++ pending ++ c :: rest) :
    Reads file source (body ++ gap ++ pending ++ [c])
      ((s.take c .gap).emit kind ⟨placeAt file (body ++ gap), s.here.right⟩ text) := by
  have hnext := @after_right file _ c _ hhere
  rw [List.append_assoc _ pending] at hnext ⊢
  refine Ready.reads (.of_lexeme hcut hgap hlex (by simpa using hsource) ?_ hnext) .gap
  simp [emit, take, hhere]

theorem margin_reads {m : Margin} (h : Ready file source consumed s) (hmode : s.mode = .margin m)
    (hsource : source = consumed ++ c :: rest) : Reads file source (consumed ++ [c]) (s.feed c) := by
  have hblank : ∀ m', Text.isBlank c → Reads file source (consumed ++ [c]) (s.take c (.margin m')) :=
    fun m' hc => Ready.reads (h.skip (.blank hc .nil) rfl (after_right h.here)) .margin
  simp only [feed, hmode]
  split
  · exact hblank _ (by decide)
  · exact hblank _ (by decide)
  · exact hblank _ (by decide)
  · exact hblank _ (by decide)
  · exact begin_reads (.inl (indentTo_ready _ h)) hsource

theorem comment_reads {inner : Nat} (hcut : Cut file source body s.lexical) (hgap : Gap gap)
    (hopened : Opened inner pending) (hmode : s.mode = .comment (placeAt file (body ++ gap)) inner)
    (hhere : s.here.right = placeAt file (body ++ gap ++ pending)) :
    Reads file source (body ++ gap ++ pending ++ [c]) (s.feed c) := by
  simp only [feed, hmode]
  split
  · exact .of_take hcut hgap hhere (.comment (.inner hopened .nil))
  · refine Ready.reads ⟨⟨body, gap ++ (pending ++ ['\x7d']), ?_, hcut, ?_⟩, after_right hhere⟩ .gap
    · simp only [List.append_assoc]
    · exact hgap.append hopened.close_outer
  · exact .of_take hcut hgap hhere (.comment hopened.close_inner)
  · rename_i hopen houter hinner
    have hclose : c ≠ '\x7d' := by
      rintro rfl
      cases inner with
      | zero => exact houter rfl rfl
      | succ n => exact hinner n rfl rfl
    exact .of_take hcut hgap hhere (.comment (hopened.append (.char hopen hclose .nil)))

/-- A character that belongs to a word, a number or a symbol is taken into it. -/
theorem continues_reads (h : Reads file source consumed s) (hsource : source = consumed ++ c :: rest)
    (hcontinues : Continues s.mode c) : Reads file source (consumed ++ [c]) (s.feed c) := by
  cases h with
  | failed he => simp only [he, Continues] at hcontinues
  | @reading body gap pending s hcut hgap hbegan hhere =>
    generalize hmode : s.mode = mode at hbegan hcontinues
    cases hbegan with
    | gap | margin | text | quote | character | comment => exact absurd hcontinues id
    | word hne hletters =>
      simp only [Continues] at hcontinues
      simp only [feed, hmode, hcontinues, if_true]
      refine .of_take hcut hgap hhere ?_
      rw [← List.reverse_cons]
      exact .word (List.cons_ne_nil _ _) (List.forall_mem_cons.mpr ⟨hcontinues, hletters⟩)
    | @integer digits hne hdigits =>
      simp only [Continues] at hcontinues
      simp only [feed, hmode]
      by_cases hdigit : Text.isDecimalDigit c
      · rw [if_pos hdigit]
        refine .of_take hcut hgap hhere ?_
        rw [← List.reverse_cons]
        exact .integer (List.cons_ne_nil _ _) (List.forall_mem_cons.mpr ⟨hdigit, hdigits⟩)
      · have hpoint : c = '.' := (hcontinues.resolve_left hdigit).1
        rw [if_neg hdigit, if_pos ⟨hpoint, rfl⟩]
        refine .of_take hcut hgap hhere ?_
        rw [← List.reverse_cons, hpoint]
        exact .decimal hne hdigits (List.forall_mem_nil _)
    | @decimal ds es hne hds hes =>
      have hdigit : Text.isDecimalDigit c := by simpa [Continues] using hcontinues
      simp only [feed, hmode, hdigit, if_true]
      refine .of_take hcut hgap hhere ?_
      rw [← List.reverse_cons, ← List.cons_append]
      exact .decimal hne hds (List.forall_mem_cons.mpr ⟨hdigit, hes⟩)
    | @symbol first =>
      simp only [Continues] at hcontinues
      obtain ⟨kind, hkind⟩ := Option.isSome_iff_exists.mp hcontinues
      simp only [feed, hmode, hkind]
      exact .of_last hcut hgap hhere (.pair hkind) hsource

/-- One character read keeps what was read a cut. -/
theorem feed_reads (h : Reads file source consumed s) (hsource : source = consumed ++ c :: rest) :
    Reads file source (consumed ++ [c]) (s.feed c) := by
  by_cases hcontinues : Continues s.mode c
  · exact continues_reads h hsource hcontinues
  have hclosed := close_begin_reads h hsource hcontinues
  cases h with
  | failed he =>
    simp only [feed, he]
    exact .failed he
  | @reading body gap pending s hcut hgap hbegan hhere =>
    generalize hmode : s.mode = mode at hbegan hcontinues
    cases hbegan with
    | gap => simpa only [feed, close, hmode] using hclosed
    | word =>
      have hletter : Text.isLetter c = false := by simpa [Continues] using hcontinues
      simpa [feed, close, hmode, hletter] using hclosed
    | integer | decimal =>
      simp only [Continues, not_or, Bool.not_eq_true] at hcontinues
      simpa [feed, close, hmode, hcontinues] using hclosed
    | @symbol first =>
      have hpair : Kind.pair? first c = none := by simpa [Continues] using hcontinues
      simpa only [feed, close, hmode, hpair] using hclosed
    | margin =>
      rw [List.append_nil] at hhere hsource ⊢
      exact margin_reads ⟨⟨body, gap, rfl, hcut, hgap⟩, hhere⟩ hmode hsource
    | comment hopened => exact comment_reads hcut hgap hopened hmode hhere
    | quote =>
      simp only [feed, hmode]
      exact .of_take hcut hgap hhere .character
    | @text chars hchars =>
      simp only [feed, hmode]
      by_cases hc : c = '"'
      · rw [if_pos hc]
        have hlex : Lexeme .text (spelled chars) ('"' :: chars.reverse ++ [c]) rest :=
          hc ▸ .text (by simpa using hchars)
        exact .of_last hcut hgap hhere hlex hsource
      · rw [if_neg hc]
        refine .of_take hcut hgap hhere ?_
        rw [List.cons_append, ← List.reverse_cons]
        exact .text (List.not_mem_cons_of_ne_of_not_mem (Ne.symm hc) hchars)
    | character =>
      simp only [feed, hmode]
      by_cases hc : c = '\''
      · subst hc
        exact .of_last hcut hgap hhere .character hsource
      · rw [if_neg hc]
        exact .failed rfl

/-- Whatever was read is a cut. -/
theorem feedAll_reads (h : Reads file source consumed s) (hsource : source = consumed ++ rest) :
    Reads file source source (s.feedAll rest) := by
  induction rest generalizing consumed s with
  | nil =>
    rw [List.append_nil] at hsource
    exact hsource ▸ h
  | cons c cs ih => exact ih (feed_reads h hsource) (by rw [hsource, List.append_assoc]; rfl)

theorem start_reads : Reads file source [] (start file) := by
  refine Ready.reads ⟨⟨[], [], rfl, .nil, .nil⟩, rfl⟩ .gap

/-- At its end a text is a cut and a gap. -/
theorem ended_ready (file : String) (source : List Char) :
    Ready file source source ((start file).feedAll source).close ∨
      ((start file).feedAll source).close.Failed :=
  close_ready (feedAll_reads start_reads rfl) (List.append_nil _).symm trivial

end Steps

end Scanner

theorem Cut.exists_lexeme {file : String} {source done : List Char} {ts : List Token}
    (h : Cut file source done ts) : ∀ t ∈ ts, ∃ written rest, Lexeme t.kind t.text written rest := by
  induction h with
  | nil => exact List.forall_mem_nil _
  | lexeme _ _ hlex _ ih =>
    intro t ht
    rcases List.mem_append.mp ht with ht | ht
    · exact ih t ht
    · cases List.mem_singleton.mp ht
      exact ⟨_, _, hlex⟩

/-- Whatever stands for characters is written as a lexeme. -/
theorem exists_lexeme_of_lex {file : String} {source : List Char} {tokens : List Token}
    (h : lex file source = .ok tokens) {t : Token} (ht : t ∈ tokens) (hlexical : t.isLexical) :
    ∃ written rest, Lexeme t.kind t.text written rest := by
  obtain ⟨hfailed, rfl⟩ := Scanner.lex_eq_ok h
  obtain ⟨⟨body, tail, -, hcut, -⟩, -⟩ := (Scanner.ended_ready file source).resolve_right hfailed
  rcases List.mem_append.mp ht with ht | ht
  · exact hcut.exists_lexeme t (List.mem_filter.mpr ⟨ht, hlexical⟩)
  -- Of what is added where the text ends only a line end stands for characters.
  rcases List.mem_append.mp ht with ht | ht
  · split at ht
    · rw [List.mem_singleton.mp ht]
      exact ⟨_, [], .newline⟩
    · cases ht
  · rw [List.eq_of_mem_replicate ht] at hlexical
    simp [Token.isLexical] at hlexical

/-- The tokens of a text are a cut of it, up to a gap at its end: lexemes that cannot be continued, with
nothing but white space and comments between them. Besides these there are only changes of indentation
and, at the very end, what `Scanner.ending` adds. So the span of every lexical token is exact: between
its first and its last place stands what it is written as, and it ends before the next one starts. -/
theorem lex_cut (file : String) (source : List Char) (tokens : List Token)
    (h : lex file source = .ok tokens) :
    ∃ made body tail levels, tokens = made ++ Scanner.ending (placeAt file source) made levels ∧
      source = body ++ tail ∧ Gap tail ∧ Cut file source body (made.filter Token.isLexical) ∧
      (∀ t ∈ made, t.isLexical → slice file source t.span = t.written) ∧
      (made.filter Token.isLexical).Pairwise fun t u => t.span.stop.Before u.span.start := by
  obtain ⟨hfailed, htokens⟩ := Scanner.lex_eq_ok h
  obtain ⟨⟨body, tail, hsource, hcut, htail⟩, hhere⟩ :=
    (Scanner.ended_ready file source).resolve_right hfailed
  rw [hhere] at htokens
  refine ⟨_, body, tail, _, htokens, hsource, htail, hcut, ?_, hcut.pairwise⟩
  intro t ht hlexical
  exact hcut.slice_eq_written t (List.mem_filter.mpr ⟨ht, hlexical⟩)

/-- A comment in a comment and a line end in a quoted text move the places after them. -/
theorem lex_cut_over_lines :
    let source := "a\x7b\n\x7bb\x7d\x7d=\"c\n\"".toList
    let tokens : List Token := [
      ⟨.word, .single ⟨1, 1, "f"⟩, "a"⟩, ⟨.assign, .single ⟨2, 5, "f"⟩, "="⟩,
      ⟨.text, ⟨⟨2, 6, "f"⟩, ⟨3, 1, "f"⟩⟩, "c\n"⟩, ⟨.newline, .single ⟨3, 2, "f"⟩, ""⟩]
    lex "f" source = .ok tokens ∧
      ∃ made body tail levels, tokens = made ++ Scanner.ending (placeAt "f" source) made levels ∧
        source = body ++ tail ∧ Gap tail ∧ Cut "f" source body (made.filter Token.isLexical) ∧
        (∀ t ∈ made, t.isLexical → slice "f" source t.span = t.written) ∧
        (made.filter Token.isLexical).Pairwise fun t u => t.span.stop.Before u.span.start :=
  ⟨rfl, lex_cut _ _ _ rfl⟩

end Offside
