import Mathlib.Algebra.BigOperators.Group.List.Basic
import Mathlib.Algebra.GroupWithZero.Nat
import Offside.Proofs.Token.Margins
import Offside.Upshot

/-! The listing of a text's tokens, line by line.

Every token is listed as its place, a tab and its label, with a line end after it. Places and the names of
kinds stay on one line, and so do the texts of words, numbers and symbols; layout has no text. What stands
in quotes is copied into the label as it is. So a line end in a quoted text or character breaks a line of
the listing, and nothing else does. -/
namespace Offside

open Scanner

/-- A text is these lines, each with its end, and no line has a line end inside. -/
structure IsLines (text : List Char) (lines : List (List Char)) : Prop where
  joined : text = lines.flatMap (· ++ ['\n'])
  unbroken : ∀ line ∈ lines, '\n' ∉ line

theorem count_lines (lines : List (List Char)) :
    (lines.flatMap (· ++ ['\n'])).count '\n' = lines.length + (lines.map (·.count '\n')).sum := by
  induction lines with
  | nil => rfl
  | cons line lines ih =>
    rw [List.flatMap_cons, List.count_append, List.count_append, ih, List.map_cons, List.sum_cons, List.length_cons]
    simp only [List.count_singleton_self]
    omega

/-- A text has as many lines as line ends. -/
theorem IsLines.length_eq {text : List Char} {lines : List (List Char)} (h : IsLines text lines) :
    lines.length = text.count '\n' := by
  have hzero : (lines.map (·.count '\n')).sum = 0 :=
    List.sum_eq_zero fun n hn => by
      obtain ⟨line, hline, rfl⟩ := List.mem_map.mp hn
      exact List.count_eq_zero.mpr (h.unbroken line hline)
  rw [h.joined, count_lines, hzero, Nat.add_zero]

/-! ### Places and labels -/

theorem newline_notMem_digits (n : ℕ) : '\n' ∉ Nat.toDigits 10 n := by
  intro h
  have hdigit : '\n'.isDigit = true := Nat.isDigit_of_mem_toDigits (by decide) (by decide) h
  exact absurd hdigit (by decide)

theorem Position.newline_notMem_text {p : Position} (h : '\n' ∉ p.file.toList) : '\n' ∉ p.text.toList := by
  have hfile : '\n' ∉ p.fileText.toList := by
    unfold Position.fileText
    split
    · decide
    · exact h
  have htext : p.text = p.fileText ++ ":" ++ toString p.line ++ ":" ++ toString p.column := rfl
  simp [htext, hfile, newline_notMem_digits]

theorem Kind.newline_notMem_name (kind : Kind) : '\n' ∉ kind.name.toList := by
  cases kind with
  | other code =>
    have hname : (Kind.other code).name = "TokenKind(" ++ code.repr ++ ")" := rfl
    have hcode : '\n' ∉ code.repr.toList := by cases code <;> simp [Int.repr, newline_notMem_digits]
    simp [hname, hcode]
  | _ => decide

namespace Token

/-- What is in quotes. -/
def isQuoted (t : Token) : Bool := t.kind = .text || t.kind = .character

/-- The token's place and its label, as one line of a listing without the line's end. -/
def entry (t : Token) : List Char := t.span.start.text.toList ++ '\t' :: t.label.toList

theorem toList_listing (t : Token) : t.listing.toList = t.entry ++ ['\n'] := by
  have hlisting : t.listing = t.span.start.text ++ "\t" ++ t.label ++ "\n" := rfl
  simp [hlisting, entry]

theorem count_label (t : Token) : t.label.toList.count '\n' = t.text.toList.count '\n' := by
  have hname : t.kind.name.toList.count '\n' = 0 := List.count_eq_zero.mpr t.kind.newline_notMem_name
  unfold label
  split
  case isTrue htext => rw [hname, htext]; rfl
  case isFalse =>
    have hlabel : s!"{t.kind.name}({t.text})" = t.kind.name ++ "(" ++ t.text ++ ")" := rfl
    simp [hlabel, hname]

theorem count_entry {t : Token} (h : '\n' ∉ t.span.start.file.toList) :
    t.entry.count '\n' = t.text.toList.count '\n' := by
  have hplace : t.span.start.text.toList.count '\n' = 0 :=
    List.count_eq_zero.mpr (Position.newline_notMem_text h)
  rw [entry, List.count_append, hplace, List.count_cons_of_ne (by decide), count_label, Nat.zero_add]

end Token

/-! ### The tokens of a text -/

theorem Lexeme.newline_notMem {kind : Kind} {text : String} {written rest : List Char}
    (h : Lexeme kind text written rest) (htext : kind ≠ .text) (hcharacter : kind ≠ .character) :
    '\n' ∉ text.toList := by
  cases h with
  | word _ hletters _ =>
    rw [String.toList_ofList]
    exact fun hmem => absurd (hletters _ hmem) (by simp [isLetter_newline])
  | integer _ hdigits _ =>
    rw [String.toList_ofList]
    exact fun hmem => absurd (hdigits _ hmem) (by simp [isDecimalDigit_newline])
  | decimal _ hdigits hplaces _ =>
    rw [String.toList_ofList, List.mem_append, List.mem_cons]
    rintro (hmem | hmem | hmem)
    · exact absurd (hdigits _ hmem) (by simp [isDecimalDigit_newline])
    · cases hmem
    · exact absurd (hplaces _ hmem) (by simp [isDecimalDigit_newline])
  | single hkind =>
    rw [Char.toString, String.toList_singleton, List.mem_singleton]
    rintro rfl
    cases hkind
  | pair hkind =>
    rw [String.toList_ofList, List.mem_cons, List.mem_singleton]
    rintro (rfl | rfl) <;> unfold Kind.pair? at hkind <;> split at hkind <;> simp_all
  | text => exact absurd rfl htext
  | character => exact absurd rfl hcharacter
  | newline => decide

section Tokens
variable {file : String} {source : List Char} {tokens : List Token}

/-- Changes of indentation have no text: one character read keeps it so. -/
theorem feed_layout_text {s : Scanner} (c : Char) (h : ∀ t ∈ s.tokens, t.isLexical = true ∨ t.text = "") :
    ∀ t ∈ (s.feed c).tokens, t.isLexical = true ∨ t.text = "" := by
  intro t ht
  by_cases hline : c ∈ ['\t', ' ', '\r', '\n'] ∨ ∀ m, s.mode ≠ .margin m
  · obtain ⟨added, htokens, hadded⟩ :=
      (feed_adds (P := fun _ => True) (c := c) (fun _ _ => trivial) trivial hline).tokens
    rw [htokens] at ht
    rcases List.mem_append.mp ht with ht | ht
    · exact .inl (hadded t ht).1
    · exact h t ht
  · obtain ⟨hc, hmargin⟩ := not_or.mp hline
    obtain ⟨m, hm⟩ := Classical.not_forall.mp hmargin
    rw [feed_first (Classical.not_not.mp hm) hc] at ht
    rcases List.mem_append.mp ht with ht | ht
    · obtain ⟨face, hface, rfl⟩ := List.mem_map.mp ht
      unfold changesAt at hface
      split at hface
      · exact .inr (List.mem_singleton.mp hface ▸ rfl)
      · exact .inr (List.eq_of_mem_replicate hface ▸ rfl)
    · exact h t ht

theorem feedAll_layout_text {s : Scanner} (cs : List Char) (h : ∀ t ∈ s.tokens, t.isLexical = true ∨ t.text = "") :
    ∀ t ∈ (s.feedAll cs).tokens, t.isLexical = true ∨ t.text = "" := by
  induction cs generalizing s with
  | nil => exact h
  | cons c cs ih => exact ih (feed_layout_text c h)

/-- All tokens of a text start in its file, and changes of indentation have no text. -/
theorem lex_places (h : lex file source = .ok tokens) :
    ∀ t ∈ tokens, t.span.start.file = file ∧ (t.isLexical = true ∨ t.text = "") := by
  obtain ⟨hok, htokens⟩ := lex_eq_ok h
  have hread : ¬ ((start file).feedAll ([] ++ source)).Failed := fun hfailed => hok (close_failed hfailed)
  have hemits : Emits (·.file = file) (start file) ((start file).feedAll source) :=
    feedAll_emits hread (fun p hp => nomatch hp) fun _ _ _ _ => rfl
  have hlayout := feedAll_layout_text (s := start file) source (List.forall_mem_nil _)
  have hplace : ((start file).feedAll source).close.here.right.file = file := by
    rw [close_here]
    exact congrArg Position.file (here_feedAll hread)
  obtain ⟨made, hmade, hfile⟩ := hemits.tokens
  obtain ⟨last, hlast, hlexical⟩ := (close_adds hemits.start).tokens
  intro t ht
  rw [htokens, List.mem_append] at ht
  rcases ht with ht | ht
  · rw [Scanner.made, List.mem_reverse, hlast, List.mem_append] at ht
    rcases ht with ht | ht
    · exact ⟨(hlexical t ht).2, .inl (hlexical t ht).1⟩
    · refine ⟨hfile t ?_, hlayout t ht⟩
      rwa [hmade, show (start file).tokens = [] from rfl, List.append_nil] at ht
  · rw [ending_span t ht]
    refine ⟨hplace, .inr ?_⟩
    rcases List.mem_append.mp ht with ht | ht
    · split at ht
      · rw [List.mem_singleton.mp ht]
      · cases ht
    · rw [List.eq_of_mem_replicate ht]

/-- Of the tokens of a text, only what is in quotes has line ends in its text. -/
theorem newline_notMem_of_lex (h : lex file source = .ok tokens) {t : Token} (ht : t ∈ tokens)
    (hquoted : t.isQuoted = false) : '\n' ∉ t.text.toList := by
  simp only [Token.isQuoted, Bool.or_eq_false_iff, decide_eq_false_iff_not] at hquoted
  rcases (lex_places h t ht).2 with hlexical | htext
  · obtain ⟨written, rest, hlexeme⟩ := exists_lexeme_of_lex h ht hlexical
    exact hlexeme.newline_notMem hquoted.1 hquoted.2
  · rw [htext]
    decide

theorem tokens_of_lex (h : lex file source = .ok tokens) :
    (Upshot.tokens file source false).report.failed = false ∧
      (Upshot.tokens file source false).report.text.toList = (tokens.map Token.entry).flatMap (· ++ ['\n']) := by
  have hresult : (Scanner.scan file source).result = .ok tokens := h
  simp only [Upshot.tokens, hresult]
  refine ⟨rfl, ?_⟩
  simp [Upshot.print, String.toList_join, List.flatMap_map, Token.toList_listing]

/-- Only what is in quotes brings line ends into an entry. -/
theorem count_entry_of_lex (h : lex file source = .ok tokens) (hfile : '\n' ∉ file.toList) {t : Token}
    (ht : t ∈ tokens) :
    t.entry.count '\n' = if t.isQuoted then t.text.toList.count '\n' else 0 := by
  rw [Token.count_entry (by rwa [(lex_places h t ht).1])]
  split
  · rfl
  · next hquoted => exact List.count_eq_zero.mpr (newline_notMem_of_lex h ht (by simpa using hquoted))

theorem sum_count_entries
    (h : ∀ t ∈ tokens, t.entry.count '\n' = if t.isQuoted then t.text.toList.count '\n' else 0) :
    ((tokens.map Token.entry).map (·.count '\n')).sum =
      ((tokens.filter Token.isQuoted).map fun t => t.text.toList.count '\n').sum := by
  induction tokens with
  | nil => rfl
  | cons t tokens ih =>
    have hentry := h t (List.mem_cons_self ..)
    have hrest := ih fun u hu => h u (List.mem_cons_of_mem _ hu)
    cases hquoted : t.isQuoted <;> simp_all

/-- **What breaks the lines of a listing.** The tokens of a text, in a file whose name has no line end, are
listed in order, each as its place, a tab, its label and a line end. However the listing is taken apart
into lines, there are as many as there are tokens and line ends in quoted texts and characters together;
and the lines are the tokens' entries, one each, if and only if nothing in quotes has a line end. -/
theorem tokens_listed (file : String) (source : List Char) (tokens : List Token)
    (h : lex file source = .ok tokens) (hfile : '\n' ∉ file.toList) :
    (Upshot.tokens file source false).report.failed = false ∧
      (Upshot.tokens file source false).report.text.toList = (tokens.map Token.entry).flatMap (· ++ ['\n']) ∧
      (∀ lines, IsLines (Upshot.tokens file source false).report.text.toList lines →
        lines.length = tokens.length + ((tokens.filter Token.isQuoted).map fun t => t.text.toList.count '\n').sum) ∧
      (IsLines (Upshot.tokens file source false).report.text.toList (tokens.map Token.entry) ↔
        ∀ t ∈ tokens, t.isQuoted = true → '\n' ∉ t.text.toList) := by
  obtain ⟨hdone, htext⟩ := tokens_of_lex h
  have hcount := fun t ht => count_entry_of_lex h hfile (t := t) ht
  refine ⟨hdone, htext, fun lines hlines => ?_, fun hlines t ht hquoted => ?_, fun hquoted => ⟨htext, ?_⟩⟩
  · rw [hlines.length_eq, htext, count_lines, sum_count_entries hcount, List.length_map]
  · have hzero := List.count_eq_zero.mpr (hlines.unbroken _ (List.mem_map_of_mem ht))
    rw [hcount t ht, if_pos hquoted] at hzero
    exact List.count_eq_zero.mp hzero
  · intro line hline
    obtain ⟨t, ht, rfl⟩ := List.mem_map.mp hline
    rw [← List.count_eq_zero, hcount t ht]
    split
    · next hin => exact List.count_eq_zero.mpr (hquoted t ht hin)
    · rfl

/-- A quoted character, a quoted text and a comment over two lines; the quotes hold no line end. -/
theorem tokens_listed_quoting :
    let source := "a = 'b' \x7b\n\x7d \"c\"".toList
    let tokens : List Token := [
      ⟨.word, .single ⟨1, 1, "f"⟩, "a"⟩, ⟨.assign, .single ⟨1, 3, "f"⟩, "="⟩,
      ⟨.character, ⟨⟨1, 5, "f"⟩, ⟨1, 7, "f"⟩⟩, "b"⟩, ⟨.text, ⟨⟨2, 3, "f"⟩, ⟨2, 5, "f"⟩⟩, "c"⟩,
      ⟨.newline, .single ⟨2, 6, "f"⟩, ""⟩]
    lex "f" source = .ok tokens ∧ '\n' ∉ "f".toList ∧
      IsLines (Upshot.tokens "f" source false).report.text.toList (tokens.map Token.entry) ∧
      tokens.map (String.ofList ·.entry) = ["f:1:1\tWORD(a)", "f:1:3\tASSIGN(=)", "f:1:5\tQUOTEDCHARACTER(b)",
        "f:2:3\tQUOTEDSTRING(c)", "f:2:6\tNEWLINE"] :=
  ⟨rfl, by decide, (tokens_listed "f" _ _ rfl (by decide)).2.2.2.mpr (by decide), by decide⟩

/-- A line end in a quoted text is a line end of the listing: two tokens, and three lines whichever way they
are told apart. -/
theorem listing_broken :
    let source := "\"\n\"".toList
    let tokens : List Token := [⟨.text, ⟨⟨1, 1, "f"⟩, ⟨2, 1, "f"⟩⟩, "\n"⟩, ⟨.newline, .single ⟨2, 2, "f"⟩, ""⟩]
    lex "f" source = .ok tokens ∧
      (Upshot.tokens "f" source false).report.text = "f:1:1\tQUOTEDSTRING(\n)\nf:2:2\tNEWLINE\n" ∧
      ¬ ∃ lines, lines.length = tokens.length ∧
        IsLines (Upshot.tokens "f" source false).report.text.toList lines := by
  intro source tokens
  have htext : (Upshot.tokens "f" source false).report.text = "f:1:1\tQUOTEDSTRING(\n)\nf:2:2\tNEWLINE\n" := by
    decide +kernel
  refine ⟨rfl, htext, ?_⟩
  rintro ⟨lines, hlength, hlines⟩
  have hcount := hlines.length_eq
  rw [htext, hlength] at hcount
  exact absurd hcount (by decide)

end Tokens

end Offside
