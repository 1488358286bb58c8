import Offside.Proofs.Token.Cut
import Offside.Proofs.Token.Scanning

/-! Changes of indentation are well nested.

`Nested` says of tokens that levels open only at the start of a line, and close only there and only
when they are open; `Levelled` ties it to the levels that a scanner keeps. Every character read keeps
a scanner levelled, and the end of a text closes what is open. -/
namespace Offside

def countKind (kind : Kind) (ts : List Token) : Nat := ts.countP (·.kind = kind)

theorem countKind_snoc (kind : Kind) (ts : List Token) (t : Token) :
    countKind kind (ts ++ [t]) = countKind kind ts + if t.kind = kind then 1 else 0 := by
  simp [countKind, List.countP_append, List.countP_singleton]

/-- The last token is of one of the kinds. -/
def EndsIn (kinds : List Kind) (ts : List Token) : Prop := ∃ ts' t, ts = ts' ++ [t] ∧ t.kind ∈ kinds

/-- Tokens that leave so many levels open. -/
inductive Nested : List Token → (levels : Nat) → Prop
  | nil : Nested [] 0
  | lexical {ts n t} : Nested ts n → t.isLexical → Nested (ts ++ [t]) n
  | indent {ts n t} : Nested ts n → EndsIn [.newline] ts → t.kind = .indent → Nested (ts ++ [t]) (n + 1)
  | dedent {ts n t} : Nested ts (n + 1) → EndsIn [.newline, .dedent] ts → t.kind = .dedent →
      Nested (ts ++ [t]) n

theorem EndsIn.mono {kinds kinds' : List Kind} {ts : List Token} (h : EndsIn kinds ts)
    (hkinds : ∀ kind ∈ kinds, kind ∈ kinds') : EndsIn kinds' ts := by
  obtain ⟨ts', t, rfl, ht⟩ := h
  exact ⟨ts', t, rfl, hkinds _ ht⟩

namespace Nested
variable {ts : List Token} {n : Nat}

/-- What is open was opened and not closed. -/
theorem count (h : Nested ts n) : countKind .dedent ts + n = countKind .indent ts := by
  induction h with
  | nil => rfl
  | lexical _ ht ih =>
    simp only [Token.isLexical, decide_eq_true_eq] at ht
    rwa [countKind_snoc, countKind_snoc, if_neg ht.1, if_neg ht.2]
  | indent _ _ ht ih =>
    rw [countKind_snoc, countKind_snoc, if_pos ht, if_neg (by simp [ht])]
    omega
  | dedent _ _ ht ih =>
    rw [countKind_snoc, countKind_snoc, if_pos ht, if_neg (by simp [ht])]
    omega

/-- Every beginning is nested too. -/
theorem of_prefix {pre : List Token} (h : Nested ts n) (hpre : pre <+: ts) : ∃ m, Nested pre m := by
  induction h with
  | nil => exact ⟨0, List.prefix_nil.mp hpre ▸ .nil⟩
  | lexical h ht ih =>
    rcases List.prefix_concat_iff.mp hpre with rfl | hpre
    · exact ⟨_, .lexical h ht⟩
    · exact ih hpre
  | indent h hline ht ih =>
    rcases List.prefix_concat_iff.mp hpre with rfl | hpre
    · exact ⟨_, .indent h hline ht⟩
    · exact ih hpre
  | dedent h hline ht ih =>
    rcases List.prefix_concat_iff.mp hpre with rfl | hpre
    · exact ⟨_, .dedent h hline ht⟩
    · exact ih hpre

/-- Levels open only at the start of a line, and close only there. -/
theorem last {t : Token} (h : Nested (ts ++ [t]) n) :
    (t.kind = .indent → EndsIn [.newline] ts) ∧ (t.kind = .dedent → EndsIn [.newline, .dedent] ts) := by
  generalize hall : ts ++ [t] = all at h
  cases h with
  | nil => simp at hall
  | lexical _ ht =>
    obtain ⟨rfl, hlast⟩ := List.append_inj' hall rfl
    cases hlast
    simp only [Token.isLexical, decide_eq_true_eq] at ht
    exact ⟨fun hkind => absurd hkind ht.1, fun hkind => absurd hkind ht.2⟩
  | indent _ hline ht =>
    obtain ⟨rfl, hlast⟩ := List.append_inj' hall rfl
    cases hlast
    exact ⟨fun _ => hline, fun hkind => absurd (ht.symm.trans hkind) (by decide)⟩
  | dedent _ hline ht =>
    obtain ⟨rfl, hlast⟩ := List.append_inj' hall rfl
    cases hlast
    exact ⟨fun hkind => absurd (ht.symm.trans hkind) (by decide), fun _ => hline⟩

/-- Open levels can be closed at the start of a line. -/
theorem close {closing : List Token} (h : Nested ts (n + closing.length))
    (hline : closing ≠ [] → EndsIn [.newline, .dedent] ts) (hclosing : ∀ t ∈ closing, t.kind = .dedent) :
    Nested (ts ++ closing) n := by
  induction closing generalizing ts with
  | nil => simpa using h
  | cons t closing ih =>
    have ht := hclosing t (List.mem_cons_self ..)
    rw [List.append_cons]
    refine ih (.dedent h (hline (List.cons_ne_nil _ _)) ht) (fun _ => ⟨ts, t, rfl, by simp [ht]⟩) ?_
    exact fun u hu => hclosing u (List.mem_cons_of_mem _ hu)

end Nested

namespace Scanner
variable {s s' : Scanner} {c : Char}

/-- The levels kept are those that the tokens leave open, each deeper than the one around it. -/
structure Levelled (s : Scanner) : Prop where
  nested : Nested s.made s.levels.length
  falling : (s.levels ++ [0]).Pairwise (· > ·)

/-- Between characters, a scanner in a margin has made the line end before it. -/
structure Settled (s : Scanner) : Prop where
  levelled : Levelled s
  margin : ∀ m, s.mode = .margin m → EndsIn [.newline] s.made

theorem Levelled.congr (h : Levelled s) (htokens : s'.tokens = s.tokens) (hlevels : s'.levels = s.levels) :
    Levelled s' := by
  refine ⟨?_, hlevels ▸ h.falling⟩
  rw [made, htokens, hlevels]
  exact h.nested

theorem Levelled.emit {t : Token} (h : Levelled s) (ht : t.isLexical) (htokens : s'.tokens = t :: s.tokens)
    (hlevels : s'.levels = s.levels) : Levelled s' := by
  refine ⟨?_, hlevels ▸ h.falling⟩
  rw [made, htokens, hlevels, List.reverse_cons]
  exact .lexical h.nested ht

theorem take_settled {mode : Mode} (h : Levelled s) (hmode : ∀ m, mode ≠ .margin m) :
    Settled (s.take c mode) :=
  ⟨h.congr rfl rfl, fun m hm => absurd hm (hmode m)⟩

/-! ### Levels -/

/-- A line deeper than the innermost level opens one more, and the levels still fall. -/
theorem falling_cons {level : Nat} {levels : List Nat} (h : (levels ++ [0]).Pairwise (· > ·))
    (hdeeper : levels.headD 0 < level) : (level :: levels ++ [0]).Pairwise (· > ·) := by
  rw [List.cons_append]
  refine List.pairwise_cons.mpr ⟨?_, h⟩
  intro outer houter
  cases levels with
  | nil => simpa using List.mem_singleton.mp houter ▸ hdeeper
  | cons inner levels =>
    rcases List.mem_cons.mp houter with rfl | houter
    · exact hdeeper
    · exact Nat.lt_trans ((List.pairwise_cons.mp h).1 outer houter) hdeeper

theorem indentTo_levelled {level : Nat} (h : Levelled s) (hline : EndsIn [.newline] s.made) :
    Levelled (s.indentTo level) := by
  unfold indentTo
  by_cases hdeeper : s.levels.headD 0 < level
  · rw [if_pos hdeeper]
    refine ⟨?_, falling_cons h.falling hdeeper⟩
    show Nested (⟨.indent, .single s.here.right, ""⟩ :: s.tokens).reverse (s.levels.length + 1)
    rw [List.reverse_cons]
    exact .indent h.nested hline rfl
  · rw [if_neg hdeeper, closeLevels_eq]
    have hlength : (s.levels.dropWhile (level < ·)).length + (s.levels.takeWhile (level < ·)).length =
        s.levels.length := by
      rw [Nat.add_comm, ← List.length_append, List.takeWhile_append_dropWhile]
    refine ⟨?_, h.falling.sublist ((List.dropWhile_sublist _).append_right _)⟩
    show Nested (List.replicate (s.levels.takeWhile (level < ·)).length
      (⟨.dedent, .single s.here.right, ""⟩ : Token) ++ s.tokens).reverse _
    rw [List.reverse_append, List.reverse_replicate]
    refine Nested.close ?_ (fun _ => hline.mono (by simp)) (fun t ht => ?_)
    · rw [List.length_replicate, hlength]
      exact h.nested
    · rw [List.eq_of_mem_replicate ht]

/-! ### Reading a character -/

/-- A line end is made together with the margin after it. -/
theorem begin_settled (h : Levelled s) : Settled (s.begin c) := by
  by_cases hfailed : s.Failed
  · obtain ⟨e, he⟩ := hfailed
    rw [begin, he]
    exact ⟨h, fun m hm => nomatch he.symm.trans hm⟩
  rw [begin_of_not_failed hfailed]
  split
  · exact ⟨h.emit rfl rfl rfl, fun _ _ => ⟨s.made, _, List.reverse_cons, List.mem_singleton.mpr rfl⟩⟩
  · exact ⟨h.congr rfl rfl, fun m hm => absurd hm (beginning_ne_margin _ _ m)⟩

theorem endWord_levelled {start : Position} {letters : List Char} (h : Levelled s) :
    Levelled (s.endWord start letters) :=
  h.emit (isLexical_of_kind (reserved_kinds _)) rfl rfl

theorem endNumber_levelled {start : Position} {digits : List Char} (h : Levelled s) :
    Levelled (s.endNumber start digits) :=
  h.emit rfl rfl rfl

theorem endSymbol_levelled {start : Position} (h : Levelled s) : Levelled (s.endSymbol start c) := by
  unfold endSymbol
  split
  · exact h.emit (isLexical_of_kind (single_kinds ‹_›)) rfl rfl
  · exact h.congr rfl rfl

theorem close_levelled (h : Levelled s) : Levelled s.close := by
  unfold close
  split
  · exact endWord_levelled h
  · exact endNumber_levelled h
  · exact endSymbol_levelled h
  all_goals exact h.congr rfl rfl

/-- What ends with a character leaves nothing begun. -/
theorem emit_settled {kind : Kind} {span : Span} {text : String} (h : Levelled s)
    (hlexical : (⟨kind, span, text⟩ : Token).isLexical) : Settled ((s.take c .gap).emit kind span text) :=
  ⟨h.emit hlexical rfl rfl, nofun⟩

/-- One character read keeps a scanner settled. -/
theorem feed_settled (h : Settled s) : Settled (s.feed c) := by
  have hlevelled := h.levelled
  unfold feed
  split
  case h_1 => exact h
  case h_2 => exact begin_settled hlevelled
  case h_3 m hmode =>
    have hline := h.margin m hmode
    have htake : ∀ m', Settled (s.take c (.margin m')) := fun m' => ⟨hlevelled.congr rfl rfl, fun _ _ => hline⟩
    split
    case h_5 => exact begin_settled (indentTo_levelled hlevelled hline)
    all_goals exact htake _
  case h_4 =>
    split
    · exact take_settled hlevelled nofun
    · exact begin_settled (endWord_levelled hlevelled)
  case h_5 =>
    split
    · exact take_settled hlevelled nofun
    · split
      · exact take_settled hlevelled nofun
      · exact begin_settled (endNumber_levelled hlevelled)
  case h_6 =>
    split
    · exact emit_settled hlevelled (isLexical_of_kind (pair_kinds ‹_›))
    · exact begin_settled (endSymbol_levelled hlevelled)
  case h_7 =>
    split
    · exact emit_settled hlevelled rfl
    · exact take_settled hlevelled nofun
  case h_8 => exact take_settled hlevelled nofun
  case h_9 =>
    split
    · exact emit_settled hlevelled rfl
    · exact ⟨hlevelled.congr rfl rfl, nofun⟩
  case h_10 => split <;> exact take_settled hlevelled nofun

theorem start_settled (file : String) : Settled (start file) :=
  ⟨⟨.nil, List.pairwise_singleton ..⟩, nofun⟩

theorem feedAll_settled (h : Settled s) (cs : List Char) : Settled (s.feedAll cs) := by
  induction cs generalizing s with
  | nil => exact h
  | cons c cs ih => exact ih (feed_settled h)

/-! ### The end of the text -/

/-- At the end of a text the last line ends, and then what is open closes. -/
theorem ending_closes {made : List Token} {levels : Nat} (place : Position) (h : Nested made levels)
    (hne : made ++ ending place made levels ≠ []) :
    ∃ lines closing, made ++ ending place made levels = lines ++ closing ∧ EndsIn [.newline] lines ∧
      (∀ t ∈ closing, t.kind = .dedent) ∧ Nested lines closing.length := by
  have hclosing : ∀ t ∈ List.replicate levels (⟨.dedent, .single place, ""⟩ : Token), t.kind = .dedent :=
    fun t ht => by rw [List.eq_of_mem_replicate ht]
  rcases List.eq_nil_or_concat made with rfl | ⟨earlier, last, rfl⟩
  · have hlevels : levels = 0 := by simpa [countKind] using h.count
    subst hlevels
    exact absurd rfl hne
  rw [List.concat_eq_append] at h ⊢
  unfold ending unfinished
  rw [List.getLast?_concat, ← List.append_assoc]
  by_cases hlast : last.kind = .newline
  · refine ⟨earlier ++ [last], _, ?_, ⟨earlier, last, rfl, by simp [hlast]⟩, hclosing, ?_⟩
    · simp [hlast]
    · simpa using h
  · let newline : Token := ⟨.newline, .single place, ""⟩
    refine ⟨earlier ++ [last] ++ [newline], _, ?_, ⟨_, newline, rfl, by simp [newline]⟩, hclosing, ?_⟩
    · simp [hlast, newline]
    · simpa using h.lexical rfl

end Scanner

open Scanner in
/-- The changes of indentation among the tokens of a text are well nested, and all levels are closed at
its end, after the end of the last line. While the text is read, the levels that the scanner keeps are
those left open, each deeper than the one around it. -/
theorem lex_nested (file : String) (source : List Char) (tokens : List Token)
    (h : lex file source = .ok tokens) (hne : tokens ≠ []) :
    (∀ pre, pre <+: tokens → countKind .dedent pre ≤ countKind .indent pre) ∧
      countKind .dedent tokens = countKind .indent tokens ∧
      (∀ pre t post, tokens = pre ++ t :: post →
        (t.kind = .indent → EndsIn [.newline] pre) ∧ (t.kind = .dedent → EndsIn [.newline, .dedent] pre)) ∧
      (∃ lines closing, tokens = lines ++ closing ∧ EndsIn [.newline] lines ∧
        (∀ t ∈ closing, t.kind = .dedent) ∧
        countKind .dedent lines + closing.length = countKind .indent lines) ∧
      ∀ consumed, consumed <+: source →
        let s := (start file).feedAll consumed
        (0 :: s.levels.reverse).Pairwise (· < ·) ∧
          countKind .dedent s.made + s.levels.length = countKind .indent s.made := by
  obtain ⟨-, htokens⟩ := lex_eq_ok h
  have hended := close_levelled (feedAll_settled (start_settled file) source).levelled
  obtain ⟨lines, closing, hsplit, hline, hclosing, hlines⟩ :=
    ending_closes _ hended.nested (htokens ▸ hne)
  rw [← htokens] at hsplit
  have hnested : Nested tokens 0 := by
    rw [hsplit]
    exact .close (by simpa using hlines) (fun _ => hline.mono (by simp)) hclosing
  refine ⟨fun pre hpre => ?_, ?_, fun pre t post hpost => ?_, ?_, fun consumed _ => ?_⟩
  · obtain ⟨m, hm⟩ := hnested.of_prefix hpre
    have := hm.count
    omega
  · exact hnested.count
  · have hpre : pre ++ [t] <+: tokens := ⟨post, by simp [hpost]⟩
    obtain ⟨m, hm⟩ := hnested.of_prefix hpre
    exact hm.last
  · exact ⟨lines, closing, hsplit, hline, hclosing, hlines.count⟩
  · have hlevelled := (feedAll_settled (start_settled file) consumed).levelled
    refine ⟨?_, hlevelled.nested.count⟩
    simpa using List.pairwise_reverse.mpr hlevelled.falling

/-- A line may fall back to a margin that opened no level. -/
theorem lex_nested_between_levels :
    let source := "a\n\tb\n\t\t\tc\n\t\td".toList
    let tokens : List Token := [
      ⟨.word, .single ⟨1, 1, "f"⟩, "a"⟩, ⟨.newline, .single ⟨1, 2, "f"⟩, ""⟩,
      ⟨.indent, .single ⟨2, 2, "f"⟩, ""⟩, ⟨.word, .single ⟨2, 2, "f"⟩, "b"⟩, ⟨.newline, .single ⟨2, 3, "f"⟩, ""⟩,
      ⟨.indent, .single ⟨3, 4, "f"⟩, ""⟩, ⟨.word, .single ⟨3, 4, "f"⟩, "c"⟩, ⟨.newline, .single ⟨3, 5, "f"⟩, ""⟩,
      ⟨.dedent, .single ⟨4, 3, "f"⟩, ""⟩, ⟨.word, .single ⟨4, 3, "f"⟩, "d"⟩, ⟨.newline, .single ⟨4, 4, "f"⟩, ""⟩,
      ⟨.dedent, .single ⟨4, 4, "f"⟩, ""⟩]
    lex "f" source = .ok tokens ∧ tokens ≠ [] ∧
      (∀ pre, pre <+: tokens → countKind .dedent pre ≤ countKind .indent pre) ∧
      countKind .dedent tokens = countKind .indent tokens ∧
      (∀ pre t post, tokens = pre ++ t :: post →
        (t.kind = .indent → EndsIn [.newline] pre) ∧ (t.kind = .dedent → EndsIn [.newline, .dedent] pre)) ∧
      (∃ lines closing, tokens = lines ++ closing ∧ EndsIn [.newline] lines ∧
        (∀ t ∈ closing, t.kind = .dedent) ∧
        countKind .dedent lines + closing.length = countKind .indent lines) ∧
      ∀ consumed, consumed <+: source →
        let s := (Scanner.start "f").feedAll consumed
        (0 :: s.levels.reverse).Pairwise (· < ·) ∧
          countKind .dedent s.made + s.levels.length = countKind .indent s.made :=
  ⟨rfl, List.cons_ne_nil _ _, lex_nested _ _ _ rfl (List.cons_ne_nil _ _)⟩

end Offside
