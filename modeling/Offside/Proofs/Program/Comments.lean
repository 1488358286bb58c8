import Offside.Proofs.Grammar.Layout
import Offside.Proofs.Grammar.Tolerance
import Offside.Proofs.Token.CommentLine
import Offside.Upshot

/-! Which lines with nothing but a comment a program does not notice.

The line is put in before another one, with the same white space in front. In the tokens it is one
more line end, between what the other line opened or closed and its first token. The grammar has
room for a line end there, so the program is the same but for spans, with two exceptions:

* an `else` has to follow the closing of its branch at once;
* where the margin falls back between two open levels, the comment line closes the deeper one and
  the line after it opens one anew, where nothing is to be opened.

In both the text is not a program any more. -/
namespace Offside

theorem exists_eq_ok {ε α : Type} {x : Except ε α} (h : x.isOk = true) : ∃ a, x = .ok a := by
  cases x with
  | ok a => exact ⟨a, rfl⟩
  | error e => cases h

theorem load_eq_ok {file : String} {source : List Char} {p : Program} :
    (Program.load file source).1 = .ok p ↔
      ∃ tokens, lex file source = .ok tokens ∧ parse tokens = .ok p := by
  unfold Program.load lex parse
  cases hlex : (Scanner.scan file source).result with
  | error e => simp [hlex]
  | ok tokens => cases hparse : (Parsed.ofTokens tokens).program <;> simp [hlex, hparse]

/-! ### A line end more -/

section LineEnd
variable {ts us : List Token} {earlier post : List (Kind × String)} {last first : Kind × String}

theorem exists_of_map_face {k : List (Kind × String)}
    (h : ts.map Token.face = earlier ++ last :: k) :
    ∃ pre t rest, ts = pre ++ t :: rest ∧ pre.map Token.face = earlier ∧ t.face = last ∧
      rest.map Token.face = k := by
  obtain ⟨pre, r, rfl, hpre, hr⟩ := List.map_eq_append_iff.mp h
  obtain ⟨t, rest, rfl, ht, hrest⟩ := List.map_eq_cons_iff.mp hr
  exact ⟨pre, t, rest, rfl, hpre, ht, hrest⟩

/-- Before the first token of a line there is room for a line end, unless it is an `else`. -/
theorem padded_of_lineEnd (hts : ts.map Token.face = earlier ++ last :: first :: post)
    (hus : us.map Token.face = earlier ++ last :: (.newline, "") :: first :: post)
    (hlast : last.1 ∈ lineStarters) (hfirst : first.1 ≠ .elseWord) : Grammar.Padded ts us := by
  obtain ⟨pre, t, rest, rfl, hpre, rfl, hrest⟩ := exists_of_map_face hts
  obtain ⟨pre', u, rest', rfl, hpre', hu, hrest'⟩ := exists_of_map_face hus
  obtain ⟨n, k, rfl, hn, hk⟩ := List.map_eq_cons_iff.mp hrest'
  obtain ⟨f, k', rfl, rfl, -⟩ := List.map_eq_cons_iff.mp hrest
  refine .prepend (map_look_of_faces (hpre.trans hpre'.symm)) ?_
  show Grammar.Padded (t :: f :: k') (u :: ([n] ++ k))
  have hblank : Grammar.Blank [n] := by
    intro m hm
    rw [List.mem_singleton.mp hm]
    exact congrArg Prod.fst hn
  have hroom : Grammar.Room t (f :: k') := by
    refine (List.mem_cons.mp hlast).imp_right fun hchange => ⟨hchange, ?_⟩
    rw [notNext_cons]
    exact fun helse => hfirst (List.mem_singleton.mp helse)
  exact .cons (Token.look_of_face hu.symm) hblank (fun _ => hroom)
    (.of_looks (map_look_of_faces (hrest.trans hk.symm)))

/-- What tokens look like is enough to reject them. -/
theorem parse_ne_ok_of_faces {a b c : Kind × String}
    (hts : ts.map Token.face = earlier ++ a :: b :: c :: post)
    (h : a.1 = .dedent ∧ b.1 = .newline ∧ c.1 = .indent ∨ b.1 = .newline ∧ c.1 = .elseWord)
    (p : Program) : parse ts ≠ .ok p := by
  obtain ⟨pre, a, rest, rfl, -, rfl, hrest⟩ := exists_of_map_face hts
  obtain ⟨b, rest, rfl, rfl, hnext⟩ := List.map_eq_cons_iff.mp hrest
  obtain ⟨c, rest, rfl, rfl, -⟩ := List.map_eq_cons_iff.mp hnext
  exact parse_ne_ok h p

end LineEnd

/-! ### A comment line more -/

section Insertion
variable {file : String} {before w body after : List Char} {c : Char} {p : Program}

/-- Where the line keeps to the levels and starts with no `else`, the program is the same. -/
theorem load_withComment (hstart : LineStarts file before) (hw : White w)
    (hc : Text.isBlank c = false) (hcomment : c ≠ '\x7b') (hbody : Balanced body)
    (hkeeps : Scanner.KeepsTo (openAfter file before) (levelOf w))
    (helse : (c :: after).takeWhile Text.isLetter ≠ "else".toList)
    (hload : (Program.load file (before ++ (w ++ c :: after))).1 = .ok p) :
    ∃ p', (Program.load file (withComment before w body (c :: after))).1 = .ok p' ∧
      p'.bare = p.bare := by
  obtain ⟨tokens, hlex, hparse⟩ := load_eq_ok.mp hload
  obtain ⟨tokens', earlier, last, first, post, hlex', hfaces, hfaces', hlast, hfirst⟩ :=
    lex_withComment hstart hw hc hcomment hbody hkeeps hlex
  have hpadded := padded_of_lineEnd hfaces hfaces' hlast (mt hfirst.mp helse)
  have hsame := parse_of_padded hpadded
  rw [hparse] at hsame
  generalize hparse' : parse tokens' = outcome at hsame
  cases hsame with
  | ok hbare => exact ⟨_, load_eq_ok.mpr ⟨tokens', hlex', hparse'⟩, hbare.symm⟩

/-- Anywhere else the text is not a program any more. -/
theorem load_withComment_ne_ok (hstart : LineStarts file before) (hw : White w)
    (hc : Text.isBlank c = false) (hcomment : c ≠ '\x7b') (hbody : Balanced body)
    (hload : (Program.load file (before ++ (w ++ c :: after))).1 = .ok p)
    (hnot : ¬ (Scanner.KeepsTo (openAfter file before) (levelOf w) ∧
      (c :: after).takeWhile Text.isLetter ≠ "else".toList)) (p' : Program) :
    (Program.load file (withComment before w body (c :: after))).1 ≠ .ok p' := by
  intro hload'
  obtain ⟨tokens', hlex', hparse'⟩ := load_eq_ok.mp hload'
  by_cases hkeeps : Scanner.KeepsTo (openAfter file before) (levelOf w)
  · have helse : (c :: after).takeWhile Text.isLetter = "else".toList :=
      Decidable.byContradiction fun hne => hnot ⟨hkeeps, hne⟩
    obtain ⟨tokens, hlex, -⟩ := load_eq_ok.mp hload
    obtain ⟨tokens₁, earlier, last, first, post, hlex₁, -, hfaces, -, hfirst⟩ :=
      lex_withComment hstart hw hc hcomment hbody hkeeps hlex
    obtain rfl : tokens' = tokens₁ := Except.ok.inj (hlex'.symm.trans hlex₁)
    exact parse_ne_ok_of_faces hfaces (.inr ⟨rfl, hfirst.mpr helse⟩) p' hparse'
  · obtain ⟨pre, post, hfaces⟩ := lex_withComment_between hstart hw hc hbody hkeeps hlex'
    exact parse_ne_ok_of_faces hfaces (.inl ⟨rfl, rfl, rfl⟩) p' hparse'

end Insertion

/-- A line with nothing but a comment, put in before a line of a program with the same white space
in front, leaves the program the same but for spans if the line after it keeps to the levels of
indentation that are open there and does not start with `else`. If not, what results is rejected. -/
theorem commentLine_inert (file : String) (b w body after : List Char) (c : Char) (p : Program)
    (hout : ((Scanner.start file).feedAll b).mode.inside = false) (hw : White w)
    (hc : Text.isBlank c = false) (hcomment : c ≠ '\x7b') (hbody : Balanced body)
    (hload : (Program.load file (b ++ '\n' :: (w ++ c :: after))).1 = .ok p) :
    let commented := b ++ '\n' :: (w ++ '\x7b' :: (body ++ '\x7d' :: '\n' :: (w ++ c :: after)))
    if Scanner.KeepsTo (openAfter file (b ++ ['\n'])) (levelOf w) ∧
        (c :: after).takeWhile Text.isLetter ≠ "else".toList then
      ∃ p', (Program.load file commented).1 = .ok p' ∧ p'.bare = p.bare
    else ∃ e, (Program.load file commented).1 = .error e := by
  intro commented
  have hcommented : commented = withComment (b ++ ['\n']) w body (c :: after) := by
    simp [commented, withComment]
  have hsource : b ++ '\n' :: (w ++ c :: after) = b ++ ['\n'] ++ (w ++ c :: after) := by simp
  obtain ⟨tokens, hlex, -⟩ := load_eq_ok.mp hload
  have hstart := lineStarts_of_outside hout hlex
  rw [hsource] at hload
  rw [hcommented]
  split
  case isTrue hinert =>
    exact load_withComment hstart hw hc hcomment hbody hinert.1 hinert.2 hload
  case isFalse hnot =>
    have hne := load_withComment_ne_ok hstart hw hc hcomment hbody hload hnot
    cases hresult : (Program.load file (withComment (b ++ ['\n']) w body (c :: after))).1 with
    | ok p' => exact absurd hresult (hne p')
    | error e => exact ⟨e, rfl⟩

/-- A comment line with a comment in it closes two levels in front of a member. -/
theorem commentLine_inert_before_member :
    let b := "class a\n\tshared b()\n\t\tloop c\n\t\t\td()".toList
    let body := [' ', '\x7b', 'g', '\x7d']
    let after := " f\n".toList
    ((Scanner.start "a").feedAll b).mode.inside = false ∧ White ['\t'] ∧
      Text.isBlank 'e' = false ∧ 'e' ≠ '\x7b' ∧ Balanced body ∧
      ∃ p p', (Program.load "a" (b ++ '\n' :: (['\t'] ++ 'e' :: after))).1 = .ok p ∧
        (Program.load "a" (b ++ '\n' :: (['\t'] ++ '\x7b' :: (body ++ '\x7d' :: '\n' ::
          (['\t'] ++ 'e' :: after))))).1 = .ok p' ∧ p'.bare = p.bare := by
  intro b body after
  have hout : ((Scanner.start "a").feedAll b).mode.inside = false := by decide +kernel
  have hw : White ['\t'] := by
    intro c hc
    rw [List.mem_singleton.mp hc]
    exact ⟨by decide +kernel, by decide⟩
  have hc : Text.isBlank 'e' = false := by decide +kernel
  have hcomment : 'e' ≠ '\x7b' := by decide
  have hbody : Balanced body :=
    .char (by decide) (by decide) (.nested (.char (by decide) (by decide) .nil) .nil)
  have hok : (Program.load "a" (b ++ '\n' :: (['\t'] ++ 'e' :: after))).1.isOk = true := by
    decide +kernel
  obtain ⟨p, hload⟩ : ∃ p, (Program.load "a" (b ++ '\n' :: (['\t'] ++ 'e' :: after))).1 = .ok p :=
    exists_eq_ok hok
  have hinert := commentLine_inert "a" b ['\t'] body after 'e' p hout hw hc hcomment hbody hload
  rw [if_pos (by decide +kernel)] at hinert
  obtain ⟨p', hload', hbare⟩ := hinert
  exact ⟨hout, hw, hc, hcomment, hbody, p, p', hload, hload', hbare⟩

/-- A comment line before an `else`, and one that falls back between the margins of two lines, make
texts that are no programs of texts that are. -/
theorem commentLine_noticed :
    let ifTrue := "class main\n\tshared start()\n\t\tif true\n\t\t\tconsole.write(1)\n".toList
    let elsePart := "\t\telse\n\t\t\tconsole.write(2)\n".toList
    let deep := "class a\n\t\tnumber x\n".toList
    let shallow := "\tclass b\n\t\tnumber y\n".toList
    ((Program.load "a" (ifTrue ++ elsePart)).1.isOk = true ∧
      (Program.load "a" (ifTrue ++ "\t\t\x7b otherwise \x7d\n".toList ++ elsePart)).1.isOk =
        false) ∧
    (Program.load "a" (deep ++ shallow)).1.isOk = true ∧
      (Program.load "a" (deep ++ "\t\x7b b \x7d\n".toList ++ shallow)).1.isOk = false := by
  decide +kernel

end Offside
