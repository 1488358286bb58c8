import Mathlib.Algebra.BigOperators.Ring.List
import Mathlib.Algebra.Ring.Nat
import Mathlib.Data.List.Chain
import Mathlib.Data.List.SplitBy
import Offside.Proofs.Token.Margins

/-! What the level of a line is.

A tab in a margin is a level, and four spaces are one, whether or not they stand together: the count of
spaces goes on behind a tab and behind a carriage return. So the level is told by how many tabs and spaces
there are, in any order. Had each run of spaces been counted by itself, what is left over in it would come
to nothing. The two levels are the same as long as fewer than four spaces are left over in all the runs
together. -/
namespace Offside

open Scanner

/-- The runs of spaces in a margin. No space stands directly before or after one. -/
def spaceRuns (margin : List Char) : List (List Char) := (margin.splitBy (· == ·)).filter (' ' ∈ ·)

/-- The level of a margin if each run of spaces is counted by itself. -/
def levelByRuns (margin : List Char) : Nat :=
  margin.count '\t' + ((spaceRuns margin).map (·.length / 4)).sum

/-- The spaces that are left over if each run is counted by itself. -/
def spacesLeft (margin : List Char) : Nat := ((spaceRuns margin).map (·.length % 4)).sum

/-! ### Counting -/

namespace Margin
variable {m : Margin} {c : Char} {w : List Char}

/-- How wide a margin is, in spaces. -/
def width (m : Margin) : Nat := 4 * m.level + m.spaces

/-- One more character makes a margin wider by four, by one or not at all. -/
theorem next?_width (hspaces : m.spaces < 4) (hc : c ∈ ['\t', ' ', '\r']) :
    ∃ m', m.next? c = some m' ∧ m'.spaces < 4 ∧
      m'.width = m.width + 4 * [c].count '\t' + [c].count ' ' := by
  simp only [List.mem_cons, List.not_mem_nil, or_false] at hc
  rcases hc with rfl | rfl | rfl
  · refine ⟨m.tab, rfl, hspaces, ?_⟩
    show 4 * (m.level + 1) + m.spaces = 4 * m.level + m.spaces + 4 * 1 + 0
    omega
  · refine ⟨m.space, rfl, ?_⟩
    show m.space.spaces < 4 ∧ m.space.width = m.width + 4 * 0 + 1
    unfold space width
    split
    · dsimp only
      omega
    · dsimp only
      omega
  · exact ⟨m, rfl, hspaces, rfl⟩

/-- A margin is as wide as its tabs and its spaces. -/
theorem through_width (hspaces : m.spaces < 4) (hw : Spaces w) :
    (m.through w).spaces < 4 ∧ (m.through w).width = m.width + 4 * w.count '\t' + w.count ' ' := by
  -- Fewer than four spaces wait to make up a level, at every character: the width alone tells the level.
  induction w generalizing m with
  | nil => exact ⟨hspaces, rfl⟩
  | cons c w ih =>
    obtain ⟨m', hnext, hspaces', hwidth⟩ := next?_width hspaces (hw c (.head _))
    obtain ⟨hleft, hrest⟩ := ih hspaces' hw.tail
    have hcount : ∀ d, (c :: w).count d = [c].count d + w.count d := by
      intro d
      rw [← List.singleton_append, List.count_append]
    rw [through, hnext, hcount, hcount]
    refine ⟨hleft, ?_⟩
    show (m'.through w).width = _
    omega

end Margin

/-- A level is a tab or any four spaces. -/
theorem levelOf_eq {w : List Char} (hw : Spaces w) : levelOf w = w.count '\t' + w.count ' ' / 4 := by
  obtain ⟨hspaces, hwidth⟩ := Margin.through_width (m := .empty) (by decide) hw
  have hempty : Margin.empty.width = 0 := rfl
  rw [hempty, Margin.width] at hwidth
  unfold levelOf
  omega

/-! ### Runs -/

section Runs
variable {margin run : List Char}

/-- In a run of equal characters there are only spaces or none. -/
theorem count_space_of_run (h : run ∈ margin.splitBy (· == ·)) :
    run.count ' ' = if ' ' ∈ run then run.length else 0 := by
  have hchain : run.IsChain (· = ·) :=
    (List.isChain_of_mem_splitBy h).imp fun _ _ heq => eq_of_beq heq
  split
  case isTrue hmem =>
    cases run with
    | nil => cases hmem
    | cons c rest =>
      have hrun := List.isChain_eq_iff_eq_replicate.mp hchain c rfl
      obtain rfl : ' ' = c := List.eq_of_mem_replicate (hrun ▸ hmem)
      rw [hrun, List.count_replicate_self, List.length_replicate]
  case isFalse hmem => exact List.count_eq_zero.mpr hmem

/-- Every space is in a run. -/
theorem sum_length_spaceRuns (margin : List Char) :
    ((spaceRuns margin).map List.length).sum = margin.count ' ' := by
  have hruns : (margin.splitBy (· == ·)).map (List.count ' ') =
      (margin.splitBy (· == ·)).map fun run => if ' ' ∈ run then run.length else 0 :=
    List.map_congr_left fun _ => count_space_of_run
  calc ((spaceRuns margin).map List.length).sum
      = ((margin.splitBy (· == ·)).map fun run => if ' ' ∈ run then run.length else 0).sum := by
        rw [List.sum_map_ite]
        simp [spaceRuns]
    _ = (margin.splitBy (· == ·)).flatten.count ' ' := by rw [← hruns, List.count_flatten]
    _ = margin.count ' ' := by rw [List.flatten_splitBy]

/-- Spaces left over in different runs make up the levels that counting by runs misses. -/
theorem levelOf_eq_levelByRuns_add (h : Spaces margin) :
    levelOf margin = levelByRuns margin + spacesLeft margin / 4 := by
  have hsplit : margin.count ' ' =
      4 * ((spaceRuns margin).map (·.length / 4)).sum + spacesLeft margin := by
    rw [← sum_length_spaceRuns, spacesLeft, ← List.sum_map_mul_left, ← List.sum_map_add]
    simp only [Nat.div_add_mod]
  rw [levelOf_eq h, levelByRuns]
  omega

end Runs

/-! ### Lines -/

/-- The level that is measured at the start of a line, and that the open levels are brought in line with
at its first character, counts its tabs and all its spaces together. It is the level by runs of spaces
exactly if fewer than four spaces are left over in the runs, and higher otherwise. -/
theorem level_of_margin (file : String) (before margin : List Char) (first : Char)
    (hstart : LineStarts file before) (hmargin : Spaces margin)
    (hfirst : first ∉ ['\t', ' ', '\r', '\n']) :
    ∃ m : Margin, ((start file).feedAll (before ++ margin)).mode = .margin m ∧
      (start file).feedAll (before ++ margin ++ [first]) =
        (((start file).feedAll (before ++ margin)).indentTo m.level).begin first ∧
      m.level = margin.count '\t' + margin.count ' ' / 4 ∧
      m.level = levelByRuns margin + spacesLeft margin / 4 ∧
      (m.level = levelByRuns margin ↔ spacesLeft margin < 4) := by
  have hshows := feedAll_spaces (lineStarts_shows hstart) hmargin
  rw [← feedAll_append] at hshows
  have hruns := levelOf_eq_levelByRuns_add hmargin
  refine ⟨_, hshows.mode_eq, ?_, levelOf_eq hmargin, hruns, ?_⟩
  · rw [feedAll_append]
    exact feed_marginEnd hshows.mode_eq hfirst
  · show levelOf margin = _ ↔ _
    omega

/-- Three runs of spaces, none of them a level, that are two levels together. The line comes after a quoted
line end, a comment over two lines and a blank line. -/
theorem level_of_margin_three_runs :
    let before := "\"\n\" \x7bx\ny\x7d\n \n".toList
    let margin := [' ', ' ', ' ', '\t', ' ', ' ', ' ', '\r', ' ', ' ']
    LineStarts "f" before ∧ Spaces margin ∧ levelByRuns margin = 1 ∧ spacesLeft margin = 8 ∧
      ∃ m : Margin, ((start "f").feedAll (before ++ margin)).mode = .margin m ∧
        (start "f").feedAll (before ++ margin ++ ['a']) =
          (((start "f").feedAll (before ++ margin)).indentTo m.level).begin 'a' ∧
        m.level = margin.count '\t' + margin.count ' ' / 4 ∧
        m.level = levelByRuns margin + spacesLeft margin / 4 ∧
        (m.level = levelByRuns margin ↔ spacesLeft margin < 4) := by
  intro before margin
  have hstart : ((start "f").feedAll before).mode = .margin .empty := by decide +kernel
  have hmargin : Spaces margin := by simp [Spaces, margin]
  exact ⟨hstart, hmargin, by decide, by decide,
    level_of_margin "f" before margin 'a' hstart hmargin (by decide)⟩

/-- Two spaces before a tab and two behind it are a level. So the last line is deeper than the one before
it, though both have one tab and no run of four spaces. -/
theorem spaces_add_up_across_tab :
    let before := "a\n\tb\n".toList
    let margin := [' ', ' ', '\t', ' ', ' ']
    LineStarts "f" before ∧ Spaces margin ∧ levelByRuns margin = 1 ∧
      ((start "f").feedAll (before ++ margin)).mode = .margin ⟨2, 0⟩ ∧
      lex "f" (before ++ margin ++ ['c', '\n']) = .ok [
        ⟨.word, .single ⟨1, 1, "f"⟩, "a"⟩, ⟨.newline, .single ⟨1, 2, "f"⟩, ""⟩,
        ⟨.indent, .single ⟨2, 2, "f"⟩, ""⟩, ⟨.word, .single ⟨2, 2, "f"⟩, "b"⟩, ⟨.newline, .single ⟨2, 3, "f"⟩, ""⟩,
        ⟨.indent, .single ⟨3, 6, "f"⟩, ""⟩, ⟨.word, .single ⟨3, 6, "f"⟩, "c"⟩, ⟨.newline, .single ⟨3, 7, "f"⟩, ""⟩,
        ⟨.dedent, .single ⟨4, 1, "f"⟩, ""⟩, ⟨.dedent, .single ⟨4, 1, "f"⟩, ""⟩] := by
  intro before margin
  have hstart : ((start "f").feedAll before).mode = .margin .empty := by decide +kernel
  exact ⟨hstart, by simp [Spaces, margin], by decide, by decide +kernel, by decide +kernel⟩

end Offside
