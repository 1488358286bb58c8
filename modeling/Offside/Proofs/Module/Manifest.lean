import Offside.Module.Manifest

/-! The module file of a record with plain values.

A plain word needs no quotes. The lines that are written for a record, one for each value that is not
left out, are found again, each is cut at its colon, and a value that was left out is empty. So the record
is read back. -/
namespace Offside

/-- A value that needs no quotes: it starts with a letter, has no white space in it and is no word for
nothing. -/
structure IsPlainWord (value : String) : Prop where
  letter : value.toList.head?.any Char.isAlpha = true
  noBlank : value.toList.any Text.isBlank = false
  notNothing : value ∉ ["~", "null", "Null", "NULL"]

theorem IsPlainWord.solid {value : String} (h : IsPlainWord value) : ∀ c ∈ value.toList, Text.isBlank c = false := by
  simpa using h.noBlank

/-- A plain word, or nothing. -/
def IsPlain (value : String) : Prop := value = "" ∨ IsPlainWord value

/-- All values of the record are plain. -/
def Manifest.Plain (m : Manifest) : Prop := IsPlain m.package ∧ IsPlain m.entry ∧ IsPlain m.logLevel

namespace Text
variable {cs line : List Char}

theorem trimChars_eq (hhead : ∀ c ∈ cs.head?, isBlank c = false) (hlast : ∀ c ∈ cs.getLast?, isBlank c = false) :
    trimChars cs = cs := by
  have hdrop : ∀ {cs : List Char}, (∀ c ∈ cs.head?, isBlank c = false) → cs.dropWhile isBlank = cs := by
    intro cs h
    cases cs with
    | nil => rfl
    | cons c rest => simp [h c rfl]
  rw [trimChars, hdrop hhead, hdrop (by rwa [List.head?_reverse]), List.reverse_reverse]

theorem trimChars_of_solid (h : ∀ c ∈ cs, isBlank c = false) : trimChars cs = cs :=
  trimChars_eq (fun c hc => h c (List.mem_of_head? hc)) fun c hc => h c (List.mem_of_getLast? hc)

/-- A line is found up to its end. -/
theorem linesFrom_append (before rest : List Char) (h : ∀ c ∈ line, isBlank c = false ∨ c = ' ') :
    linesFrom before (line ++ '\n' :: rest) = (before.reverse ++ line) :: linesFrom [] rest := by
  induction line generalizing before with
  | nil => cases before <;> simp [linesFrom]
  | cons c line ih =>
    obtain ⟨hc, hline⟩ := List.forall_mem_cons.mp h
    have hfeed : c ≠ '\n' := by
      rintro rfl
      revert hc
      decide
    have hreturn : c ≠ '\r' := by
      rintro rfl
      revert hc
      decide
    have hstep : linesFrom before (c :: (line ++ '\n' :: rest)) =
        linesFrom (c :: before) (line ++ '\n' :: rest) := by
      rw [linesFrom]
      · exact fun _ heq => absurd heq hreturn
      · exact hfeed
    rw [List.cons_append, hstep, ih _ hline]
    simp

end Text

namespace Manifest
open Text

theorem splitEntry_append {key : List Char} (before value : List Char) (h : ':' ∉ key) :
    splitEntry before (key ++ ':' :: ' ' :: value) = some (before.reverse ++ key, value) := by
  induction key generalizing before with
  | nil =>
    have hblank : isBlank ' ' = true := by decide
    simp [splitEntry, hblank]
  | cons c key ih =>
    obtain ⟨hc, hkey⟩ := List.ne_and_not_mem_of_not_mem_cons h
    have hstep : splitEntry before (c :: (key ++ ':' :: ' ' :: value)) =
        splitEntry (c :: before) (key ++ ':' :: ' ' :: value) := by
      rw [splitEntry]
      · exact fun heq => absurd heq.symm hc
      · exact fun _ _ heq => absurd heq.symm hc
    rw [List.cons_append, hstep, ih _ hkey]
    simp

theorem beforeComment_eq {cs : List Char} (h : ∀ c ∈ cs, isBlank c = false) : beforeComment cs = cs := by
  induction cs using beforeComment.induct with
  | case1 => rfl
  | case2 c rest hblank => exact absurd hblank (by simp [h c])
  | case3 c rest hblank ih =>
    rw [beforeComment, if_neg hblank, ih fun d hd => h d (by simp [hd])]
  | case4 c rest hnot ih =>
    rw [beforeComment, ih fun d hd => h d (by simp [hd])]
    exact hnot

theorem node_of_isPlainWord {value : String} (h : IsPlainWord value) :
    node value.toList = .value value.toList := by
  have htrim : trimChars (beforeComment value.toList) = value.toList := by
    rw [beforeComment_eq h.solid, trimChars_of_solid h.solid]
  have hletter := h.letter
  unfold node
  split
  case h_1 heq => simp [heq] at hletter
  case h_2 heq => simp [heq] at hletter
  case h_3 heq => simp [heq] at hletter
  case h_4 heq => simp [heq] at hletter
  case h_5 => simp only [htrim, String.ofList_toList, if_neg h.notNothing]

/-- How a plain value is written after the colon, and that it is read so. -/
theorem writeValue_of_isPlain {value : String} (h : IsPlain value) :
    (writeValue value).toList ≠ [] ∧ (∀ c ∈ (writeValue value).toList, isBlank c = false) ∧
      node (writeValue value).toList = .value value.toList := by
  rcases h with rfl | h
  · have hquotes : (writeValue "").toList.any isBlank = false := by decide
    exact ⟨by decide, fun c hc => by simpa using List.any_eq_false.mp hquotes c hc, rfl⟩
  · have hne : value ≠ "" := by
      rintro rfl
      exact absurd h.letter (by decide)
    rw [writeValue, if_neg hne]
    exact ⟨by simpa using hne, h.solid, node_of_isPlainWord h⟩

/-- The line of an entry. -/
def entryLine (key value : String) : List Char := key.toList ++ ':' :: ' ' :: (writeValue value).toList

def keys : List String := ["Package", "Entry", "LogLevel"]

theorem solid_of_mem_keys {key : String} (h : key ∈ keys) :
    (∀ c ∈ key.toList, isBlank c = false) ∧ ':' ∉ key.toList ∧ key.toList.head?.any Char.isAlpha = true := by
  have hall : (keys.all fun key => !key.toList.any isBlank && !key.toList.contains ':' &&
      key.toList.head?.any Char.isAlpha) = true := by decide
  have hkey := List.all_eq_true.mp hall key h
  simp only [Bool.and_eq_true, Bool.not_eq_true', List.any_eq_false, List.contains_eq_mem, decide_eq_false_iff_not,
    Bool.not_eq_true] at hkey
  exact ⟨hkey.1.1, hkey.1.2, hkey.2⟩

/-- One line is taken up. -/
theorem readFrom_entryLine {key value : String} {m : Manifest} (m' : Manifest) {lines line : Nat}
    (rest : List (List Char)) (hkey : key ∈ keys) (hvalue : IsPlain value)
    (hput : m.put lines line key (.value value.toList) = .ok m') :
    readFrom lines m line (entryLine key value :: rest) = readFrom lines m' (line + 1) rest := by
  obtain ⟨hsolid, hcolon, hletter⟩ := solid_of_mem_keys hkey
  obtain ⟨hne, hvsolid, hnode⟩ := writeValue_of_isPlain hvalue
  obtain ⟨c, ks, hchars⟩ : ∃ c ks, key.toList = c :: ks := by
    cases hkeys : key.toList with
    | nil => simp [hkeys] at hletter
    | cons c ks => exact ⟨c, ks, rfl⟩
  have hc : c.isAlpha = true := by simpa [hchars] using hletter
  have htrim : trimChars (entryLine key value) = entryLine key value := by
    apply trimChars_eq
    · intro d hd
      refine hsolid d (List.mem_of_head? ?_)
      simpa [entryLine, hchars] using hd
    · intro d hd
      refine hvsolid d (List.mem_of_getLast? ?_)
      simpa [entryLine, List.getLast?_cons, List.getLast?_eq_some_getLast hne] using hd
  have hsplit : splitEntry [] (entryLine key value) = some (key.toList, (writeValue value).toList) :=
    splitEntry_append [] _ hcolon
  have hline : entryLine key value = c :: (ks ++ ':' :: ' ' :: (writeValue value).toList) := by
    rw [entryLine, hchars, List.cons_append]
  have hloud : isSilent (entryLine key value) = false := by
    rw [hline]
    simp only [isSilent, List.isEmpty_cons, List.head?_cons, Bool.false_or, beq_eq_false_iff_ne, ne_eq,
      Option.some_inj]
    rintro rfl
    cases hc
  rw [readFrom]
  simp only [htrim, hloud, hsplit, Bool.false_eq_true, if_false]
  split
  case h_1 heq =>
    obtain ⟨rfl, -⟩ := List.cons.inj (hline.symm.trans heq)
    cases hc
  case h_2 heq =>
    obtain ⟨rfl, -⟩ := List.cons.inj (hline.symm.trans heq)
    cases hc
  case h_3 heq _ _ => cases heq
  case h_4 heq _ _ =>
    cases heq
    rw [String.ofList_toList, trimChars_of_solid hvsolid, hnode, hput]

/-- The line of an entry that is left out if it is empty. -/
def optionalLine (key value : String) : List (List Char) := if value = "" then [] else [entryLine key value]

/-- A value that is left out keeps its place empty. -/
theorem readFrom_optionalLine (key : String) {value : String} (lines line : Nat) (m m' : Manifest)
    (rest : List (List Char)) (hkey : key ∈ keys) (hvalue : IsPlain value) (hempty : value = "" → m = m')
    (hput : ∀ line, m.put lines line key (.value value.toList) = .ok m') :
    ∃ line', readFrom lines m line (optionalLine key value ++ rest) = readFrom lines m' line' rest := by
  unfold optionalLine
  split
  case isTrue h => exact ⟨line, by rw [hempty h, List.nil_append]⟩
  case isFalse => exact ⟨line + 1, readFrom_entryLine m' rest hkey hvalue (hput line)⟩

theorem linesFrom_entryLine {key value : String} (hkey : key ∈ keys) (hvalue : IsPlain value)
    (rest : List Char) :
    linesFrom [] (entryLine key value ++ '\n' :: rest) = entryLine key value :: linesFrom [] rest := by
  refine linesFrom_append [] rest fun c hc => ?_
  simp only [entryLine, List.mem_append, List.mem_cons] at hc
  rcases hc with hc | rfl | rfl | hc
  · exact .inl ((solid_of_mem_keys hkey).1 c hc)
  · exact .inl (by decide)
  · exact .inr rfl
  · exact .inl ((writeValue_of_isPlain hvalue).2.1 c hc)

theorem linesFrom_optionalLine {key value : String} (hkey : key ∈ keys) (hvalue : IsPlain value)
    (rest : List Char) :
    linesFrom [] ((writeOptional key value).toList ++ rest) = optionalLine key value ++ linesFrom [] rest := by
  unfold writeOptional optionalLine
  split
  case isTrue => rfl
  case isFalse hne =>
    have htext : (s!"{key}: {value}\n").toList ++ rest = entryLine key value ++ '\n' :: rest := by
      have hwrite : s!"{key}: {value}\n" = key ++ ": " ++ value ++ "\n" := rfl
      rw [hwrite]
      simp [entryLine, writeValue, hne]
    rw [htext, linesFrom_entryLine hkey hvalue]
    rfl

/-- The lines of a record's module file. -/
theorem linesFrom_write {m : Manifest} (h : m.Plain) :
    linesFrom [] m.write.toList = entryLine "Package" m.package ::
      (optionalLine "Entry" m.entry ++ (optionalLine "LogLevel" m.logLevel ++ [])) := by
  have htext : m.write.toList = entryLine "Package" m.package ++ '\n' ::
      ((writeOptional "Entry" m.entry).toList ++ ((writeOptional "LogLevel" m.logLevel).toList ++ [])) := by
    have hwrite : m.write = "Package: " ++ writeValue m.package ++ "\n" ++ writeOptional "Entry" m.entry ++
      writeOptional "LogLevel" m.logLevel := rfl
    rw [hwrite]
    simp [entryLine]
  obtain ⟨hpackage, hentry, hlevel⟩ := h
  rw [htext, linesFrom_entryLine (by decide) hpackage, linesFrom_optionalLine (by decide) hentry,
    linesFrom_optionalLine (by decide) hlevel]
  rfl

/-- **Plain records are read back**, with what was left out empty. -/
theorem read_write {m : Manifest} (h : m.Plain) : read m.write = .ok m := by
  show readFrom (m.write.toList.count '\n') empty 1 (linesFrom [] m.write.toList) = _
  rw [linesFrom_write h]
  generalize m.write.toList.count '\n' = lines
  obtain ⟨hpackage, hentry, hlevel⟩ := h
  rw [readFrom_entryLine ⟨m.package, "", ""⟩ _ (by decide) hpackage (by simp [put, empty])]
  obtain ⟨line, hline⟩ := readFrom_optionalLine "Entry" lines 2 ⟨m.package, "", ""⟩ ⟨m.package, m.entry, ""⟩
    (optionalLine "LogLevel" m.logLevel ++ []) (by decide) hentry (fun hempty => by rw [hempty])
    (fun _ => by simp [put])
  obtain ⟨line', hline'⟩ := readFrom_optionalLine "LogLevel" lines line ⟨m.package, m.entry, ""⟩ m [] (by decide)
    hlevel (fun hempty => by rw [← hempty]) (fun _ => by simp [put])
  rw [hline, hline', readFrom]

end Manifest

end Offside
