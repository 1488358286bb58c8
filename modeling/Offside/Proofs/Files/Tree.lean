import Offside.Files.Basic

/-! What writing to a tree of files changes.

A write is refused and changes nothing, or it changes what one path holds and nothing else: no directory
comes or goes, since the one that the file is in was there before. One that breaks off leaves the beginning
of what was to be written, and says so. A file that was written is still a file afterwards, and writing the
same once more, if that does not break off, changes no file. -/
namespace Offside.FileTree

variable {t t' : FileTree} {parts q : List String} {path content : String}

/-- The second tree is the first one with `content` at a path, where it has no directory. -/
structure Puts (t : FileTree) (parts : List String) (content : String) (t' : FileTree) : Prop where
  file : ∀ q, t'.file? q = if q = parts then some content else t.file? q
  directory : ∀ q, t'.isDirectory q = t.isDirectory q
  noDirectory : t.isDirectory parts = false
  home : t'.home = t.home

/-- A file can be opened for writing at a path. -/
structure Admits (t : FileTree) (parts : List String) : Prop where
  noDirectory : t.isDirectory parts = false
  parent : t.isDirectory parts.dropLast = true
  unlocked : parts ∉ t.locked

/-- The tree with a file put into place by the next write. -/
def putNext (t : FileTree) (parts : List String) (content : String) : FileTree :=
  { t.insert parts content with breaks := t.breaks.tail }

/-! ### Putting a file into place -/

theorem find?_go (files : List (List String × String)) :
    (insert.go parts content files).find? (fun f => f.1 = q) =
      if q = parts then some (parts, content) else files.find? fun f => f.1 = q := by
  induction files with
  | nil => by_cases hq : parts = q <;> simp [insert.go, hq, Ne.symm]
  | cons f files ih =>
    by_cases hf : f.1 = parts
    · by_cases hq : q = parts
      · simp [insert.go, hf, hq]
      · simp [insert.go, hf, hq, Ne.symm hq]
    · rw [insert.go, if_neg hf, List.find?_cons, ih]
      by_cases hq : q = parts
      · simp [hq, hf]
      · simp [hq, List.find?_cons]

theorem file?_insert (t : FileTree) (parts : List String) (content : String) (q : List String) :
    (t.insert parts content).file? q = if q = parts then some content else t.file? q := by
  show ((insert.go parts content t.files).find? fun f => f.1 = q).map Prod.snd = _
  rw [find?_go]
  split <;> rfl

/-- What is there already is put into place without a change. -/
theorem insert_of_file? (h : t.file? parts = some content) : t.insert parts content = t := by
  have hgo : ∀ files : List (List String × String), (files.find? fun f => f.1 = parts).map Prod.snd = some content →
      insert.go parts content files = files := by
    intro files
    induction files with
    | nil => intro hnone; cases hnone
    | cons f files ih =>
      intro hfind
      by_cases hf : f.1 = parts
      · have hsnd : f.2 = content := by simpa [hf] using hfind
        rw [insert.go, if_pos hf, ← hf, ← hsnd]
      · rw [insert.go, if_neg hf, ih (by simpa [hf] using hfind)]
  rw [insert, hgo t.files h]

/-! ### Directories -/

theorem isDirectory_iff :
    t.isDirectory q = true ↔
      q = [] ∨ (∃ d ∈ t.folders, q <+: d) ∨ ∃ p ∈ t.files.map Prod.fst, q <+: p ∧ q.length < p.length := by
  simp [isDirectory, or_assoc]

theorem mem_paths_insert {p : List String} :
    p ∈ (t.insert parts content).files.map Prod.fst ↔ p = parts ∨ p ∈ t.files.map Prod.fst := by
  show p ∈ (insert.go parts content t.files).map Prod.fst ↔ _
  induction t.files with
  | nil => simp [insert.go]
  | cons f files ih =>
    by_cases hf : f.1 = parts
    · simp [insert.go, hf]
    · rw [insert.go, if_neg hf, List.map_cons, List.mem_cons, ih, List.map_cons, List.mem_cons]
      exact or_left_comm

/-- What a directory is in is a directory. -/
theorem isDirectory_of_prefix {p : List String} (h : t.isDirectory p = true) (hq : q <+: p) :
    t.isDirectory q = true := by
  rw [isDirectory_iff] at h ⊢
  rcases h with rfl | ⟨d, hd, hp⟩ | ⟨f, hf, hp, hlt⟩
  · exact .inl (List.prefix_nil.mp hq)
  · exact .inr (.inl ⟨d, hd, hq.trans hp⟩)
  · exact .inr (.inr ⟨f, hf, hq.trans hp, Nat.lt_of_le_of_lt hq.length_le hlt⟩)

/-- A file in a directory that was there makes no new one. -/
theorem isDirectory_insert (hparent : t.isDirectory parts.dropLast = true) (q : List String) :
    (t.insert parts content).isDirectory q = t.isDirectory q := by
  rw [Bool.eq_iff_iff]
  constructor
  · intro h
    rcases isDirectory_iff.mp h with rfl | hfolder | ⟨p, hp, hq, hlt⟩
    · exact isDirectory_iff.mpr (.inl rfl)
    · exact isDirectory_iff.mpr (.inr (.inl hfolder))
    rcases mem_paths_insert.mp hp with rfl | hp
    · -- What the new file is in, its parent is in as well.
      refine isDirectory_of_prefix hparent (List.prefix_of_prefix_length_le hq (List.dropLast_prefix p) ?_)
      rw [List.length_dropLast]
      omega
    · exact isDirectory_iff.mpr (.inr (.inr ⟨p, hp, hq, hlt⟩))
  · intro h
    rcases isDirectory_iff.mp h with rfl | hfolder | ⟨p, hp, hq⟩
    · exact isDirectory_iff.mpr (.inl rfl)
    · exact isDirectory_iff.mpr (.inr (.inl hfolder))
    · exact isDirectory_iff.mpr (.inr (.inr ⟨p, mem_paths_insert.mpr (.inr hp), hq⟩))

/-! ### Reading and writing -/

/-- What comes of writing to a path. -/
inductive Wrote (t : FileTree) (path content : String) : Except FileError Unit × FileTree → Prop
  | refused {e} : ¬ t.Admits (t.place path) → e.action = .opening → Wrote t path content (.error e, t)
  | whole : t.Admits (t.place path) → t.breaks.headD none = none →
      Wrote t path content (.ok (), t.putNext (t.place path) content)
  | brokenOff {length problem} : t.Admits (t.place path) → t.breaks.headD none = some (length, problem) →
      Wrote t path content
        (.error ⟨.writing, path, problem⟩, t.putNext (t.place path) (beginning length content))

theorem wrote (t : FileTree) (path content : String) : t.Wrote path content (t.write path content) := by
  unfold write
  dsimp only
  by_cases hdirectory : t.isDirectory (t.place path) = true
  · rw [if_pos hdirectory]
    exact .refused (fun h => absurd (h.noDirectory.symm.trans hdirectory) Bool.false_ne_true) rfl
  rw [if_neg hdirectory]
  by_cases hparent : t.isDirectory (t.place path).dropLast = true
  · rw [if_neg (by simp [hparent])]
    by_cases hlocked : t.place path ∈ t.locked
    · rw [if_pos hlocked]
      exact .refused (fun h => h.unlocked hlocked) rfl
    · rw [if_neg hlocked]
      have hadmits : t.Admits (t.place path) := ⟨Bool.of_not_eq_true hdirectory, hparent, hlocked⟩
      cases hbreak : t.breaks.headD none with
      | none => exact .whole hadmits hbreak
      | some b => exact .brokenOff hadmits hbreak
  · rw [if_pos (by simp [hparent])]
    exact .refused (fun h => hparent h.parent) rfl

theorem Admits.puts (h : t.Admits parts) (content : String) : t.Puts parts content (t.putNext parts content) :=
  ⟨file?_insert t parts content, isDirectory_insert h.parent, h.noDirectory, rfl⟩

/-- Putting a file into place keeps what can be opened. -/
theorem Admits.putNext (h : t.Admits parts) {q : List String} (hq : t.Admits q) (content : String) :
    (t.putNext parts content).Admits q :=
  ⟨((h.puts content).directory q).trans hq.noDirectory, ((h.puts content).directory _).trans hq.parent, hq.unlocked⟩

/-- What is there already is put into place once more. -/
theorem putNext_of_file? (h : t.file? parts = some content) :
    t.putNext parts content = { t with breaks := t.breaks.tail } := by
  rw [putNext, insert_of_file? h]

theorem read_of_file? (hpath : path ≠ "") (hplain : t.isDirectory (t.place path) = false)
    (hfile : t.file? (t.place path) = some content) : t.read path = .ok content := by
  simp [read, hpath, hplain, hfile]

end Offside.FileTree
