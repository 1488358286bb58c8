import Offside.Module.Basic
import Offside.Proofs.Files.Path
import Offside.Proofs.Files.Tree
import Offside.Proofs.Module.Manifest

/-! What any sequence of module calls does to a tree of files.

A call writes one module file and, if it starts a module, perhaps a first program; either write may be
refused, and either may break off and leave the beginning of a file, which the call then reports.
`ModuleCall.Effect` says all that one call can do, whatever the format of module files. From it follows,
for every tree and every sequence of calls, that a module file holds the record written last unless a later
write to it broke off, that a program that is there stays as it is, and that nothing else changes. -/
namespace Offside

/-- The text of the record is read as the record. -/
def ManifestFormat.Inverts [ManifestFormat] (m : Manifest) : Prop :=
  (ManifestFormat.write m >>= ManifestFormat.read) = .ok m

/-- Plain records are read back from plain lines. -/
theorem Manifest.Plain.inverts {m : Manifest} (h : m.Plain) : ManifestFormat.Inverts m := by
  have hwrite : ManifestFormat.write m = pure m.write := rfl
  have hread : ManifestFormat.read m.write = (Manifest.read m.write).mapError ManifestError.text := rfl
  rw [ManifestFormat.Inverts, hwrite, pure_bind, hread, Manifest.read_write h]
  rfl

/-- The two ways to write a module file. -/
inductive ModuleCall where
  | init (dir name : String)
  | write (dir : String) (manifest : Manifest)
  deriving DecidableEq, Repr

/-- The path of the file that a write broke off in, if that is what failed. -/
def Failure.brokenOff? : Failure → Option String
  | .file ⟨.writing, path, _⟩ => some path
  | _ => none

theorem Failure.brokenOff?_of_opening {e : FileError} (h : e.action = .opening) :
    (Failure.file e).brokenOff? = none := by
  obtain ⟨action, path, problem⟩ := e
  obtain rfl : action = .opening := h
  rfl

/-- Where a write broke off, by the answer to a call. -/
def FileTree.brokenAt (t : FileTree) : Except Failure Unit → Option (List String)
  | .ok () => none
  | .error failure => failure.brokenOff?.map t.place

theorem FileTree.place_eq {t t' : FileTree} (h : t'.home = t.home) (path : String) : t'.place path = t.place path :=
  congrArg (Path.resolve · path) h

namespace Module

/-- The name of the program that a new module starts with. -/
def entryName : String := "main.tran"

/-- Where the module file of a directory is. -/
def filePath (dir : List String) : List String := dir ++ [fileName]

/-- Where the first program of a directory is. -/
def entryPath (dir : List String) : List String := dir ++ [entryName]

theorem entryPath_ne_filePath (dir dir' : List String) : entryPath dir ≠ filePath dir' := by
  intro h
  have hlast : entryName = fileName := by simpa [entryPath, filePath] using congrArg List.getLast? h
  exact absurd hlast (by decide)

theorem place_file (t : FileTree) (dir : String) : t.place (Path.join dir fileName) = filePath (t.place dir) :=
  Path.resolve_join t.home dir ⟨by decide, by decide, by decide, by decide⟩

theorem place_entry (t : FileTree) (dir : String) : t.place (Path.join dir entryName) = entryPath (t.place dir) :=
  Path.resolve_join t.home dir ⟨by decide, by decide, by decide, by decide⟩

/-! ### Writing files -/

/-- What comes of writing a file. -/
inductive Written (t : FileTree) (path : List String) (content : String) : Except Failure Unit × FileTree → Prop
  | refused {failure} : ¬ t.Admits path → failure.brokenOff? = none → Written t path content (.error failure, t)
  | whole : t.Admits path → Written t path content (.ok (), t.putNext path content)
  | spoiled {failure} (length : Nat) : t.Admits path → t.breaks ≠ [] →
      t.brokenAt (.error failure) = some path →
      Written t path content (.error failure, t.putNext path (FileTree.beginning length content))

theorem writeFile_run (t : FileTree) (path content : String) :
    (writeFile path content : StateM FileTree (Except Failure Unit)).run t =
      ((t.write path content).1.mapError Failure.file, (t.write path content).2) := by
  have hwrite : (Files.write path content : StateM FileTree (Except FileError Unit)).run t =
      t.write path content := rfl
  simp only [writeFile, StateT.run_bind, hwrite]
  generalize t.write path content = r
  obtain ⟨answer, t'⟩ := r
  cases answer <;> rfl

theorem writeFile_written (t : FileTree) (path content : String) :
    Written t (t.place path) content ((writeFile path content : StateM FileTree (Except Failure Unit)).run t) := by
  rw [writeFile_run]
  have hwrote := t.wrote path content
  generalize t.write path content = r at hwrote ⊢
  cases hwrote with
  | refused hnot haction => exact .refused hnot (Failure.brokenOff?_of_opening haction)
  | whole hadmits _ => exact .whole hadmits
  | brokenOff hadmits hbreak =>
    refine .spoiled _ hadmits (fun hnil => ?_) rfl
    rw [hnil] at hbreak
    cases hbreak

/-- The module in a directory is as a call that started it leaves it, with this text in the module file. -/
structure Started (dir text : String) (t : FileTree) : Prop where
  file : t.file? (filePath (t.place dir)) = some text
  admits : t.Admits (filePath (t.place dir))
  entry : t.contains (Path.join dir entryName) = true

/-- The first program is put beside a module file. -/
theorem started_entry {t : FileTree} {dir text : String} (hfile : t.file? (filePath (t.place dir)) = some text)
    (hopen : t.Admits (filePath (t.place dir))) (hentry : t.Admits (t.place (Path.join dir entryName))) :
    Started dir text (t.putNext (t.place (Path.join dir entryName)) starter) := by
  have hputs := hentry.puts starter
  have hne : filePath (t.place dir) ≠ t.place (Path.join dir entryName) := by
    rw [place_entry]
    exact (entryPath_ne_filePath _ _).symm
  refine ⟨((hputs.file _).trans (if_neg hne)).trans hfile, hentry.putNext hopen _, ?_⟩
  rw [FileTree.contains, FileTree.place_eq hputs.home, hputs.file, if_pos rfl]
  simp

/-- The record of a new module. -/
def firstManifest (name : String) : Manifest := ⟨name, entryName, ""⟩

section Runs
variable [ManifestFormat] {t t' : FileTree} {dir name text : String} {m : Manifest}

theorem write_of_ok (t : FileTree) (dir : String) (h : ManifestFormat.write m = .ok text) :
    Written t (filePath (t.place dir)) text
      ((Module.write dir m : StateM FileTree (Except Failure Unit)).run t) := by
  rw [← place_file, Module.write, h]
  exact writeFile_written t (Path.join dir fileName) text

theorem write_of_error (t : FileTree) (dir : String) {message : String} (h : ManifestFormat.write m = .error message) :
    (Module.write dir m : StateM FileTree (Except Failure Unit)).run t = (.error (.manifest message), t) := by
  rw [Module.write, h]
  rfl

theorem init_of_error {failure : Failure}
    (h : (Module.write dir (firstManifest name) : StateM FileTree (Except Failure Unit)).run t = (.error failure, t')) :
    (init dir name : StateM FileTree (Except Failure Unit)).run t = (.error failure, t') := by
  have hwrite : (Module.write dir ⟨name, "main.tran", ""⟩ : StateM FileTree (Except Failure Unit)).run t =
      (.error failure, t') := h
  simp only [init, StateT.run_bind, hwrite]
  rfl

/-- After the module file, the first program is written unless something has its name. -/
theorem init_of_ok
    (h : (Module.write dir (firstManifest name) : StateM FileTree (Except Failure Unit)).run t = (.ok (), t')) :
    (init dir name : StateM FileTree (Except Failure Unit)).run t =
      if t'.contains (Path.join dir entryName) then (.ok (), t')
      else (writeFile (Path.join dir entryName) starter : StateM FileTree (Except Failure Unit)).run t' := by
  have hwrite : (Module.write dir ⟨name, "main.tran", ""⟩ : StateM FileTree (Except Failure Unit)).run t =
      (.ok (), t') := h
  have hentry : Manifest.entryFile ⟨name, "main.tran", ""⟩ = entryName := rfl
  simp only [init, StateT.run_bind, hwrite, hentry]
  generalize Path.join dir entryName = entry
  generalize (writeFile entry starter : StateM FileTree (Except Failure Unit)) = second
  show StateT.run (if t'.contains entry then pure (.ok ()) else second) t' = _
  split <;> rfl

/-- A module file with the text of a record is read as what that text is read as. -/
theorem read_of_file? (hplain : t.isDirectory (filePath (t.place dir)) = false)
    (hfile : t.file? (filePath (t.place dir)) = some text) (hread : ManifestFormat.read text = .ok m) :
    (Module.read dir : StateM FileTree (Except Failure Manifest)).run t = (.ok m, t) := by
  rw [← place_file] at hplain hfile
  have htext : t.read (Path.join dir fileName) = .ok text :=
    FileTree.read_of_file? (Path.join_ne_empty dir fileName) hplain hfile
  simp [Module.read, Files.read, htext, hread]
  rfl

end Runs

end Module

/-! ### One call -/

namespace ModuleCall

/-- The directory that a call is about. -/
def dir : ModuleCall → String
  | init dir _ | write dir _ => dir

/-- Where that directory is. -/
def place (c : ModuleCall) (t : FileTree) : List String := t.place c.dir

/-- The record that a call is to write. -/
def manifest : ModuleCall → Manifest
  | init _ name => Module.firstManifest name
  | write _ manifest => manifest

/-- The path is that of the first program of the module that the call starts, and there is no file yet. -/
def Starts (c : ModuleCall) (t : FileTree) (path : List String) : Prop :=
  ∃ dir name, c = init dir name ∧ path = Module.entryPath (t.place dir) ∧ t.file? path = none

variable [ManifestFormat]

/-- What a call answers in a tree, and the tree after it. -/
def perform (t : FileTree) : ModuleCall → Except Failure Unit × FileTree
  | init dir name => (Module.init dir name : StateM FileTree (Except Failure Unit)).run t
  | write dir manifest => (Module.write dir manifest : StateM FileTree (Except Failure Unit)).run t

def after (t : FileTree) (c : ModuleCall) : FileTree := (c.perform t).2

/-- The call gets its module file written, whatever comes after that. -/
def writes (t : FileTree) (c : ModuleCall) : Bool :=
  ((Module.write c.dir c.manifest : StateM FileTree (Except Failure Unit)).run t).1.isOk

/-- All that a call can do to a tree. -/
structure Effect (c : ModuleCall) (t : FileTree) (r : Except Failure Unit × FileTree) : Prop where
  home : r.2.home = t.home
  directory : ∀ path, r.2.isDirectory path = t.isDirectory path
  /-- A module file that gets written is a file with the text of the record. -/
  written : c.writes t = true →
    (∃ text, ManifestFormat.write c.manifest = .ok text ∧ r.2.file? (Module.filePath (c.place t)) = some text) ∧
      t.isDirectory (Module.filePath (c.place t)) = false
  /-- One that does not stays as it is, and so does all else, unless the write broke off. -/
  unwritten : c.writes t = false →
    (∃ failure, r = (.error failure, t)) ∨ t.brokenAt r.1 = some (Module.filePath (c.place t))
  /-- What a path holds changes only if it is that module file or a program that was not there. -/
  changed : ∀ path, r.2.file? path = t.file? path ∨
    ((c.writes t = true ∨ t.brokenAt r.1 = some path) ∧ path = Module.filePath (c.place t)) ∨
    c.Starts t path ∧ (r.2.file? path = some Module.starter ∨
      t.brokenAt r.1 = some path ∧ ∃ length, r.2.file? path = some (FileTree.beginning length Module.starter))
  whole : t.breaks = [] → r.2.breaks = [] ∧ t.brokenAt r.1 = none

variable {t t' t₁ : FileTree} {c : ModuleCall} {name text : String} {answer : Except Failure Unit}
  {failure : Failure}

theorem effect_of_refused (hwrites : c.writes t = false) (hfailure : failure.brokenOff? = none) :
    c.Effect t (.error failure, t) := by
  have hbroken : t.brokenAt (.error failure) = none := by simp [FileTree.brokenAt, hfailure]
  exact ⟨rfl, fun _ => rfl, fun hok => absurd (hwrites.symm.trans hok) Bool.false_ne_true,
    fun _ => .inl ⟨failure, rfl⟩, fun _ => .inl rfl, fun hbreaks => ⟨hbreaks, hbroken⟩⟩

theorem effect_of_spoiled (hwrites : c.writes t = false) (hadmits : t.Admits (Module.filePath (c.place t)))
    (hbreak : t.breaks ≠ []) (hbroken : t.brokenAt answer = some (Module.filePath (c.place t))) (content : String) :
    c.Effect t (answer, t.putNext (Module.filePath (c.place t)) content) := by
  have hputs := hadmits.puts content
  refine ⟨hputs.home, hputs.directory, fun hok => absurd (hwrites.symm.trans hok) Bool.false_ne_true,
    fun _ => .inr hbroken, fun path => ?_, fun hnil => absurd hnil hbreak⟩
  by_cases hpath : path = Module.filePath (c.place t)
  · exact .inr (.inl ⟨.inr (hpath ▸ hbroken), hpath⟩)
  · exact .inl ((hputs.file path).trans (if_neg hpath))

theorem effect_of_written (answer : Except Failure Unit) (hwrites : c.writes t = true)
    (htext : ManifestFormat.write c.manifest = .ok text) (hadmits : t.Admits (Module.filePath (c.place t)))
    (hbroken : t.brokenAt answer = none) :
    c.Effect t (answer, t.putNext (Module.filePath (c.place t)) text) := by
  have hputs := hadmits.puts text
  refine ⟨hputs.home, hputs.directory, fun _ => ⟨⟨text, htext, ?_⟩, hputs.noDirectory⟩,
    fun hno => absurd (hno.symm.trans hwrites) Bool.false_ne_true, fun path => ?_, fun hnil => ⟨?_, hbroken⟩⟩
  · exact (hputs.file _).trans (if_pos rfl)
  · by_cases hpath : path = Module.filePath (c.place t)
    · exact .inr (.inl ⟨.inl hwrites, hpath⟩)
    · exact .inl ((hputs.file path).trans (if_neg hpath))
  · simp [FileTree.putNext, hnil]

/-- A call that gets its module file written may still fail later, before it opens another file. -/
theorem Effect.fails {before : Except Failure Unit} (h : c.Effect t (before, t₁)) (hwrites : c.writes t = true)
    (hbefore : t.brokenAt before = none) (hanswer : t.brokenAt answer = none) : c.Effect t (answer, t₁) := by
  refine ⟨h.home, h.directory, h.written, fun hno => absurd (hno.symm.trans hwrites) Bool.false_ne_true,
    fun path => ?_, fun hnil => ⟨(h.whole hnil).1, hanswer⟩⟩
  rcases h.changed path with hsame | ⟨-, hfile⟩ | ⟨hstarts, hstarter | ⟨hbroken, -⟩⟩
  · exact .inl hsame
  · exact .inr (.inl ⟨.inl hwrites, hfile⟩)
  · exact .inr (.inr ⟨hstarts, .inl hstarter⟩)
  · exact absurd (hbefore.symm.trans hbroken) (by simp)

/-- A first program that is written after the module file, or the beginning of one. -/
theorem Effect.then_entry {dir content : String} {before : Except Failure Unit}
    (h : (init dir name).Effect t (before, t₁)) (hwrites : (init dir name).writes t = true)
    (hnone : t₁.file? (Module.entryPath (t.place dir)) = none)
    (hadmits : t₁.Admits (Module.entryPath (t.place dir)))
    (hcontent : (t.brokenAt answer = none ∧ content = Module.starter) ∨
      (t.brokenAt answer = some (Module.entryPath (t.place dir)) ∧ t₁.breaks ≠ [] ∧
        ∃ length, content = FileTree.beginning length Module.starter)) :
    (init dir name).Effect t (answer, t₁.putNext (Module.entryPath (t.place dir)) content) := by
  have hputs := hadmits.puts content
  have hstarts : (init dir name).Starts t (Module.entryPath (t.place dir)) := by
    refine ⟨dir, name, rfl, rfl, ?_⟩
    rcases h.changed (Module.entryPath (t.place dir)) with hsame | ⟨-, hfile⟩ | ⟨⟨_, _, _, _, hmissing⟩, -⟩
    · exact hsame.symm.trans hnone
    · exact absurd hfile (Module.entryPath_ne_filePath _ _)
    · exact hmissing
  refine ⟨hputs.home.trans h.home, fun path => (hputs.directory path).trans (h.directory path), fun _ => ?_,
    fun hno => absurd (hno.symm.trans hwrites) Bool.false_ne_true, fun path => ?_, fun hnil => ?_⟩
  · obtain ⟨⟨text, htext, hfile⟩, hplain⟩ := h.written hwrites
    refine ⟨⟨text, htext, (hputs.file _).trans ?_⟩, hplain⟩
    rw [if_neg (Module.entryPath_ne_filePath _ _).symm]
    exact hfile
  · by_cases hpath : path = Module.entryPath (t.place dir)
    · subst hpath
      have hfile := (hputs.file (Module.entryPath (t.place dir))).trans (if_pos rfl)
      rcases hcontent with ⟨-, rfl⟩ | ⟨hbroken, -, length, rfl⟩
      · exact .inr (.inr ⟨hstarts, .inl hfile⟩)
      · exact .inr (.inr ⟨hstarts, .inr ⟨hbroken, length, hfile⟩⟩)
    · rcases h.changed path with hsame | ⟨-, hfile⟩ | ⟨⟨_, _, hcall, hentry, -⟩, -⟩
      · exact .inl (((hputs.file path).trans (if_neg hpath)).trans hsame)
      · exact .inr (.inl ⟨.inl hwrites, hfile⟩)
      · cases hcall
        exact absurd hentry hpath
  · have hbreaks : t₁.breaks = [] := (h.whole hnil).1
    rcases hcontent with ⟨hbroken, -⟩ | ⟨-, hsome, -⟩
    · exact ⟨by simp [FileTree.putNext, hbreaks], hbroken⟩
    · exact absurd hbreaks hsome

/-- A call whose module file cannot be written fails for the same reason. -/
theorem perform_of_error
    (h : (Module.write c.dir c.manifest : StateM FileTree (Except Failure Unit)).run t = (.error failure, t')) :
    c.perform t = (.error failure, t') := by
  cases c with
  | init dir name => exact Module.init_of_error h
  | write dir m => exact h

theorem perform_of_isOk (h : (c.perform t).1.isOk = true) : c.perform t = (.ok (), c.after t) := by
  refine Prod.ext ?_ rfl
  cases hresult : (c.perform t).1 with
  | ok _ => rfl
  | error _ => simp [hresult, Except.isOk, Except.toBool] at h

/-- Writing the first program after the module file. -/
theorem effect_entry {dir : String} (h : (init dir name).Effect t (.ok (), t₁))
    (hwrites : (init dir name).writes t = true) :
    (init dir name).Effect t (if t₁.contains (Path.join dir Module.entryName) then (.ok (), t₁)
      else (Module.writeFile (Path.join dir Module.entryName) Module.starter :
        StateM FileTree (Except Failure Unit)).run t₁) := by
  have hplace := FileTree.place_eq h.home
  have hentry : t₁.place (Path.join dir Module.entryName) = Module.entryPath (t.place dir) := by
    rw [hplace, Module.place_entry]
  by_cases hthere : t₁.contains (Path.join dir Module.entryName) = true
  · rw [if_pos hthere]
    exact h
  rw [if_neg hthere]
  rw [FileTree.contains, Bool.or_eq_true, not_or, hentry, Bool.not_eq_true, Option.not_isSome_iff_eq_none] at hthere
  have hwritten := Module.writeFile_written t₁ (Path.join dir Module.entryName) Module.starter
  rw [hentry] at hwritten
  generalize (Module.writeFile (Path.join dir Module.entryName) Module.starter :
    StateM FileTree (Except Failure Unit)).run t₁ = r at hwritten ⊢
  cases hwritten with
  | refused _ hfailure => exact h.fails hwrites rfl (by simp [FileTree.brokenAt, hfailure])
  | whole hadmits => exact h.then_entry hwrites hthere.2 hadmits (.inl ⟨rfl, rfl⟩)
  | @spoiled failure length hadmits hbreak hbroken =>
    have hsame : t₁.brokenAt (.error failure) = t.brokenAt (.error failure) :=
      congrArg (failure.brokenOff?.map ·) (funext hplace)
    exact h.then_entry hwrites hthere.2 hadmits (.inr ⟨hsame.symm.trans hbroken, hbreak, length, rfl⟩)

/-- One call has no other effects. -/
theorem effect (c : ModuleCall) (t : FileTree) : c.Effect t (c.perform t) := by
  cases htext : ManifestFormat.write c.manifest with
  | error message =>
    have hrun := Module.write_of_error t c.dir htext
    rw [perform_of_error hrun]
    exact effect_of_refused (congrArg (·.1.isOk) hrun) rfl
  | ok text =>
    have hwritten := Module.write_of_ok t c.dir htext
    generalize hrun : (Module.write c.dir c.manifest : StateM FileTree (Except Failure Unit)).run t = r at hwritten
    cases hwritten with
    | refused _ hfailure =>
      rw [perform_of_error hrun]
      exact effect_of_refused (congrArg (·.1.isOk) hrun) hfailure
    | spoiled length hadmits hbreak hbroken =>
      rw [perform_of_error hrun]
      exact effect_of_spoiled (congrArg (·.1.isOk) hrun) hadmits hbreak hbroken _
    | whole hadmits =>
      have hwrites : c.writes t = true := congrArg (·.1.isOk) hrun
      have hfirst := effect_of_written (.ok ()) hwrites htext hadmits rfl
      cases c with
      | write dir m =>
        have hperform : (ModuleCall.write dir m).perform t = _ := hrun
        rw [hperform]
        exact hfirst
      | init dir name =>
        have hperform : (init dir name).perform t = _ := Module.init_of_ok hrun
        rw [hperform]
        exact effect_entry hfirst hwrites

theorem started_of_init {dir : String} (h : (init dir name).perform t = (.ok (), t')) :
    ∃ text, ManifestFormat.write (Module.firstManifest name) = .ok text ∧ Module.Started dir text t' := by
  cases htext : ManifestFormat.write (Module.firstManifest name) with
  | error message =>
    rw [perform, Module.init_of_error (Module.write_of_error t dir htext)] at h
    cases h
  | ok text =>
    refine ⟨text, rfl, ?_⟩
    have hwritten := Module.write_of_ok t dir htext
    generalize hrun : (Module.write dir (Module.firstManifest name) :
      StateM FileTree (Except Failure Unit)).run t = r at hwritten
    cases hwritten with
    | refused _ _ | spoiled _ _ _ _ =>
      rw [perform, Module.init_of_error hrun] at h
      cases h
    | whole hadmits =>
      have hputs := hadmits.puts text
      have hplace := FileTree.place_eq hputs.home dir
      have hfile := (hputs.file (Module.filePath (t.place dir))).trans (if_pos rfl)
      have hopen := hadmits.putNext hadmits text
      generalize t.putNext (Module.filePath (t.place dir)) text = t₁ at hrun hplace hfile hopen
      rw [← hplace] at hfile hopen
      rw [perform, Module.init_of_ok hrun] at h
      by_cases hthere : t₁.contains (Path.join dir Module.entryName) = true
      · rw [if_pos hthere] at h
        cases h
        exact ⟨hfile, hopen, hthere⟩
      · rw [if_neg hthere] at h
        have hwritten := Module.writeFile_written t₁ (Path.join dir Module.entryName) Module.starter
        rw [h] at hwritten
        cases hwritten with
        | whole hentry => exact Module.started_entry hfile hopen hentry

/-- A call that starts a module and succeeds has nothing left to do. -/
theorem init_again {dir : String} (h : (init dir name).perform t = (.ok (), t')) :
    (init dir name).perform t' = (.ok (), { t' with breaks := t'.breaks.tail }) ∨
      t'.brokenAt ((init dir name).perform t').1 = some (Module.filePath (t'.place dir)) := by
  obtain ⟨text, htext, hstarted⟩ := started_of_init h
  have hwritten := Module.write_of_ok t' dir htext
  generalize hrun : (Module.write dir (Module.firstManifest name) :
    StateM FileTree (Except Failure Unit)).run t' = r at hwritten
  cases hwritten with
  | refused hnot _ => exact absurd hstarted.admits hnot
  | whole _ =>
    rw [FileTree.putNext_of_file? hstarted.file] at hrun
    refine .inl ?_
    rw [perform, Module.init_of_ok hrun]
    exact if_pos hstarted.entry
  | spoiled _ _ _ hbroken =>
    refine .inr ?_
    rw [perform, Module.init_of_error hrun]
    exact hbroken

end ModuleCall

/-! ### Sequences of calls -/

namespace FileTree

variable [ManifestFormat]

/-- The tree after a sequence of calls. -/
def afterCalls (t : FileTree) (calls : List ModuleCall) : FileTree := calls.foldl ModuleCall.after t

/-- The record that was written last to a directory, among a sequence of calls. -/
def lastWritten (dir : List String) (t : FileTree) : List ModuleCall → Option Manifest
  | [] => none
  | c :: calls =>
    (lastWritten dir (c.after t) calls).or (if c.writes t && c.place t = dir then some c.manifest else none)

/-- The paths at which writing broke off, by the answers to a sequence of calls. -/
def brokenOff (t : FileTree) : List ModuleCall → List (List String)
  | [] => []
  | c :: calls => (t.brokenAt (c.perform t).1).toList ++ brokenOff (c.after t) calls

/-- A write to the module file of a directory broke off, and none was whole after that. -/
def spoiled (dir : List String) (t : FileTree) : List ModuleCall → Bool
  | [] => false
  | c :: calls =>
    spoiled dir (c.after t) calls ||
      (t.brokenAt (c.perform t).1 = some (Module.filePath dir) && (lastWritten dir (c.after t) calls).isNone)

variable {t : FileTree} {calls : List ModuleCall} {c : ModuleCall} {dir path : List String} {m : Manifest}

theorem brokenOff_cons_head (h : t.brokenAt (c.perform t).1 = some path) : path ∈ t.brokenOff (c :: calls) := by
  simp [brokenOff, h]

theorem brokenOff_cons_tail (h : path ∈ (c.after t).brokenOff calls) : path ∈ t.brokenOff (c :: calls) :=
  List.mem_append_right _ h

theorem place_after (t : FileTree) (c : ModuleCall) (path : String) : (c.after t).place path = t.place path :=
  place_eq (c.effect t).home path

theorem place_afterCalls (t : FileTree) (calls : List ModuleCall) (path : String) :
    (t.afterCalls calls).place path = t.place path := by
  induction calls generalizing t with
  | nil => rfl
  | cons c calls ih => exact (ih (c.after t)).trans (place_after t c path)

theorem isDirectory_afterCalls (t : FileTree) (calls : List ModuleCall) (path : List String) :
    (t.afterCalls calls).isDirectory path = t.isDirectory path := by
  induction calls generalizing t with
  | nil => rfl
  | cons c calls ih => exact (ih (c.after t)).trans ((c.effect t).directory path)

/-- Where no write ever breaks off, none does in these calls. -/
theorem brokenOff_of_breaks (h : t.breaks = []) : t.brokenOff calls = [] := by
  induction calls generalizing t with
  | nil => rfl
  | cons c calls ih =>
    obtain ⟨hbreaks, hnone⟩ := (c.effect t).whole h
    have hlater : (c.after t).brokenOff calls = [] := ih hbreaks
    simp [brokenOff, hnone, hlater]

theorem mem_brokenOff_of_spoiled (h : t.spoiled dir calls = true) : Module.filePath dir ∈ t.brokenOff calls := by
  induction calls generalizing t with
  | nil => cases h
  | cons c calls ih =>
    rcases (Bool.or_eq_true _ _).mp h with hlater | hnow
    · exact brokenOff_cons_tail (ih hlater)
    · exact brokenOff_cons_head (of_decide_eq_true (Bool.and_eq_true_iff.mp hnow).1)

theorem file?_of_lastWritten_none (h : lastWritten dir t calls = none) (hwhole : t.spoiled dir calls = false) :
    (t.afterCalls calls).file? (Module.filePath dir) = t.file? (Module.filePath dir) := by
  induction calls generalizing t with
  | nil => rfl
  | cons c calls ih =>
    obtain ⟨hlater, hnow⟩ := Option.or_eq_none_iff.mp h
    simp only [spoiled, hlater, Option.isNone_none, Bool.and_true, Bool.or_eq_false_iff] at hwhole
    refine (ih hlater hwhole.1).trans ?_
    rcases (c.effect t).changed (Module.filePath dir) with hsame | ⟨hwrites | hbroken, hplace⟩ |
      ⟨⟨_, _, _, hentry, _⟩, _⟩
    · exact hsame
    · have hdir : c.place t = dir := by simpa [Module.filePath] using hplace.symm
      simp [hwrites, hdir] at hnow
    · exact absurd hbroken (of_decide_eq_false hwhole.2)
    · exact absurd hentry.symm (Module.entryPath_ne_filePath _ _)

/-- A module file holds the text of the record that was written to it last, unless a later write to it broke
off. -/
theorem file?_of_lastWritten (h : lastWritten dir t calls = some m) (hwhole : t.spoiled dir calls = false) :
    (∃ text, ManifestFormat.write m = .ok text ∧
        (t.afterCalls calls).file? (Module.filePath dir) = some text) ∧
      t.isDirectory (Module.filePath dir) = false := by
  induction calls generalizing t with
  | nil => cases h
  | cons c calls ih =>
    have hrest : (c.after t).spoiled dir calls = false := (Bool.or_eq_false_iff.mp hwhole).1
    cases hlater : lastWritten dir (c.after t) calls with
    | some m' =>
      rw [lastWritten, hlater] at h
      cases h
      rw [← (c.effect t).directory]
      exact ih hlater hrest
    | none =>
      rw [lastWritten, hlater, Option.none_or] at h
      split at h
      · next hnow =>
        cases h
        obtain ⟨hwrites, hdir⟩ := (Bool.and_eq_true _ _).mp hnow
        obtain rfl := of_decide_eq_true hdir
        obtain ⟨⟨text, htext, hfile⟩, hplain⟩ := (c.effect t).written hwrites
        exact ⟨⟨text, htext, (file?_of_lastWritten_none hlater hrest).trans hfile⟩, hplain⟩
      · cases h

/-- A program that is there stays as it is. -/
theorem file?_entry {content : String} (h : t.file? (Module.entryPath dir) = some content) :
    (t.afterCalls calls).file? (Module.entryPath dir) = some content := by
  induction calls generalizing t with
  | nil => exact h
  | cons c calls ih =>
    refine ih ?_
    rcases (c.effect t).changed (Module.entryPath dir) with hsame | ⟨-, hplace⟩ | ⟨⟨_, _, _, _, hnone⟩, -⟩
    · exact hsame.trans h
    · exact absurd hplace (Module.entryPath_ne_filePath _ _)
    · rw [h] at hnone
      cases hnone

/-- What a sequence of calls may have done to a path that does not hold what it held. -/
inductive Touched (t : FileTree) (calls : List ModuleCall) (path : List String) : Prop
  /-- It is a module file that was written. -/
  | written {dir : List String} {m : Manifest} : lastWritten dir t calls = some m → path = Module.filePath dir →
      Touched t calls path
  /-- It is a module file in which a write broke off. -/
  | spoiled {c : ModuleCall} : c ∈ calls → path = Module.filePath (c.place t) → path ∈ t.brokenOff calls →
      Touched t calls path
  /-- It is the program of a module that was started, which was not there before: the starter, or the
  beginning of it if that write broke off. -/
  | started {c : ModuleCall} : c ∈ calls → c.Starts t path →
      (t.afterCalls calls).file? path = some Module.starter ∨ path ∈ t.brokenOff calls ∧
        (∃ length, (t.afterCalls calls).file? path = some (beginning length Module.starter)) →
      Touched t calls path

/-- What a later call has done to a path that the first one left alone. -/
theorem Touched.later (hsame : (c.after t).file? path = t.file? path) (h : (c.after t).Touched calls path) :
    t.Touched (c :: calls) path := by
  cases h with
  | @written dir m hlast hfile => exact .written (m := m) (by rw [lastWritten, hlast]; rfl) hfile
  | @spoiled c' hmem hfile hbroken =>
    have hplace : c'.place (c.after t) = c'.place t := place_after t c _
    exact .spoiled (List.mem_cons_of_mem _ hmem) (hplace ▸ hfile) (brokenOff_cons_tail hbroken)
  | started hmem hstarts hstarter =>
    obtain ⟨dir, name, rfl, hentry, hnone⟩ := hstarts
    have hplace : (c.after t).place dir = t.place dir := place_after t c dir
    exact .started (List.mem_cons_of_mem _ hmem) ⟨dir, name, rfl, hplace ▸ hentry, hsame.symm.trans hnone⟩
      (hstarter.imp_right fun hpart => ⟨brokenOff_cons_tail hpart.1, hpart.2⟩)

/-- What a path holds changes only so. -/
theorem file?_afterCalls (t : FileTree) (calls : List ModuleCall) (path : List String) :
    (t.afterCalls calls).file? path = t.file? path ∨ Touched t calls path := by
  induction calls generalizing t with
  | nil => exact .inl rfl
  | cons c calls ih =>
    rcases (c.effect t).changed path with hsame | ⟨hwrites | hbroken, hplace⟩ | ⟨hstarts, hstarter⟩
    · exact (ih (c.after t)).imp (fun hlater => hlater.trans hsame) fun htouched => htouched.later hsame
    · refine .inr ?_
      cases hlater : lastWritten (c.place t) (c.after t) calls with
      | some m => exact .written (m := m) (by rw [lastWritten, hlater]; rfl) hplace
      | none => exact .written (m := c.manifest) (by rw [lastWritten, hlater]; simp [hwrites]) hplace
    · exact .inr (.spoiled (List.mem_cons_self ..) hplace (brokenOff_cons_head hbroken))
    · -- Whatever the first call has put there is a program that is there, for the later ones.
      have hstays : ∀ {content}, (c.perform t).2.file? path = some content →
          ((c.after t).afterCalls calls).file? path = some content := by
        obtain ⟨dir, name, rfl, rfl, -⟩ := hstarts
        intro content hcontent
        exact file?_entry hcontent
      refine .inr (.started (List.mem_cons_self ..) hstarts ?_)
      exact hstarter.imp hstays fun ⟨hbroken, length, hpart⟩ =>
        ⟨brokenOff_cons_head hbroken, length, hstays hpart⟩

end FileTree

end Offside
