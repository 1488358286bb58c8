import Offside.Files.Path

/-! Files: what can be done with them, what can go wrong, and a tree of them to do it in. -/
namespace Offside

inductive FileAction where
  | opening | reading | writing
  deriving DecidableEq, Repr

inductive FileProblem where
  | missing | isDirectory | notDirectory | denied
  | other (text : String)
  deriving DecidableEq, Repr

/-- What was tried on a path, and why it failed. -/
structure FileError where
  action : FileAction
  path : String
  problem : FileProblem
  deriving DecidableEq, Repr

def FileAction.name : FileAction → String
  | .opening => "open"
  | .reading => "read"
  | .writing => "write"

def FileProblem.text : FileProblem → String
  | .missing => "no such file or directory"
  | .isDirectory => "is a directory"
  | .notDirectory => "not a directory"
  | .denied => "permission denied"
  | .other text => text

def FileError.text (e : FileError) : String :=
  s!"{e.action.name} {e.path}: {e.problem.text}"

/-- Where there are files to read and to write. -/
class Files (m : Type → Type) where
  read : String → m (Except FileError String)
  /-- Replaces what a file holds. If that fails while writing, the file may hold less. -/
  write : String → String → m (Except FileError Unit)
  /-- A file or a directory has this path. -/
  exists? : String → m Bool

/-! ### A tree of files -/

/-- Files by the parts of their paths from the root on. A directory is there if a file is in it or if it
is listed; the root is always there. -/
structure FileTree where
  files : List (List String × String)
  /-- Directories that are there whether or not a file is in them. -/
  folders : List (List String)
  /-- Paths that may not be written: a file there stays as it is, and none can be made. -/
  locked : List (List String)
  /-- The directory that paths without a root start at. -/
  home : List String
  /-- What is to come of the next writes that get to open their file: after how many characters each
  breaks off and why, if it does. None of the writes after these does. -/
  breaks : List (Option (Nat × FileProblem))
  deriving DecidableEq, Repr

namespace FileTree

def empty : FileTree := ⟨[], [], [], [], []⟩

/-- Where a path leads in the tree. -/
def place (t : FileTree) (path : String) : List String := Path.resolve t.home path

def file? (t : FileTree) (parts : List String) : Option String :=
  (t.files.find? fun f => f.1 = parts).map Prod.snd

def isDirectory (t : FileTree) (parts : List String) : Bool :=
  parts.isEmpty || t.folders.any (parts.isPrefixOf ·) ||
    t.files.any fun f => parts.isPrefixOf f.1 && parts.length < f.1.length

/-- Part of the way is a file, so there is nothing beyond it. -/
def isBlocked (t : FileTree) (parts : List String) : Bool :=
  t.files.any fun f => f.1.isPrefixOf parts && f.1.length < parts.length

/-- Puts a file into place, with the directories it needs. -/
def insert (t : FileTree) (parts : List String) (content : String) : FileTree :=
  { t with files := go t.files }
where
  go : List (List String × String) → List (List String × String)
    | [] => [(parts, content)]
    | f :: rest => if f.1 = parts then (parts, content) :: rest else f :: go rest

/-- Why there is no file to open. -/
def absence (t : FileTree) (path : String) (parts : List String) : FileError :=
  ⟨.opening, path, if t.isBlocked parts then .notDirectory else .missing⟩

def read (t : FileTree) (path : String) : Except FileError String :=
  let parts := t.place path
  if path = "" then .error ⟨.opening, path, .missing⟩
  else if t.isDirectory parts then .error ⟨.reading, path, .isDirectory⟩
  else match t.file? parts with
    | some content => .ok content
    | none => .error (t.absence path parts)

/-- The first so many characters. -/
def beginning (length : Nat) (content : String) : String := String.ofList (content.toList.take length)

/-- Writes a file into a directory that is there. Opening the file empties it, so a write that breaks off
leaves no more than the beginning of what was to be written. -/
def write (t : FileTree) (path content : String) : Except FileError Unit × FileTree :=
  let parts := t.place path
  if t.isDirectory parts then (.error ⟨.opening, path, .isDirectory⟩, t)
  else if !t.isDirectory parts.dropLast then (.error (t.absence path parts), t)
  else if parts ∈ t.locked then (.error ⟨.opening, path, .denied⟩, t)
  else match t.breaks.headD none with
    | none => (.ok (), { t.insert parts content with breaks := t.breaks.tail })
    | some (length, problem) =>
      (.error ⟨.writing, path, problem⟩,
        { t.insert parts (beginning length content) with breaks := t.breaks.tail })

def contains (t : FileTree) (path : String) : Bool :=
  let parts := t.place path
  t.isDirectory parts || (t.file? parts).isSome

end FileTree

instance : Files (StateM FileTree) where
  read path := do return (← get).read path
  write path content := modifyGet fun t => t.write path content
  exists? path := do return (← get).contains path

end Offside
