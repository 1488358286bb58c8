import Offside.Files.Basic
import Offside.Log
import Offside.Module.Manifest
import Offside.Program.Parser.Declaration
import Offside.Token.Scanner

/-! Modules on disk: reading and writing the module file, and starting a new module. -/
namespace Offside

/-- Why a command cannot be carried out. -/
inductive Failure where
  | file (error : FileError)
  /-- The module file cannot be turned into text or read from it, for this reason. -/
  | manifest (message : String)
  | level (error : UnknownLevel)
  | lex (error : LexError)
  | parse (error : ParseError)

def Failure.text : Failure → String
  | .file e => e.text
  | .manifest message => message
  | .level e => e.message
  | .lex e => e.text
  | .parse e => e.text

namespace Module

variable {m : Type → Type} [Monad m] [Files m]

/-- The name of every module file. -/
def fileName : String := "Tran Module Information"

/-- What a new module starts with. -/
def starter : String :=
  "class main\n    shared start()\n        console.write(\"hello, world\")\n"

/-- Reads a file. -/
def readSource (path : String) : m (Except Failure String) := do
  match ← Files.read path with
  | .ok text => return .ok text
  | .error e => return .error (.file e)

/-- Reads the module file of a directory. -/
def read [ManifestFormat] (dir : String) : m (Except Failure Manifest) := do
  match ← Files.read (Path.join dir fileName) with
  | .error e => return .error (.file e)
  | .ok text =>
    match ManifestFormat.read text with
    | .ok manifest => return .ok manifest
    | .error message => return .error (.manifest message)

/-- Writes a file. -/
def writeFile (path content : String) : m (Except Failure Unit) := do
  match ← Files.write path content with
  | .ok () => return .ok ()
  | .error e => return .error (.file e)

/-- Writes the module file of a directory. -/
def write [ManifestFormat] (dir : String) (manifest : Manifest) : m (Except Failure Unit) :=
  match ManifestFormat.write manifest with
  | .ok text => writeFile (Path.join dir fileName) text
  | .error message => return .error (.manifest message)

/-- Writes a new module file, and a first program unless something has its name already. -/
def init [ManifestFormat] (dir name : String) : m (Except Failure Unit) := do
  let manifest : Manifest := ⟨name, "main.tran", ""⟩
  match ← write dir manifest with
  | .error e => return .error e
  | .ok () =>
    let entry := Path.join dir manifest.entryFile
    if ← Files.exists? entry then return .ok () else writeFile entry starter

end Module

end Offside
