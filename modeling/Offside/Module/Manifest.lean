import Offside.Text.Basic

/-! The module file: a module's package, its entry file and its log level, in some format.

Modules are read and written in any format. In the one that is used on the command line each line is a
key, a colon and a value; a value may stand in quotes, but is written without, which is right for plain
values only. Blank lines, comments and unknown keys are passed over, and of a key that occurs twice the
last value counts. -/
namespace Offside

structure Manifest where
  package : String
  entry : String
  logLevel : String
  deriving DecidableEq, Repr

/-- The file that the module starts with. -/
def Manifest.entryFile (m : Manifest) : String := if m.entry = "" then "main.tran" else m.entry

/-- How a record becomes the text of a module file and is read from it; an error is given by its text. -/
class ManifestFormat where
  write : Manifest → Except String String
  read : String → Except String Manifest

/-! ### Plain lines -/

/-- Why a text is no module file. Lines count from one. -/
inductive ManifestError where
  /-- Something is not closed in a text with so many line ends. -/
  | unclosed (lines : Nat)
  /-- A list stands where the entries should. -/
  | listForEntries (line : Nat)
  /-- A single value stands where the entries should. -/
  | valueForEntries (line : Nat) (value : String)
  /-- A list stands where a value should. -/
  | listForValue (line : Nat)
  deriving DecidableEq, Repr

def ManifestError.text : ManifestError → String
  | .unclosed 0 => "yaml: did not find expected ',' or ']'"
  | .unclosed lines => s!"yaml: line {lines}: did not find expected ',' or ']'"
  | .listForEntries line =>
    s!"yaml: unmarshal errors:\n  line {line}: cannot unmarshal !!seq into main.tranModule"
  | .valueForEntries line value =>
    s!"yaml: unmarshal errors:\n  line {line}: cannot unmarshal !!str `{value}` into main.tranModule"
  | .listForValue line =>
    s!"yaml: unmarshal errors:\n  line {line}: cannot unmarshal !!seq into string"

namespace Manifest

def empty : Manifest := ⟨"", "", ""⟩

/-- A value; the empty one needs quotes to be seen. -/
def writeValue (value : String) : String := if value = "" then "\"\"" else value

/-- An entry, left out if it has no value. -/
def writeOptional (key value : String) : String := if value = "" then "" else s!"{key}: {value}\n"

def write (m : Manifest) : String :=
  s!"Package: {writeValue m.package}\n" ++ writeOptional "Entry" m.entry ++
    writeOptional "LogLevel" m.logLevel

/-- What can stand after a colon or by itself. -/
inductive Node where
  | value (text : List Char)
  | list
  | unclosed

/-- What comes before a comment, which starts with a number sign after a blank. -/
def beforeComment : List Char → List Char
  | [] => []
  | c :: '#' :: rest => if Text.isBlank c then [] else c :: '#' :: beforeComment rest
  | c :: rest => c :: beforeComment rest

/-- A text in quotes, with nothing but a comment after it. -/
def quotedNode (quote : Char) (cs : List Char) : Node :=
  match cs.dropWhile (· != quote) with
  | [] => .unclosed
  | _ :: rest =>
    if (Text.trimChars (beforeComment rest)).isEmpty then .value (cs.takeWhile (· != quote))
    else .unclosed

/-- Reads trimmed text. The words for nothing are the empty value. -/
def node (cs : List Char) : Node :=
  match cs with
  | '[' :: _ => if (beforeComment cs).contains ']' then .list else .unclosed
  | '"' :: rest => quotedNode '"' rest
  | '\'' :: rest => quotedNode '\'' rest
  | '#' :: _ => .value []
  | _ =>
    let plain := Text.trimChars (beforeComment cs)
    if String.ofList plain ∈ ["~", "null", "Null", "NULL"] then .value [] else .value plain

/-- Cuts a line at the colon that a blank or nothing follows. -/
def splitEntry : (key : List Char) → List Char → Option (List Char × List Char)
  | _, [] => none
  | key, [':'] => some (key.reverse, [])
  | key, ':' :: c :: rest =>
    if Text.isBlank c then some (key.reverse, rest) else splitEntry (':' :: key) (c :: rest)
  | key, c :: rest => splitEntry (c :: key) rest

/-- Takes up an entry on a line, of a text with so many. -/
def put (m : Manifest) (lines line : Nat) (key : String) (n : Node) :
    Except ManifestError Manifest :=
  match n with
  | .unclosed => .error (.unclosed lines)
  | .list =>
    if key ∈ ["Package", "Entry", "LogLevel"] then .error (.listForValue line) else .ok m
  | .value text =>
    let value := String.ofList text
    .ok (match key with
      | "Package" => { m with package := value }
      | "Entry" => { m with entry := value }
      | "LogLevel" => { m with logLevel := value }
      | _ => m)

/-- What is wrong with a line that is no entry. -/
def refuse (lines line : Nat) (cs : List Char) : ManifestError :=
  match cs with
  | ['-'] => .listForEntries line
  | '-' :: ' ' :: _ => .listForEntries line
  | _ =>
    match node cs with
    | .unclosed => .unclosed lines
    | .list => .listForEntries line
    | .value text => .valueForEntries line (String.ofList text)

/-- A line that says nothing. -/
def isSilent (cs : List Char) : Bool := cs.isEmpty || cs.head? == some '#'

/-- Takes up lines, of which the first is numbered `line`. -/
def readFrom (lines : Nat) (m : Manifest) :
    (line : Nat) → List (List Char) → Except ManifestError Manifest
  | _, [] => .ok m
  | line, raw :: rest =>
    let cs := Text.trimChars raw
    if isSilent cs then readFrom lines m (line + 1) rest
    else match cs, splitEntry [] cs with
      | '-' :: ' ' :: _, _ => .error (refuse lines line cs)
      | '[' :: _, _ => .error (refuse lines line cs)
      | _, none => .error (refuse lines line cs)
      | _, some (key, value) =>
        match m.put lines line (String.ofList key) (node (Text.trimChars value)) with
        | .ok m => readFrom lines m (line + 1) rest
        | .error e => .error e

def read (text : String) : Except ManifestError Manifest :=
  let cs := text.toList
  readFrom (cs.count '\n') empty 1 (Text.linesFrom [] cs)

end Manifest

/-- The format of the command line. -/
instance : ManifestFormat where
  write m := .ok m.write
  read text := (Manifest.read text).mapError ManifestError.text

end Offside
