import Offside.Command

/-! The program: files, standard streams, and nothing else. -/
namespace Offside.Console

/-- The problem behind an error of the system. -/
def problemOf : IO.Error → FileProblem
  | .noFileOrDirectory .. => .missing
  | .inappropriateType .. => .notDirectory
  | .permissionDenied .. => .denied
  | e => .other (toString e)

/-- A file or a directory with this path can be opened. -/
def canOpen (path : String) : IO Bool := do
  try
    let _ ← IO.FS.Handle.mk path .read
    return true
  catch _ => return false

instance : Files IO where
  read path := do
    try
      let bytes ← IO.FS.readBinFile path
      return .ok (String.ofList (Text.decodeUtf8 bytes.toList))
    catch e =>
      if ← canOpen path then return .error ⟨.reading, path, .isDirectory⟩
      else return .error ⟨.opening, path, problemOf e⟩
  write path content := do
    try
      IO.FS.writeFile path content
      return .ok ()
    catch e =>
      if ← canOpen path then return .error ⟨.opening, path, .isDirectory⟩
      else return .error ⟨.opening, path, problemOf e⟩
  exists? := canOpen

/-- Prints what is to be printed and logs what is loud enough. -/
def publish (threshold : Level) (text : String) (log : List LogEntry) : IO Unit := do
  for entry in log do
    if entry.level.shownAt threshold then IO.eprint entry.line
  IO.print text
  (← IO.getStdout).flush

/-- How many steps a program takes between two looks at what it has written. -/
def stride : Nat := 4096

/-- Runs a machine to its end, and prints its records as they come. -/
partial def drive (c : Catalog) (m : Machine) : IO (Option RuntimeError) := do
  let (m, halt) := m.run c stride
  publish m.threshold (Text.unlines m.records.reverse) m.log.reverse
  match halt with
  | some h => return m.error? h
  | none => drive c { m with records := [], log := [] }

/-- Prints an upshot and runs its program, if it has one; whether that failed. -/
def present (threshold : Level) (u : Upshot) : IO Bool := do
  publish threshold u.report.text u.report.log
  match u.program with
  | none => return u.report.failed
  | some program =>
    publish threshold "" (Catalog.warnings program)
    match ← drive (.ofProgram program) (.start threshold) with
    | none => return false
    | some e =>
      publish threshold (e.text ++ "\n") []
      return true

/-- Talks to the user until there are no more lines or the user leaves. -/
partial def talk (threshold : Level) (r : Repl) : IO Repl := do
  publish threshold r.session.prompt []
  let line ← (← IO.getStdin).getLine
  match Text.lines line with
  | [] =>
    publish threshold "\n" []
    return r
  | line :: _ =>
    let (r, stays, upshot) := r.handle line
    let _ ← present threshold upshot
    if stays then talk threshold r else return r

/-- Carries out the arguments; whether that failed. -/
def carryOut (args : List String) : IO Bool := do
  match Invocation.parse args with
  | none =>
    IO.print Invocation.usage
    return true
  | some i =>
    match i.threshold with
    | .error e =>
      IO.println e.text
      return true
    | .ok level =>
      match i.command with
      | .repl =>
        let home := (← IO.getEnv "HOME").getD "."
        let last ← talk level ⟨.empty, ← Command.readHistory home⟩
        Command.writeHistory home last.history
        return false
      | command =>
        let (level, upshot) ← command.perform level i.level.isSome
        present level upshot

end Offside.Console

def main (args : List String) : IO UInt32 := do
  return if ← Offside.Console.carryOut args then 1 else 0
