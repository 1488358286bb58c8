import Offside.Session

/-! The command line. -/
namespace Offside

/-- What is to be done with a source file. -/
inductive Use where
  | run
  | tokens (nested : Bool)
  | outline
  deriving DecidableEq, Repr

inductive Command where
  /-- Start a module. -/
  | init (name : String)
  /-- Do something with a file, or with the module's entry file if none is named. -/
  | use (how : Use) (file : String)
  /-- Talk to the user. -/
  | repl
  deriving DecidableEq, Repr

/-- A command, and the log level that was asked for. -/
structure Invocation where
  level : Option String
  command : Command
  deriving DecidableEq, Repr

namespace Invocation

/-- How to use the command line. -/
def usage : String :=
  Text.unlines [
    "usage: [--log-level LEVEL] run|tokens|ast|init|repl",
    "run [FILE]              run a file, or the module's entry file",
    "tokens [--dump] [FILE]  print the tokens of a file",
    "ast [FILE]              dump the syntax tree of a file",
    "init NAME               init a directory",
    "repl                    write and run a program interactively"]

/-- An option with its dashes taken off. -/
def option? (arg : String) : Option (List Char) :=
  match arg.toList with
  | '-' :: '-' :: name => if name.isEmpty then none else some name
  | '-' :: name => if name.isEmpty then none else some name
  | _ => none

/-- What comes after the equals sign of an option. -/
def valueAfter? (name : String) (option : List Char) : Option String :=
  match option.dropWhile (· != '=') with
  | '=' :: value =>
    if option.takeWhile (· != '=') = name.toList then some (String.ofList value) else none
  | _ => none

/-- The texts for yes and no. -/
def flagValue? (text : String) : Option Bool :=
  if text ∈ ["1", "t", "T", "true", "TRUE", "True"] then some true
  else if text ∈ ["0", "f", "F", "false", "FALSE", "False"] then some false
  else none

/-- The file that is named first, or none. -/
def firstArgument (args : List String) : String := args.headD ""

/-- The arguments of a command that takes no options. Two dashes may stand in front of them. -/
def plain? : List String → Option (List String)
  | "--" :: args => some args
  | arg :: args => if (option? arg).isSome then none else some (arg :: args)
  | [] => some []

/-- The arguments of a command that may be asked for nested records, as often as one likes. -/
def nested? (nested : Bool) : List String → Option (Bool × List String)
  | [] => some (nested, [])
  | "--" :: args => some (nested, args)
  | arg :: args =>
    match option? arg with
    | none => some (nested, arg :: args)
    | some option =>
      if option = "dump".toList then nested? true args
      else match (valueAfter? "dump" option).bind flagValue? with
        | some value => nested? value args
        | none => none

def command? : List String → Option Command
  | "init" :: args => (plain? args).map fun args => .init (firstArgument args)
  | "run" :: args => (plain? args).map fun args => .use .run (firstArgument args)
  | "ast" :: args => (plain? args).map fun args => .use .outline (firstArgument args)
  | "tokens" :: args =>
    (nested? false args).map fun (nested, args) => .use (.tokens nested) (firstArgument args)
  | "repl" :: args => (plain? args).map fun _ => .repl
  | _ => none

/-- Reads the arguments. The last log level counts. -/
def parseWith (level : Option String) : List String → Option Invocation
  | [] => none
  | [arg] => (command? [arg]).map (⟨level, ·⟩)
  | arg :: next :: args =>
    match option? arg with
    | none => (command? (arg :: next :: args)).map (⟨level, ·⟩)
    | some option =>
      if option = "log-level".toList then parseWith (some next) args
      else match valueAfter? "log-level" option with
        | some value => parseWith (some value) (next :: args)
        | none => none

def parse (args : List String) : Option Invocation := parseWith none args

/-- The level that applies before any module file is read. -/
def threshold (i : Invocation) : Except Failure Level :=
  match i.level with
  | none => .ok .default
  | some text =>
    match Level.parse text with
    | .ok level => .ok level
    | .error e => .error (.level e)

end Invocation

namespace Command

variable {m : Type → Type} [Monad m] [Files m]

/-- The level that a module file asks for. -/
def moduleLevel (manifest : Manifest) (level : Level) (given : Bool) : Except Failure Level :=
  if given || manifest.logLevel = "" then .ok level
  else match Level.parse manifest.logLevel with
    | .ok level => .ok level
    | .error e => .error (.level e)

/-- The file to use and the level to log at. Only without a file is the module file read, and its
level counts only if none was given. -/
def target (file : String) (level : Level) (given : Bool) : m (Except Failure (String × Level)) := do
  if file ≠ "" then return .ok (file, level)
  match ← Module.read "." with
  | .error e => return .error e
  | .ok manifest =>
    match moduleLevel manifest level given with
    | .error e => return .error e
    | .ok level => return .ok (manifest.entryFile, level)

/-- What is done with a source text. -/
def apply (how : Use) (file : String) (source : List Char) : Upshot :=
  match how with
  | .run => .run file source
  | .tokens nested => .tokens file source nested
  | .outline => .outline file source

/-- Carries out a command other than talking to the user, and says at which level to log. -/
def perform (command : Command) (level : Level) (given : Bool) : m (Level × Upshot) := do
  match command with
  | .repl => return (level, .print "" [])
  | .init name =>
    if name = "" then return (level, ⟨⟨"no module name provided\n", true, []⟩, none⟩)
    match ← Module.init "." name with
    | .ok () => return (level, .print "" [])
    | .error e => return (level, .fail e [])
  | .use how file =>
    match ← target file level given with
    | .error e => return (level, .fail e [])
    | .ok (file, level) =>
      match ← Module.readSource file with
      | .error e => return (level, .fail e [])
      | .ok source => return (level, apply how file source.toList)

/-- Reads the history that is kept in a directory. -/
def readHistory (home : String) : m History := do
  match ← Files.read (Path.join home History.fileName) with
  | .ok text => return History.read text
  | .error _ => return ⟨[]⟩

/-- Keeps the history in a directory, if that can be done. -/
def writeHistory (home : String) (h : History) : m Unit := do
  let _ ← Files.write (Path.join home History.fileName) h.write

end Command

/-- Carries out the arguments in a tree of files, with `input` to read from; the tree is where the
history is kept too. There is no report if a program takes more than `bound` steps. -/
def Invocation.carryOut (args : List String) (input : String) (bound : Nat) (files : FileTree) :
    Option (Report × FileTree) :=
  match parse args with
  | none => some (⟨usage, true, []⟩, files)
  | some i =>
    match i.threshold with
    | .error e => some (⟨e.text ++ "\n", true, []⟩, files)
    | .ok level =>
      match i.command with
      | .repl => do
        let (history, files) := (Command.readHistory "." : StateM FileTree History).run files
        let (report, last) ← Repl.converse level bound ⟨.empty, history⟩ (Text.lines input)
        let ((), files) := (Command.writeHistory "." last.history : StateM FileTree Unit).run files
        return (report, files)
      | command => do
        let ((level, upshot), files) :=
          (command.perform level i.level.isSome : StateM FileTree _).run files
        return (← upshot.complete level bound, files)

end Offside
