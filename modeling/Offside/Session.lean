import Offside.Upshot

/-! A program written line by line at a prompt. A line that starts with a colon is a command, any
other one is the program's next line. -/
namespace Offside

/-- The lines of the program so far. -/
structure Session where
  lines : List String
  deriving DecidableEq, Repr

namespace Session

def empty : Session := ⟨[]⟩

/-- The program's text. -/
def source (s : Session) : String := Text.unlines s.lines

/-- What the next line is asked for with. -/
def prompt (s : Session) : String := if s.lines.isEmpty then "tran> " else "....> "

/-- The file name in the positions of a program at the prompt. -/
def file : String := "<repl>"

def help : String :=
  Text.unlines [
    "lines are collected into a program.",
    ":run    run the program collected so far",
    ":ast    print the syntax tree of the program",
    ":list   print the program",
    ":reset  forget the program",
    ":quit   exit"]

/-- The lower case of a letter, as far as that is one of `a` to `z`. Two letters outside ASCII have
such a lower case as well. -/
def lowerLetter (c : Char) : Char :=
  if c = '\u0130' then 'i' else if c = '\u212A' then 'k' else c.toLower

inductive Command where
  | quit | reset | list | ast | run | help | unknown
  deriving DecidableEq, Repr

/-- The command on a line, whatever its case. -/
def command? (line : String) : Option Command :=
  match Text.trimChars line.toList with
  | ':' :: name =>
    some (match String.ofList (name.map lowerLetter) with
      | "quit" => .quit
      | "reset" => .reset
      | "list" => .list
      | "ast" => .ast
      | "run" => .run
      | "help" => .help
      | _ => .unknown)
  | _ => none

/-- What a line does: the session after it, whether the user stays, and what comes of it. -/
def handle (s : Session) (line : String) : Session × Bool × Upshot :=
  let quiet := Upshot.print "" []
  match command? line with
  | none => (⟨s.lines ++ [line]⟩, true, quiet)
  | some .quit => (s, false, quiet)
  | some .reset => (empty, true, quiet)
  | some .list => (s, true, .print s.source [])
  | some .ast => (s, true, .outline file s.source.toList)
  | some .run => (s, true, .run file s.source.toList)
  | some .help => (s, true, .print help [])
  | some .unknown => (s, true, .print "unknown command. Type :help for a list.\n" [])

end Session

/-! ### History -/

/-- The lines entered, this time and before. -/
structure History where
  lines : List String
  deriving DecidableEq, Repr

namespace History

/-- Where the history is kept. -/
def fileName : String := ".tran_history"

/-- How many lines are remembered. -/
def limit : Nat := 1000

/-- Forgets the oldest lines past the limit. -/
def cut (lines : List String) : List String := lines.drop (lines.length - limit)

def read (text : String) : History := ⟨cut (Text.lines text)⟩

def write (h : History) : String := Text.unlines h.lines

/-- Remembers a line, unless it is blank or the same as the one before it. -/
def add (h : History) (line : String) : History :=
  if Text.trim line = "" || h.lines.getLast? = some line then h else ⟨cut (h.lines ++ [line])⟩

end History

/-! ### A whole conversation -/

/-- A session with its history. -/
structure Repl where
  session : Session
  history : History

namespace Repl

/-- Takes a line. -/
def handle (r : Repl) (line : String) : Repl × Bool × Upshot :=
  let (session, stays, upshot) := r.session.handle line
  (⟨session, r.history.add line⟩, stays, upshot)

/-- Takes lines up to the one that leaves or the last one. Each prompt is printed before its line,
and at the end of the lines as well. -/
def converse (threshold : Level) (bound : Nat) (r : Repl) : List String → Option (Report × Repl)
  | [] => some (⟨r.session.prompt ++ "\n", false, []⟩, r)
  | line :: rest => do
    let (next, stays, upshot) := r.handle line
    let report ← upshot.complete threshold bound
    let text := r.session.prompt ++ report.text
    if stays then
      let (later, last) ← converse threshold bound next rest
      return (⟨text ++ later.text, false, report.log ++ later.log⟩, last)
    else return (⟨text, false, report.log⟩, next)

end Repl

end Offside
