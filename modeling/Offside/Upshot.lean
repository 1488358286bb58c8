import Offside.Machine.Run
import Offside.Module.Basic
import Offside.Program.Outline
import Offside.Text.Basic

/-! What a command or a line at the prompt leads to: something to print, and perhaps a program to run
after that. -/
namespace Offside

/-- Reads a source text as a program, and logs what was met on the way. -/
def Program.load (file : String) (source : List Char) : Except Failure Program × List LogEntry :=
  let scanner := Scanner.scan file source
  let scanned := scanner.made.map LogEntry.ofToken
  match scanner.result with
  | .error e => (.error (.lex e), scanned)
  | .ok tokens =>
    let parsed := Parsed.ofTokens tokens
    let log := scanned ++ parsed.milestones.map LogEntry.ofMilestone
    match parsed.program with
    | .error e => (.error (.parse e), log)
    | .ok program => (.ok program, log)

/-- What was printed and logged, and whether it ended in an error. -/
structure Report where
  text : String
  failed : Bool
  log : List LogEntry

structure Upshot where
  /-- What has been printed and logged so far. -/
  report : Report
  /-- What is to be run next. -/
  program : Option Program

/-- The records and the error of a run, a line each. -/
def Outcome.text (o : Outcome) : String :=
  Text.unlines (o.records ++ (o.error.map RuntimeError.text).toList)

namespace Upshot

def print (text : String) (log : List LogEntry) : Upshot := ⟨⟨text, false, log⟩, none⟩

/-- Prints why something failed. -/
def fail (failure : Failure) (log : List LogEntry) : Upshot :=
  ⟨⟨failure.text ++ "\n", true, log⟩, none⟩

/-- The program of a source text is to be run. -/
def run (file : String) (source : List Char) : Upshot :=
  match Program.load file source with
  | (.error failure, log) => fail failure log
  | (.ok program, log) =>
    let counts := s!"{file}: {program.interfaces.length} interfaces, {program.classes.length} classes"
    ⟨⟨"", false, log ++ [⟨.debug, .main, counts⟩]⟩, some program⟩

/-- The program of a source text is to be printed as nested records. -/
def outline (file : String) (source : List Char) : Upshot :=
  match Program.load file source with
  | (.error failure, log) => fail failure log
  | (.ok program, log) => print program.outline log

/-- The tokens of a source text are to be printed, one a line or as nested records. -/
def tokens (file : String) (source : List Char) (nested : Bool) : Upshot :=
  let scanner := Scanner.scan file source
  let log := scanner.made.map LogEntry.ofToken
  match scanner.result with
  | .error e => fail (.lex e) log
  | .ok tokens =>
    print (if nested then Token.outlineAll tokens else String.join (tokens.map Token.listing)) log

/-- Runs the program, if there is one, in at most `bound` steps. Entries louder than the threshold
are left out of the log. -/
def complete (u : Upshot) (threshold : Level) (bound : Nat) : Option Report :=
  let heard (log : List LogEntry) := log.filter (·.level.shownAt threshold)
  match u.program with
  | none => some { u.report with log := heard u.report.log }
  | some program =>
    (program.run threshold bound 1).map fun outcome =>
      { text := u.report.text ++ outcome.text
        failed := outcome.error.isSome
        log := heard (u.report.log ++ outcome.log) }

end Upshot

end Offside
