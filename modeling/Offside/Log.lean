import Offside.Program.Parser.Basic
import Offside.Text.UpperCase

/-! The log: what happened, how loud it is, and who says so. -/
namespace Offside

/-- How loud an entry is, from quiet to loud. -/
inductive Level where
  | critical | error | warning | notice | info | debug | trace
  deriving DecidableEq, Repr

namespace Level

/-- The levels from quiet to loud. -/
def all : List Level := [.critical, .error, .warning, .notice, .info, .debug, .trace]

/-- The place of a level among them. -/
def loudness : Level → Nat
  | .critical => 0
  | .error => 1
  | .warning => 2
  | .notice => 3
  | .info => 4
  | .debug => 5
  | .trace => 6

def name : Level → String
  | .critical => "CRITICAL"
  | .error => "ERROR"
  | .warning => "WARNING"
  | .notice => "NOTICE"
  | .info => "INFO"
  | .debug => "DEBUG"
  | .trace => "TRACE"

/-- The first letter of the name. -/
def letter : Level → String
  | .critical => "C"
  | .error => "E"
  | .warning => "W"
  | .notice => "N"
  | .info => "I"
  | .debug => "D"
  | .trace => "T"

/-- With the level set to `threshold`, entries of this level are shown. -/
def shownAt (level threshold : Level) : Bool := level.loudness ≤ threshold.loudness

/-- The levels that are shown with the level set to `threshold`. -/
def shown (threshold : Level) : List Level := all.filter (·.shownAt threshold)

/-- The level that applies unless another is asked for. -/
def default : Level := .warning

/-- A level by its name, its letter or, from errors on, its number. -/
def ofUpper? : String → Option Level
  | "CRITICAL" | "C" => some .critical
  | "ERROR" | "E" | "0" => some .error
  | "WARNING" | "W" | "1" => some .warning
  | "NOTICE" | "N" | "2" => some .notice
  | "INFO" | "I" | "3" => some .info
  | "DEBUG" | "D" | "4" => some .debug
  | "TRACE" | "T" | "5" => some .trace
  | _ => none

end Level

/-- A text that names no level, in upper case. -/
structure UnknownLevel where
  text : String
  deriving DecidableEq, Repr

def UnknownLevel.message (e : UnknownLevel) : String := s!"couldn't parse log level {e.text}"

/-- The level that a text names, whatever its case. -/
def Level.parse (text : String) : Except UnknownLevel Level :=
  let upper := Text.upper text
  match ofUpper? upper with
  | some level => .ok level
  | none => .error ⟨upper⟩

/-- Who writes to the log. -/
inductive Speaker where
  | lexer | parser | interp | main
  deriving DecidableEq, Repr

def Speaker.name : Speaker → String
  | .lexer => "lexer"
  | .parser => "parser"
  | .interp => "interp"
  | .main => "main"

structure LogEntry where
  level : Level
  speaker : Speaker
  message : String
  deriving DecidableEq, Repr

namespace LogEntry

/-- The entry as the log prints it, without the time. -/
def line (e : LogEntry) : String := s!"{e.level.letter} | {e.speaker.name}: {e.message}\n"

/-- A token was made. -/
def ofToken (t : Token) : LogEntry := ⟨.trace, .lexer, s!"{t.label} at {t.span.start.text}"⟩

/-- A milestone was passed. -/
def ofMilestone (m : Milestone) : LogEntry := ⟨.trace, .parser, m.print⟩

end LogEntry

end Offside
