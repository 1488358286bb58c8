/-! Places in source files. -/
namespace Offside

/-- A character's place. Lines and columns count from one, columns in characters. -/
structure Position where
  line : Nat
  column : Nat
  file : String
  deriving DecidableEq, Repr

namespace Position

/-- The next place on the line. -/
def right (p : Position) : Position := { p with column := p.column + 1 }

/-- Just before the first place of the next line. -/
def nextLine (p : Position) : Position := { p with line := p.line + 1, column := 0 }

/-- The file's name, or a stand-in for a file that has none. -/
def fileText (p : Position) : String := if p.file = "" then "<unknown>" else p.file

def text (p : Position) : String := s!"{p.fileText}:{p.line}:{p.column}"

end Position

/-- From a first character to a last one. -/
structure Span where
  start : Position
  stop : Position
  deriving DecidableEq, Repr

namespace Span

/-- One character. -/
def single (p : Position) : Span := ⟨p, p⟩

def text (s : Span) : String := s!"{s.start.text}-{s.stop.line}:{s.stop.column}"

end Span

end Offside
