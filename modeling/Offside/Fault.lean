import Offside.Program.Print

/-! What stops a run. -/
namespace Offside

/-- What went wrong. Types are given by name. -/
inductive Fault where
  /-- No method serves a call, which is qualified or not. -/
  | noMethod (object : Option String) (method : String) (arguments : List String)
  | noConstructor (cls : String) (arguments : List String)
  | noClass (name : String)
  | noType (name : String)
  | noVariable (name : String)
  | argumentCount (expected got : Nat)
  /-- A call that stands for a value returned none. -/
  | noReturn (call : Call)
  | assignment (source target : String)
  | classAssignment (source target : String)
  | negation (type : String)
  | logic (op : LogicOp) (left right : String)
  | comparison (op : CompareOp) (left right : String)
  | arithmetic (op : ArithOp) (left right : String)
  | divisionByZero (quotient : Expr)
  | notAnIterator (source : Expr) (type : String)
  | notIterable (cls : String)
  | noGetNext (cls : String)
  | getNextNotBoolean (cls : String)
  | condition (condition : Expr) (type : String)
  | noEntry
  deriving Repr

namespace Fault

/-- A name with argument types after it. -/
def signature (name : String) (arguments : List String) : String :=
  s!"{name}({commaList arguments})"

/-- The group that a fault belongs to. -/
def kind : Fault → String
  | .noMethod .. | .noConstructor .. => "unresolved method"
  | .noClass .. => "unresolved class"
  | .noType .. => "unresolved type"
  | .noVariable .. => "unresolved variable"
  | .argumentCount .. => "argument count"
  | .noReturn .. => "return count"
  | .assignment .. | .classAssignment .. | .negation .. | .logic .. | .comparison ..
  | .arithmetic .. => "type mismatch"
  | .divisionByZero .. => "division by zero"
  | .notAnIterator .. | .notIterable .. | .noGetNext .. | .getNextNotBoolean .. =>
    "malformed iterator"
  | .condition .. => "non-boolean condition"
  | .noEntry => "missing entry point"

def message : Fault → String
  | .noMethod none method arguments => s!"no matching method {signature method arguments}"
  | .noMethod (some object) method arguments =>
    s!"no matching method {object}.{signature method arguments}"
  | .noConstructor cls arguments =>
    s!"class {cls} has no constructor " ++ signature "construct" arguments
  | .noClass name => s!"no class named {name}"
  | .noType name => s!"unknown type {name}"
  | .noVariable name => s!"no variable named {name}"
  | .argumentCount expected got => s!"expected {expected} arguments, got {got}"
  | .noReturn call => s!"{call.print} returned no value"
  | .assignment source target => s!"cannot assign a {source} to a {target}"
  | .classAssignment source target =>
    s!"cannot assign an object of class {source} to one of class {target}"
  | .negation type => s!"cannot negate a {type}"
  | .logic op left right => s!"cannot {op.print} a {left} and a {right}"
  | .comparison op left right => s!"cannot compare a {left} {op.print} a {right}"
  | .arithmetic op left right => s!"cannot apply {op.print} to a {left} and a {right}"
  | .divisionByZero quotient => s!"division by zero in {quotient.print}"
  | .notAnIterator source type =>
    s!"loop source {source.print} is a {type}, not an iterator"
  | .notIterable cls => s!"class {cls} does not implement iterator"
  | .noGetNext cls => s!"class {cls} has no getNext() returning two values"
  | .getNextNotBoolean cls => s!"getNext() of {cls} must return a boolean first"
  | .condition e type => s!"condition {e.print} is a {type}"
  | .noEntry => "no shared method start() found"

end Fault

/-- A fault, and the statement that was being executed, if any was. -/
structure RuntimeError where
  fault : Fault
  span : Option Span

def RuntimeError.text (e : RuntimeError) : String :=
  let reason := s!"{e.fault.kind}: {e.fault.message}"
  match e.span with
  | some span => s!"{reason}. {span.text}"
  | none => reason

/-- Why a machine takes no further step. -/
inductive Halt where
  /-- The run is over. -/
  | finished
  | fault (fault : Fault)
  /-- The state makes no sense: a slot without a cell, or an object inside itself. -/
  | stuck

end Offside
