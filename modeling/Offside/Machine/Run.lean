import Offside.Machine.Step

/-! Runs: steps one after the other, until one of them is the last. -/
namespace Offside

namespace Machine

/-- Before the first step. -/
def start (threshold : Level) : Machine where
  heap := .empty
  frame := .outermost
  here := none
  task := .enter
  stack := []
  records := []
  threshold
  log := []

/-- Before the first step of another run, which adds to the records and to the log. -/
def restart (m : Machine) : Machine := { start m.threshold with records := m.records, log := m.log }

/-- At most `bound` steps. Why there are no more comes second; without a reason there may be. -/
def run (c : Catalog) : (bound : Nat) → Machine → Machine × Option Halt
  | 0, m => (m, none)
  | bound + 1, m =>
    match (Exec.step c).run m with
    | .ok () m => run c bound m
    | .error h m => (m, some h)

/-- The error that a halted machine reports. -/
def error? (m : Machine) : Halt → Option RuntimeError
  | .fault f => some ⟨f, m.here⟩
  | .finished | .stuck => none

end Machine

/-- The entries about a program's repeated classes. -/
def Catalog.warnings (p : Program) : List LogEntry :=
  (Catalog.repeated p).map fun name =>
    ⟨.warning, .interp, s!"class {name} is declared more than once, using the first"⟩

/-- A run that is over. -/
structure Outcome where
  /-- What was written to the console, in order. -/
  records : List String
  error : Option RuntimeError
  /-- What was logged, in order. -/
  log : List LogEntry

/-- Runs a program as often as `times` says, one run after the other, and reports the last one's
error. There is no outcome if some run takes more than `bound` steps. -/
def Program.run (p : Program) (threshold : Level) (bound times : Nat) : Option Outcome :=
  go times none (Machine.start threshold)
where
  go : Nat → Option RuntimeError → Machine → Option Outcome
    | 0, error, m =>
      some ⟨m.records.reverse, error, Catalog.warnings p ++ m.log.reverse⟩
    | times + 1, _, m =>
      match m.restart.run (Catalog.ofProgram p) bound with
      | (_, none) => none
      | (m, some h) => go times (m.error? h) m

end Offside
