import Offside.Heap.Basic
import Offside.Log

/-! The state of a run, and the small steps that the larger ones are made of.

A machine has one task at a time and a stack of work that is waiting for it. Tasks come from the
program's statements and expressions; a task that is done hands what it got to the work on top of
the stack. -/
namespace Offside

/-- The scope of one call. -/
structure Frame where
  locals : Bindings
  /-- The object whose method or constructor runs, if it is one's. -/
  object : Option Slot
  cls : Class

/-- The scope around the first call. -/
def Frame.outermost : Frame := ⟨.empty, none, .bare ""⟩

/-- A loop with a variable. -/
structure Loop where
  name : String
  source : Expr
  body : List Stmt
  span : Span

/-- What to do with arguments once they are evaluated. -/
inductive Goal where
  /-- Call a method, whose returns go into so many variables. -/
  | call (object : Option String) (method : String) (targets : Nat)
  /-- Make an object. -/
  | create (cls : Class)

inductive Task where
  /-- Find the entry method and call it. -/
  | enter
  | run (body : List Stmt)
  | eval (e : Expr)
  /-- Hand over a value. -/
  | value (s : Slot)
  /-- Hand over what a call returned. -/
  | values (slots : List Slot)

/-- Work that waits for a task. -/
inductive Pending where
  /-- The statements after the one that runs. -/
  | rest (body : List Stmt)
  /-- A value to be assigned. -/
  | store (target : Slot)
  | negate
  /-- A left operand. -/
  | left (op : Operator) (left right : Expr)
  /-- A right operand; the left one's slot is known. -/
  | right (op : Operator) (left right : Expr) (s : Slot)
  /-- An argument. Those before it are known, last first. -/
  | argument (before : List Slot) (after : List Expr) (goal : Goal)
  /-- The returns of a call that stands for a value. -/
  | single (call : Call)
  /-- The returns of a call that go into variables. -/
  | receive (call : Call) (targets : List String) (span : Span)
  /-- The condition of a branch. -/
  | choose (condition : Expr) (yes : List Stmt) (no : Option (List Stmt))
  /-- The condition of a loop without a variable. -/
  | test (source : Expr) (body : List Stmt) (span : Span)
  /-- The body of a loop without a variable. -/
  | again (source : Expr) (body : List Stmt) (span : Span)
  /-- The first source of a loop with a variable, whose slot is known. -/
  | source (loop : Loop) (target : Slot)
  /-- A later source of a loop that records its condition. -/
  | record (loop : Loop) (target : Slot)
  /-- The body of a loop that records its condition. -/
  | recordAgain (loop : Loop) (target : Slot)
  /-- What an iterator gives next. -/
  | item (loop : Loop) (iterator : Slot) (cls : Class) (getNext : Method)
  /-- The body of a loop over an iterator. -/
  | itemAgain (loop : Loop) (iterator : Slot) (cls : Class) (getNext : Method)
  /-- The body of a method; what it returns, and the caller's scope and place. -/
  | leave (returns : List Decl) (frame : Frame) (span : Option Span)
  /-- The body of a constructor of an object, and the caller's scope and place. -/
  | built (object : Slot) (frame : Frame) (span : Option Span)

structure Machine where
  heap : Heap
  frame : Frame
  /-- The statement being executed. -/
  here : Option Span
  task : Task
  stack : List Pending
  /-- What was written to the console, last first. -/
  records : List String
  /-- Log entries louder than this are not kept. -/
  threshold : Level
  /-- Log entries, last first. -/
  log : List LogEntry

/-- A step of a machine: it changes the machine, and may be the last one. -/
abbrev Exec := EStateM Halt Machine

namespace Exec

variable {α : Type}

def fault (f : Fault) : Exec α := throw (.fault f)

def stuck : Exec α := throw .stuck

/-- Goes on with what is there, and is stuck with what is not. -/
def orStuck : Option α → Exec α
  | some a => return a
  | none => stuck

/-- Goes on, or stops for the reason given. -/
def orHalt : Except Halt α → Exec α
  | .ok a => return a
  | .error h => throw h

/-- Goes on, or stops with a fault. -/
def orFault : Except Fault α → Exec α
  | .ok a => return a
  | .error f => fault f

/-! ### The parts of a machine -/

def setTask (t : Task) : Exec Unit := modify fun m => { m with task := t }

def push (p : Pending) : Exec Unit := modify fun m => { m with stack := p :: m.stack }

/-- Takes the work on top of the stack. A run with none left is over. -/
def pop : Exec Pending := do
  match (← get).stack with
  | p :: rest => modify fun m => { m with stack := rest }; return p
  | [] => throw .finished

/-- Works on `t` next, and on `p` with what comes of it. -/
def await (p : Pending) (t : Task) : Exec Unit := do
  push p
  setTask t

def moveTo (span : Option Span) : Exec Unit := modify fun m => { m with here := span }

def frame : Exec Frame := do return (← get).frame

def setFrame (f : Frame) : Exec Unit := modify fun m => { m with frame := f }

def write (record : String) : Exec Unit := modify fun m => { m with records := record :: m.records }

/-- Adds to the log what is to be kept of it. -/
def note (level : Level) (message : Unit → String) : Exec Unit :=
  modify fun m =>
    if level.shownAt m.threshold then { m with log := ⟨level, .interp, message ()⟩ :: m.log } else m

/-! ### The heap -/

def cell (s : Slot) : Exec Cell := do orStuck ((← get).heap.cell? s)

def value (s : Slot) : Exec Value := do orStuck ((← get).heap.value? s)

/-- Changes the heap. What was read from it before stays as it was, so that nobody else holds the
heap while it changes and the change is made in place. -/
def onHeap (f : Heap → α × Heap) : Exec α :=
  modifyGet fun m =>
    let (a, heap) := f m.heap
    (a, { m with heap })

def alloc (c : Cell) : Exec Slot := onHeap (·.alloc c)

def copy (s : Slot) : Exec Slot := do
  let v ← value s
  onHeap (·.store v)

def assign (target source : Slot) : Exec Unit := do
  let u ← orHalt ((← get).heap.update target source)
  onHeap fun h => ((), h.apply target u)

/-! ### Variables -/

/-- The fields of the object whose code runs. -/
def ownFields : Exec Bindings := do
  match (← frame).object with
  | none => return .empty
  | some s =>
    match ← cell s with
    | .object _ fields => return fields
    | _ => stuck

/-- The slot of a variable: a local one first, then a field. -/
def find? (name : String) : Exec (Option Slot) := do
  match (← frame).locals.get? name with
  | some s => return some s
  | none => return (← ownFields).get? name

def lookup (name : String) : Exec Slot := do
  match ← find? name with
  | some s => return s
  | none => fault (.noVariable name)

def setLocal (name : String) (s : Slot) : Exec Unit := do
  let f ← frame
  setFrame { f with locals := f.locals.insert name s }

/-- Binds a field of an object to another slot. -/
def setField (object : Slot) (name : String) (s : Slot) : Exec Unit := do
  match ← cell object with
  | .object cls fields =>
    onHeap fun h => ((), h.write object (.object cls (fields.insert name s)))
  | _ => stuck

/-- Binds a variable that there is already to another slot. -/
def rebind (name : String) (s : Slot) : Exec Unit := do
  let f ← frame
  if f.locals.contains name then setLocal name s
  else setField (← orStuck f.object) name s

end Exec

end Offside
