import Offside.Fault
import Offside.Heap.Bindings
import Offside.Heap.Value

/-! The heap: slots, the cells in them, and writing one slot's contents into another.

A slot keeps its cell's kind for ever. Writing into an object replaces its fields by copies, so that
two objects share nothing afterwards. -/
namespace Offside

/-- What a slot holds. An object's fields are slots of their own. -/
inductive Cell where
  | number (value : Float)
  | text (value : String)
  | truth (value : Bool)
  | character (code : Int)
  | object (cls : Class) (fields : Bindings)

namespace Cell

/-- The name of the type; an object's is that of its class. -/
def typeName : Cell → String
  | .number _ => "number"
  | .text _ => "string"
  | .truth _ => "boolean"
  | .character _ => "character"
  | .object cls _ => cls.name

end Cell

/-- Slots are numbered from zero in the order in which they were made. -/
structure Heap where
  cells : Array Cell

namespace Heap

def empty : Heap := ⟨#[]⟩

def size (h : Heap) : Nat := h.cells.size

def cell? (h : Heap) (s : Slot) : Option Cell := h.cells[s]?

/-- Puts a cell into a new slot. -/
def alloc (h : Heap) (c : Cell) : Slot × Heap := (h.size, ⟨h.cells.push c⟩)

/-- Puts a cell into a slot that there is already. -/
def write (h : Heap) (s : Slot) (c : Cell) : Heap := ⟨h.cells.setIfInBounds s c⟩

/-! ### Values on the heap -/

/-- Reads every field with `read`; one that cannot be read spoils all. -/
def readFields (read : Slot → Option Value) :
    List (String × Slot) → Option (List (String × Value))
  | [] => some []
  | (name, s) :: rest =>
    match read s, readFields read rest with
    | some value, some values => some ((name, value) :: values)
    | _, _ => none

/-- The value in a slot, if it is nested no deeper than `depth`. -/
def valueWithin (h : Heap) : (depth : Nat) → Slot → Option Value
  | 0, _ => none
  | depth + 1, s =>
    match h.cell? s with
    | none => none
    | some (.number value) => some (.number value)
    | some (.text value) => some (.text value)
    | some (.truth value) => some (.truth value)
    | some (.character code) => some (.character code)
    | some (.object cls fields) =>
      (readFields (h.valueWithin depth) fields.entries).map (.object cls)

/-- The value in a slot. Slots that do not refer to themselves are nested no deeper than there are
slots; of one that does refer to itself there is no value. -/
def value? (h : Heap) (s : Slot) : Option Value := h.valueWithin h.size s

mutual

/-- Puts a value into new slots, all of its fields included. -/
def store (h : Heap) : Value → Slot × Heap
  | .number value => h.alloc (.number value)
  | .text value => h.alloc (.text value)
  | .truth value => h.alloc (.truth value)
  | .character code => h.alloc (.character code)
  | .object cls fields =>
    let (entries, h) := h.storeFields fields
    h.alloc (.object cls ⟨entries⟩)

def storeFields (h : Heap) : List (String × Value) → List (String × Slot) × Heap
  | [] => ([], h)
  | (name, value) :: rest =>
    let (s, h) := h.store value
    let (entries, h) := h.storeFields rest
    ((name, s) :: entries, h)

end

/-- A new slot with the same value. -/
def copy (h : Heap) (s : Slot) : Option (Slot × Heap) := (h.value? s).map h.store

/-! ### Assignment -/

/-- What an assignment does to its target. -/
inductive Update where
  | keep
  | replace (c : Cell)
  /-- Give an object of the class copies of these fields and no others. -/
  | refill (cls : Class) (fields : List (String × Value))

/-- What assigning `source` to `target` does. Only contents of one kind fit each other, and of
objects only those of classes with one name. An object assigned to itself stays as it is. -/
def update (h : Heap) (target source : Slot) : Except Halt Update :=
  match h.cell? target, h.cell? source with
  | some (.number _), some (.number value) => .ok (.replace (.number value))
  | some (.text _), some (.text value) => .ok (.replace (.text value))
  | some (.truth _), some (.truth value) => .ok (.replace (.truth value))
  | some (.character _), some (.character code) => .ok (.replace (.character code))
  | some (.object cls _), some (.object other _) =>
    if cls.name ≠ other.name then .error (.fault (.classAssignment other.name cls.name))
    else if target = source then .ok .keep
    else match h.value? source with
      | some (.object _ fields) => .ok (.refill cls fields)
      | _ => .error .stuck
  | some into, some cell => .error (.fault (.assignment cell.typeName into.typeName))
  | _, _ => .error .stuck

def apply (h : Heap) (target : Slot) : Update → Heap
  | .keep => h
  | .replace c => h.write target c
  | .refill cls fields =>
    let (entries, h) := h.storeFields fields
    h.write target (.object cls ⟨entries⟩)

/-- Writes the contents of `source` into `target`. -/
def assign (h : Heap) (target source : Slot) : Except Halt Heap :=
  (h.update target source).map (h.apply target)

end Heap

end Offside
