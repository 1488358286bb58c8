/-! Names bound to slots, in the order of the names. -/
namespace Offside

/-- A place on the heap. -/
abbrev Slot := Nat

/-- Each name at most once, ascending by code points. -/
structure Bindings where
  entries : List (String × Slot)
  deriving DecidableEq, Repr

namespace Bindings

def empty : Bindings := ⟨[]⟩

/-- The slot that a name is bound to. -/
def get? (b : Bindings) (name : String) : Option Slot := go b.entries
where
  go : List (String × Slot) → Option Slot
    | [] => none
    | (other, slot) :: rest => if other = name then some slot else go rest

def contains (b : Bindings) (name : String) : Bool := (b.get? name).isSome

/-- Binds a name, whether it was bound or not. -/
def insert (b : Bindings) (name : String) (slot : Slot) : Bindings := ⟨go b.entries⟩
where
  go : List (String × Slot) → List (String × Slot)
    | [] => [(name, slot)]
    | (other, old) :: rest =>
      if other = name then (name, slot) :: rest
      else if name < other then (name, slot) :: (other, old) :: rest
      else (other, old) :: go rest

end Bindings

end Offside
