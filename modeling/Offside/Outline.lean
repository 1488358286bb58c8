import Offside.Text.Quoted

/-! Nested records as indented text.

A record shows its fields one below the other, those that hold nothing left out, and a list its
items. Whether a name stands in front of the brace is up to whoever builds the outline. -/
namespace Offside

inductive Outline where
  | atom (text : String)
  | record (name : String) (fields : List (String × Outline))
  | list (name : String) (items : List Outline)

namespace Outline

/-- Two spaces a level. -/
def indentation (depth : Nat) : String := String.ofList (List.replicate (2 * depth) ' ')

mutual

def render (depth : Nat) : Outline → String
  | .atom text => text
  | .record name fields =>
    name ++ "\x7b\n" ++ renderFields (depth + 1) fields ++ indentation depth ++ "\x7d"
  | .list name items =>
    name ++ "\x7b\n" ++ renderItems (depth + 1) items ++ indentation depth ++ "\x7d"

def renderFields (depth : Nat) : List (String × Outline) → String
  | [] => ""
  | (label, value) :: rest =>
    indentation depth ++ label ++ ": " ++ render depth value ++ ",\n" ++ renderFields depth rest

def renderItems (depth : Nat) : List Outline → String
  | [] => ""
  | item :: rest => indentation depth ++ render depth item ++ ",\n" ++ renderItems depth rest

end

/-! ### Fields that may hold nothing -/

/-- A text in quotes; the empty one is nothing. -/
def text? (s : String) : Option Outline := if s = "" then none else some (.atom (Text.quote s))

/-- A number; zero is nothing. -/
def number? (n : Nat) : Option Outline := if n = 0 then none else some (.atom (toString n))

/-- A flag; one that is not set is nothing. -/
def flag? (b : Bool) : Option Outline := if b then some (.atom "true") else none

/-- A list; the empty one is nothing. -/
def list? (name : String) (items : List Outline) : Option Outline :=
  if items.isEmpty then none else some (.list name items)

/-- A record of the fields that hold something. -/
def recordOf (name : String) (fields : List (String × Option Outline)) : Outline :=
  .record name (fields.filterMap fun (label, value) => value.map (label, ·))

end Outline

end Offside
