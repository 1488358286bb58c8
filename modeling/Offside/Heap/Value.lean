import Offside.Catalog
import Offside.Number.Render
import Offside.Text.Basic

/-! Values: what the contents of a slot amount to, with everything they refer to. -/
namespace Offside

/-- A value. A character is any code; the fields of an object ascend by name. -/
inductive Value where
  | number (value : Float)
  | text (value : String)
  | truth (value : Bool)
  | character (code : Int)
  | object (cls : Class) (fields : List (String × Value))

/-- The character with a code, or the replacement character if no character has it. -/
def characterOfCode (code : Int) : Char :=
  if 0 ≤ code ∧ code.toNat.isValidChar then Char.ofNat code.toNat else Text.replacement

namespace Value

mutual

/-- A value as the console shows it. An object is shown field by field, a line each. -/
def display : Value → String
  | .number value => Number.console value
  | .text value => value
  | .truth value => if value then "true" else "false"
  | .character code => (characterOfCode code).toString
  | .object _ fields => displayFields fields

def displayFields : List (String × Value) → String
  | [] => ""
  | (name, value) :: rest => name ++ " : " ++ display value ++ "\n" ++ displayFields rest

end

/-- Values one after the other, with nothing between them. -/
def render (values : List Value) : String := String.join (values.map display)

end Value

end Offside
