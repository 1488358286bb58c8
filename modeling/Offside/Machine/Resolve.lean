import Offside.Heap.Basic

/-! Which types accept which values, and which method or constructor serves a call: the first one
that can, in the order of declaration. -/
namespace Offside

namespace Catalog

/-- A parameter of the named type takes the value. Characters take numbers too; an interface takes
objects of the classes that implement it. -/
def accepts (c : Catalog) (type : String) (value : Cell) : Except Fault Bool :=
  match type, value with
  | "number", .number _ => .ok true
  | "number", _ => .ok false
  | "string", .text _ => .ok true
  | "string", _ => .ok false
  | "boolean", .truth _ => .ok true
  | "boolean", _ => .ok false
  | "character", .character _ => .ok true
  | "character", .number _ => .ok true
  | "character", _ => .ok false
  | type, value =>
    if (c.class? type).isSome then
      match value with
      | .object cls _ => .ok (cls.name = type)
      | _ => .ok false
    else if (c.interface? type).isSome then
      match value with
      | .object cls _ => .ok (cls.implements type)
      | _ => .ok false
    else .error (.noType type)

/-- The parameters take the values one by one. The first that does not settles it. -/
def acceptsEach (c : Catalog) : List Decl → List Cell → Except Fault Bool
  | [], [] => .ok true
  | p :: params, v :: values => do
    if ← c.accepts p.type v then c.acceptsEach params values else return false
  | _, _ => .ok false

/-- As many parameters as values, and each takes its own. -/
def acceptsAll (c : Catalog) (params : List Decl) (values : List Cell) : Except Fault Bool :=
  if params.length = values.length then c.acceptsEach params values else .ok false

/-- The method serves a call of the name whose returns go into `targets` variables. A call that
keeps nothing does not mind how much is returned. -/
def serves (c : Catalog) (m : Method) (name : String) (values : List Cell) (targets : Nat) :
    Except Fault Bool :=
  if m.header.name ≠ name then .ok false
  else match m.action with
    | .write => .ok true
    | .run .. => do
      if ← c.acceptsAll m.header.parameters values then
        return targets = 0 ∨ targets = m.header.returns.length
      else return false

/-- The first method that serves a call; `sharedOnly` passes over the others. -/
def findMethod (c : Catalog) (name : String) (values : List Cell) (targets : Nat)
    (sharedOnly : Bool) : List Method → Except Fault (Option Method)
  | [] => .ok none
  | m :: rest => do
    if sharedOnly && !m.isShared then c.findMethod name values targets sharedOnly rest
    else if ← c.serves m name values targets then return some m
    else c.findMethod name values targets sharedOnly rest

/-- The first constructor that takes the values. -/
def findConstructor (c : Catalog) (values : List Cell) :
    List ConstructorDecl → Except Fault (Option ConstructorDecl)
  | [] => .ok none
  | k :: rest => do
    if ← c.acceptsAll k.parameters values then return some k
    else c.findConstructor values rest

/-- What a variable of the named type starts with. -/
def initial (c : Catalog) (type : String) : Except Fault Cell :=
  match type with
  | "number" => .ok (.number 0)
  | "string" => .ok (.text "")
  | "boolean" => .ok (.truth false)
  | "character" => .ok (.character ' '.toNat)
  | type =>
    match c.class? type with
    | some cls => .ok (.object cls .empty)
    | none => .error (.noType type)

end Catalog

end Offside
