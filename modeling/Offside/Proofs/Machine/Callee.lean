import Offside.Proofs.Machine.World

/-! What a call comes to, apart from calling it.

A call looks for its method and then invokes it; a creation looks for its constructor and then
constructs. Looking is a local action of its own here. -/
namespace Offside

/-- How a method is reached. -/
inductive Way where
  /-- A run starts with it. -/
  | entry
  /-- A call without a qualifier, from code that runs without an object. -/
  | ownShared
  /-- A call without a qualifier, from code that runs on an object. -/
  | ownObject
  /-- A call qualified by a class. -/
  | ofClass
  /-- A call qualified by a variable. -/
  | ofVariable
  /-- A loop asks an iterator for its next item. -/
  | next
  deriving DecidableEq

/-- A method as a call reaches it. -/
structure Callee where
  way : Way
  cls : Class
  object : Option Slot
  method : Method

namespace Exec

/-- The method that a call without a qualifier reaches. -/
def calleeOwn (c : Catalog) (name : String) (targets : Nat) (slots : List Slot) : Exec Callee := do
  let f ← frame
  let values ← cells slots
  match ← resolve c f.cls name values targets f.object.isNone with
  | some m => return ⟨if f.object.isNone then .ownShared else .ownObject, f.cls, f.object, m⟩
  | none => fault (.noMethod none name (values.map Cell.typeName))

/-- The method that a call qualified by a variable reaches. -/
def calleeVariable (c : Catalog) (object name : String) (targets : Nat) (slots : List Slot) :
    Exec Callee := do
  let values ← cells slots
  let unresolved := Fault.noMethod (some object) name (values.map Cell.typeName)
  match ← find? object with
  | none => fault unresolved
  | some s =>
    match ← cell s with
    | .object cls _ =>
      match ← resolve c cls name values targets false with
      | some m => return ⟨.ofVariable, cls, some s, m⟩
      | none => fault unresolved
    | _ => fault unresolved

/-- The method that a qualified call reaches. -/
def calleeOn (c : Catalog) (object name : String) (targets : Nat) (slots : List Slot) :
    Exec Callee := do
  match c.class? object with
  | none => calleeVariable c object name targets slots
  | some cls =>
    match ← resolve c cls name (← cells slots) targets true with
    | some m => return ⟨.ofClass, cls, none, m⟩
    | none => calleeVariable c object name targets slots

/-- The method that a call reaches. -/
def callee (c : Catalog) (object : Option String) (name : String) (targets : Nat)
    (slots : List Slot) :
    Exec Callee :=
  match object with
  | none => calleeOwn c name targets slots
  | some object => calleeOn c object name targets slots

/-- The constructor that makes an object from these arguments; a class may do without. -/
def maker (c : Catalog) (cls : Class) (slots : List Slot) : Exec (Option ConstructorDecl) := do
  let values ← cells slots
  let unresolved := Fault.noConstructor cls.name (values.map Cell.typeName)
  if cls.constructors.isEmpty then
    if slots.isEmpty then return none else fault unresolved
  else match ← orFault (c.findConstructor values cls.constructors) with
    | some k => return some k
    | none => fault unresolved

/-- Calls a method on the object that it was reached with. -/
def invokeCallee (c : Catalog) (slots : List Slot) (t : Callee) : Exec Unit :=
  invoke c t.cls t.object t.method slots

/-! ### Looking comes first -/

theorem callOwn_eq (c : Catalog) (name : String) (targets : Nat) (slots : List Slot) :
    callOwn c name targets slots = calleeOwn c name targets slots >>= invokeCallee c slots := by
  unfold callOwn calleeOwn
  simp only [bind_assoc]
  apply bind_congr
  intro f
  apply bind_congr
  intro values
  apply bind_congr
  intro found
  cases found <;> rfl

theorem callVariable_eq (c : Catalog) (object name : String) (targets : Nat) (slots : List Slot) :
    callVariable c object name targets slots =
      calleeVariable c object name targets slots >>= invokeCallee c slots := by
  unfold callVariable calleeVariable
  simp only [bind_assoc]
  apply bind_congr
  intro values
  apply bind_congr
  intro found
  cases found with
  | none => rfl
  | some s =>
    simp only [bind_assoc]
    apply bind_congr
    intro cell
    cases cell with
    | object cls fields =>
      simp only [bind_assoc]
      apply bind_congr
      intro found
      cases found <;> rfl
    | _ => rfl

theorem callOn_eq (c : Catalog) (object name : String) (targets : Nat) (slots : List Slot) :
    callOn c object name targets slots =
      calleeOn c object name targets slots >>= invokeCallee c slots := by
  unfold callOn calleeOn
  cases c.class? object with
  | none => exact callVariable_eq c object name targets slots
  | some cls =>
    simp only [bind_assoc]
    apply bind_congr
    intro values
    apply bind_congr
    intro found
    cases found with
    | none => exact callVariable_eq c object name targets slots
    | some m => rfl

theorem reach_call_eq (c : Catalog) (slots : List Slot) (object : Option String) (name : String)
    (targets : Nat) :
    reach c slots (.call object name targets) =
      callee c object name targets slots >>= invokeCallee c slots := by
  cases object with
  | none => exact callOwn_eq c name targets slots
  | some object => exact callOn_eq c object name targets slots

theorem reach_create_eq (c : Catalog) (slots : List Slot) (cls : Class) :
    reach c slots (.create cls) = maker c cls slots >>= fun k => construct c cls k slots := by
  show create c cls slots = _
  unfold create maker
  simp only [bind_assoc]
  apply bind_congr
  intro values
  by_cases hnone : cls.constructors.isEmpty = true
  · by_cases hslots : slots.isEmpty = true
    · simp [hnone, hslots]
    · simp only [hnone, hslots]
      rfl
  · simp only [if_neg hnone, bind_assoc]
    apply bind_congr
    intro found
    cases found <;> rfl

/-! ### Looking is local -/

theorem calleeOwn_local (c : Catalog) (name : String) (targets : Nat) (slots : List Slot) :
    Local (calleeOwn c name targets slots) := by
  refine frame_local.bind fun f => (cells_local slots).bind fun values =>
    (resolve_local ..).bind fun found => ?_
  cases found with
  | none => exact fault_local _
  | some m => exact pure_local _

theorem calleeVariable_local (c : Catalog) (object name : String) (targets : Nat)
    (slots : List Slot) :
    Local (calleeVariable c object name targets slots) := by
  refine (cells_local slots).bind fun values => (find?_local object).bind fun found => ?_
  cases found with
  | none => exact fault_local _
  | some s =>
    refine (cell_local s).bind fun cell => ?_
    cases cell with
    | object cls fields =>
      refine (resolve_local ..).bind fun found => ?_
      cases found with
      | none => exact fault_local _
      | some m => exact pure_local _
    | _ => exact fault_local _

theorem callee_local (c : Catalog) (object : Option String) (name : String) (targets : Nat)
    (slots : List Slot) :
    Local (callee c object name targets slots) := by
  cases object with
  | none => exact calleeOwn_local c name targets slots
  | some object =>
    show Local (calleeOn c object name targets slots)
    unfold calleeOn
    cases c.class? object with
    | none => exact calleeVariable_local c object name targets slots
    | some cls =>
      refine (cells_local slots).bind fun values => (resolve_local ..).bind fun found => ?_
      cases found with
      | none => exact calleeVariable_local c object name targets slots
      | some m => exact pure_local _

theorem maker_local (c : Catalog) (cls : Class) (slots : List Slot) :
    Local (maker c cls slots) := by
  refine (cells_local slots).bind fun values => ?_
  split
  · split
    · exact pure_local _
    · exact fault_local _
  · refine (orFault_local _).bind fun found => ?_
    cases found with
    | none => exact fault_local _
    | some k => exact pure_local _

end Exec

end Offside
