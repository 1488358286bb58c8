import Offside.Machine.Operate
import Offside.Machine.Resolve
import Offside.Machine.State

/-! One step of a machine. -/
namespace Offside.Exec

/-! ### Scopes -/

/-- A new slot with what a variable of the named type starts with. -/
def fresh (c : Catalog) (type : String) : Exec Slot := do alloc (← orFault (c.initial type))

/-- Makes local variables of the names that are not local variables yet. -/
def declare (c : Catalog) : List Decl → Exec Unit
  | [] => return
  | d :: rest => do
    if !(← frame).locals.contains d.name then setLocal d.name (← fresh c d.type)
    declare c rest

/-- Binds parameters to arguments one by one. -/
def bindEach : List Decl → List Slot → Exec Unit
  | p :: params, s :: slots => do setLocal p.name s; bindEach params slots
  | _, _ => return

/-- Binds parameters to arguments, which share their slots with whatever they were read from. -/
def bindAll (params : List Decl) (slots : List Slot) : Exec Unit := do
  if params.length ≠ slots.length then fault (.argumentCount params.length slots.length)
  bindEach params slots

/-- Gives an object its fields. -/
def populate (c : Catalog) (object : Slot) : List Decl → Exec Unit
  | [] => return
  | d :: rest => do
    setField object d.name (← fresh c d.type)
    populate c object rest

/-- The slots of variables. -/
def lookupEach : List Decl → Exec (List Slot)
  | [] => return []
  | d :: rest => do return (← lookup d.name) :: (← lookupEach rest)

/-! ### Calls -/

def cells : List Slot → Exec (List Cell)
  | [] => return []
  | s :: rest => do return (← cell s) :: (← cells rest)

def valuesOf : List Slot → Exec (List Value)
  | [] => return []
  | s :: rest => do return (← value s) :: (← valuesOf rest)

/-- Calls a method of a class, on an object or on none. -/
def invoke (c : Catalog) (cls : Class) (object : Option Slot) (m : Method) (slots : List Slot) :
    Exec Unit := do
  match m.action with
  | .write =>
    write (Value.render (← valuesOf slots))
    setTask (.values [])
  | .run locals body =>
    note .trace fun _ => s!"calling {cls.name}.{m.header.print}"
    push (.leave m.header.returns (← frame) (← get).here)
    setFrame ⟨.empty, object, cls⟩
    bindAll m.header.parameters slots
    declare c locals
    declare c m.header.returns
    setTask (.run body)

/-- Makes an object of a class with one of its constructors, or with none if it has none. -/
def construct (c : Catalog) (cls : Class) (k : Option ConstructorDecl) (slots : List Slot) :
    Exec Unit := do
  let object ← alloc (.object cls .empty)
  note .trace fun _ => s!"constructing {cls.name}"
  push (.built object (← frame) (← get).here)
  setFrame ⟨.empty, some object, cls⟩
  match k with
  | none =>
    bindAll [] slots
    populate c object cls.fields
    setTask (.run [])
  | some k =>
    bindAll k.parameters slots
    populate c object cls.fields
    declare c k.locals
    setTask (.run k.body)

/-- Looks for a method of a class that serves a call. -/
def resolve (c : Catalog) (cls : Class) (name : String) (values : List Cell) (targets : Nat)
    (sharedOnly : Bool) : Exec (Option Method) := do
  let found ← orFault (c.findMethod name values targets sharedOnly cls.methods)
  if let some m := found then
    note .trace fun _ => s!"resolved {name} to {cls.name}.{m.header.print}"
  return found

/-- A call without a qualifier goes to the object whose code runs, or else to the shared methods of
its class. -/
def callOwn (c : Catalog) (name : String) (targets : Nat) (slots : List Slot) : Exec Unit := do
  let f ← frame
  let values ← cells slots
  match ← resolve c f.cls name values targets f.object.isNone with
  | some m => invoke c f.cls f.object m slots
  | none => fault (.noMethod none name (values.map Cell.typeName))

/-- A call qualified by the name of a variable goes to the object in it. -/
def callVariable (c : Catalog) (object name : String) (targets : Nat) (slots : List Slot) :
    Exec Unit := do
  let values ← cells slots
  let unresolved := Fault.noMethod (some object) name (values.map Cell.typeName)
  match ← find? object with
  | none => fault unresolved
  | some s =>
    match ← cell s with
    | .object cls _ =>
      match ← resolve c cls name values targets false with
      | some m => invoke c cls (some s) m slots
      | none => fault unresolved
    | _ => fault unresolved

/-- A qualified call goes to a shared method of a class of that name, or else to the object in a
variable of that name. -/
def callOn (c : Catalog) (object name : String) (targets : Nat) (slots : List Slot) :
    Exec Unit := do
  match c.class? object with
  | none => callVariable c object name targets slots
  | some cls =>
    match ← resolve c cls name (← cells slots) targets true with
    | some m => invoke c cls none m slots
    | none => callVariable c object name targets slots

/-- A class without constructors makes objects from no arguments only. -/
def create (c : Catalog) (cls : Class) (slots : List Slot) : Exec Unit := do
  let values ← cells slots
  let unresolved := Fault.noConstructor cls.name (values.map Cell.typeName)
  if cls.constructors.isEmpty then
    if slots.isEmpty then construct c cls none slots else fault unresolved
  else match ← orFault (c.findConstructor values cls.constructors) with
    | some k => construct c cls (some k) slots
    | none => fault unresolved

/-- Uses arguments for what they were evaluated for. -/
def reach (c : Catalog) (slots : List Slot) : Goal → Exec Unit
  | .call none name targets => callOwn c name targets slots
  | .call (some object) name targets => callOn c object name targets slots
  | .create cls => create c cls slots

/-- Evaluates the arguments that are left, and then uses them all. -/
def supply (c : Catalog) (before : List Slot) (goal : Goal) : List Expr → Exec Unit
  | [] => reach c before.reverse goal
  | e :: after => await (.argument before after goal) (.eval e)

/-! ### Loops over iterators -/

/-- Asks an iterator for its next item. -/
def askNext (c : Catalog) (loop : Loop) (iterator : Slot) (cls : Class) (getNext : Method) :
    Exec Unit := do
  push (.item loop iterator cls getNext)
  invoke c cls (some iterator) getNext []

/-- Starts to loop over an object. -/
def iterate (c : Catalog) (loop : Loop) (iterator : Slot) (cls : Class) : Exec Unit := do
  if !cls.implements "iterator" then fault (.notIterable cls.name)
  match cls.getNext? with
  | none => fault (.noGetNext cls.name)
  | some getNext => askNext c loop iterator cls getNext

/-- Stores an item in the variable of a loop. A variable that holds the iterator itself gets a slot
of its own, so that the iterator lives on. -/
def storeItem (name : String) (iterator item : Slot) : Exec Unit := do
  let target ← lookup name
  if target = iterator then rebind name (← copy item) else assign target item

/-- Records a condition in the variable of a loop and acts on it. -/
def recordCondition (loop : Loop) (target s : Slot) : Exec Unit := do
  match ← cell s with
  | .truth value =>
    assign target s
    if value then await (.recordAgain loop target) (.run loop.body) else setTask (.run [])
  | other => fault (.notAnIterator loop.source other.typeName)

/-! ### Tasks -/

/-- Starts a statement. -/
def execute (c : Catalog) (s : Stmt) : Exec Unit := do
  match s with
  | .assign target value span =>
    moveTo span
    await (.store (← lookup target)) (.eval value)
  | .call call targets span =>
    moveTo span
    push (.receive call targets span)
    supply c [] (.call call.object call.method targets.length) call.arguments
  | .loop none source body span =>
    moveTo span
    await (.test source body span) (.eval source)
  | .loop (some name) source body span =>
    moveTo span
    await (.source ⟨name, source, body, span⟩ (← lookup name)) (.eval source)
  | .branch condition yes no span =>
    moveTo span
    await (.choose condition yes no) (.eval condition)

/-- Hands over a value in a slot of its own. -/
def give (c : Cell) : Exec Unit := do setTask (.value (← alloc c))

/-- Starts an expression. A variable's value is its slot itself, not a copy. -/
def evaluate (c : Catalog) (e : Expr) : Exec Unit := do
  match e with
  | .number value => give (.number value)
  | .text value => give (.text value)
  | .truth value => give (.truth value)
  | .character value => give (.character value.toNat)
  | .variable name => setTask (.value (← lookup name))
  | .not operand => await .negate (.eval operand)
  | .binary op left right => await (.left op left right) (.eval left)
  | .call object method arguments =>
    push (.single ⟨object, method, arguments⟩)
    supply c [] (.call object method 0) arguments
  | .create name arguments =>
    match c.class? name with
    | none => fault (.noClass name)
    | some cls => supply c [] (.create cls) arguments

/-- Goes on after statements that are done. -/
def resume (c : Catalog) (p : Pending) : Exec Unit := do
  match p with
  | .rest body => setTask (.run body)
  | .again source body span =>
    moveTo span
    await (.test source body span) (.eval source)
  | .recordAgain loop target =>
    moveTo loop.span
    await (.record loop target) (.eval loop.source)
  | .itemAgain loop iterator cls getNext => askNext c loop iterator cls getNext
  | .leave returns frame span =>
    let slots ← lookupEach returns
    setFrame frame
    moveTo span
    setTask (.values slots)
  | .built object frame span =>
    setFrame frame
    moveTo span
    setTask (.value object)
  | _ => stuck

/-- The truth value that a condition came to. -/
def truthOf (condition : Expr) (s : Slot) : Exec Bool := do
  match ← cell s with
  | .truth value => return value
  | other => fault (.condition condition other.typeName)

/-- Goes on with a value. -/
def deliver (c : Catalog) (s : Slot) (p : Pending) : Exec Unit := do
  match p with
  | .store target =>
    assign target s
    setTask (.run [])
  | .negate =>
    match ← cell s with
    | .truth value => give (.truth !value)
    | other => fault (.negation other.typeName)
  | .left op left right => await (.right op left right s) (.eval right)
  | .right op left right l =>
    give (← orFault (op.apply (.binary op left right) (← cell l) (← cell s)))
  | .argument before after goal => supply c (s :: before) goal after
  | .choose condition yes no =>
    if ← truthOf condition s then setTask (.run yes) else setTask (.run (no.getD []))
  | .test source body span =>
    if ← truthOf source s then await (.again source body span) (.run body) else setTask (.run [])
  | .source loop target =>
    match ← cell s with
    | .object cls _ => iterate c loop s cls
    | _ =>
      match ← cell target with
      | .object cls _ => iterate c loop target cls
      | _ => recordCondition loop target s
  | .record loop target => recordCondition loop target s
  | _ => stuck

/-- Stores returns in variables one by one. Variables past the last return keep what they have;
`shortfall` says so in the log. -/
def storeEach (shortfall : Unit → String) : List String → List Slot → Exec Unit
  | [], _ => return
  | _ :: _, [] => note .debug shortfall
  | name :: names, s :: slots => do
    assign (← lookup name) s
    storeEach shortfall names slots

/-- Goes on with what a call returned. -/
def deliverAll (slots : List Slot) (p : Pending) : Exec Unit := do
  match p with
  | .single call =>
    match slots with
    | s :: _ => setTask (.value s)
    | [] => fault (.noReturn call)
  | .receive call targets span =>
    moveTo span
    storeEach (fun _ =>
      s!"{call.print} returned {slots.length} values for {targets.length} targets") targets slots
    setTask (.run [])
  | .item loop iterator cls getNext =>
    moveTo loop.span
    match slots with
    | more :: item :: _ =>
      match ← cell more with
      | .truth true =>
        storeItem loop.name iterator item
        await (.itemAgain loop iterator cls getNext) (.run loop.body)
      | .truth false => setTask (.run [])
      | _ => fault (.getNextNotBoolean cls.name)
    | _ => stuck
  | _ => stuck

/-- Calls the entry method. -/
def enter (c : Catalog) : Exec Unit := do
  match c.entry? with
  | none => fault .noEntry
  | some (cls, m) =>
    note .debug fun _ => s!"entering {cls.name}.start"
    invoke c cls none m []

/-- One step. -/
def step (c : Catalog) : Exec Unit := do
  match (← get).task with
  | .enter => enter c
  | .run (s :: rest) => push (.rest rest); execute c s
  | .run [] => resume c (← pop)
  | .eval e => evaluate c e
  | .value s => deliver c s (← pop)
  | .values slots => deliverAll slots (← pop)

end Offside.Exec
