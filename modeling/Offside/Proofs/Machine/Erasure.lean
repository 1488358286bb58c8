import Offside.Proofs.Machine.World

/-! Machines without what they never read.

The classes that objects, scopes and waiting work refer to keep all that was declared of them. Erasure
takes from a class the bodies of its accessors and mutators and the spans of its declarations, from an
interface everything but its name, and nothing from statements. An erased machine with an erased
catalog goes through the erased states of the whole one, step by step, and stops for the same
reason. -/
namespace Offside

/-! ### Declarations -/

def InterfaceDecl.erase (d : InterfaceDecl) : InterfaceDecl := ⟨d.name, [], .unwritten⟩

def Member.erase (m : Member) : Member := ⟨m.decl, [], []⟩

def ConstructorDecl.erase (k : ConstructorDecl) : ConstructorDecl := { k with span := .unwritten }

def Method.erase (m : Method) : Method := { m with span := .unwritten }

def Class.erase (c : Class) : Class where
  name := c.name
  interfaces := c.interfaces
  members := c.members.map Member.erase
  constructors := c.constructors.map ConstructorDecl.erase
  methods := c.methods.map Method.erase
  span := .unwritten

def Catalog.erase (c : Catalog) : Catalog :=
  ⟨c.interfaces.map InterfaceDecl.erase, c.classes.map Class.erase⟩

@[simp] theorem Class.fields_erase (c : Class) : c.erase.fields = c.fields := by
  simp [Class.fields, Class.erase, Member.erase]

theorem Class.getNext?_erase (c : Class) : c.erase.getNext? = c.getNext?.map Method.erase :=
  List.find?_map

/-! ### Values and cells -/

def Cell.erase : Cell → Cell
  | .object cls fields => .object cls.erase fields
  | c => c

@[simp] theorem Cell.typeName_erase (c : Cell) : c.erase.typeName = c.typeName := by
  cases c <;> rfl

mutual

def Value.erase : Value → Value
  | .number value => .number value
  | .text value => .text value
  | .truth value => .truth value
  | .character code => .character code
  | .object cls fields => .object cls.erase (Value.eraseFields fields)

def Value.eraseFields : List (String × Value) → List (String × Value)
  | [] => []
  | (name, value) :: rest => (name, value.erase) :: Value.eraseFields rest

end

mutual

/-- The console shows no class. -/
theorem Value.display_erase (v : Value) : v.erase.display = v.display := by
  cases v with
  | object cls fields => exact Value.displayFields_erase fields
  | _ => rfl

theorem Value.displayFields_erase (fields : List (String × Value)) :
    Value.displayFields (Value.eraseFields fields) = Value.displayFields fields := by
  cases fields with
  | nil => rfl
  | cons field rest =>
    rw [Value.eraseFields, Value.displayFields, Value.displayFields, Value.display_erase field.2,
      Value.displayFields_erase rest]

end

theorem Value.render_erase (values : List Value) : Value.render (values.map Value.erase) = Value.render values := by
  simp [Value.render, Function.comp_def, Value.display_erase]

/-- Operators make no objects, and complain about them by the names of their classes. -/
theorem Operator.apply_erase (op : Operator) (whole : Expr) (l r : Cell) :
    op.apply whole l.erase r.erase = (op.apply whole l r).map Cell.erase := by
  cases op with
  | logic op => cases l <;> cases r <;> rfl
  | compare op => cases l <;> cases r <;> rfl
  | arith op =>
    cases l with
    | number a =>
      cases r with
      | number b =>
        cases op with
        | divide =>
          simp only [Operator.apply, Cell.erase, ArithOp.apply?]
          by_cases hzero : (b == 0) = true
          · simp only [if_pos hzero, Except.map]
          · simp only [if_neg hzero, Except.map, Cell.erase]
        | _ => rfl
      | _ => cases op <;> rfl
    | _ => cases op <;> cases r <;> rfl

/-! ### Resolution -/

namespace Catalog
variable (c : Catalog)

theorem class?_erase (name : String) : c.erase.class? name = (c.class? name).map Class.erase :=
  List.find?_map

theorem interface?_erase (name : String) :
    c.erase.interface? name = (c.interface? name).map InterfaceDecl.erase :=
  List.find?_map

theorem entry?_erase : Catalog.entry? c.erase = (Catalog.entry? c).map (Prod.map Class.erase Method.erase) := by
  unfold Catalog.entry? Catalog.erase
  induction c.classes with
  | nil => rfl
  | cons cls rest ih =>
    have hfirst : (cls.erase.methods.find? Method.isEntry) = (cls.methods.find? Method.isEntry).map Method.erase :=
      List.find?_map
    rw [List.map_cons, List.findSome?_cons, List.findSome?_cons, hfirst, ih]
    cases cls.methods.find? Method.isEntry <;> rfl

/-- Of an object only the class counts, and of that only its name and those of its interfaces. -/
theorem accepts_object (type : String) (cls : Class) (fields : Bindings) :
    c.accepts type (.object cls fields) =
      if type = "number" ∨ type = "string" ∨ type = "boolean" ∨ type = "character" then .ok false
      else if (c.class? type).isSome then .ok (cls.name = type)
      else if (c.interface? type).isSome then .ok (cls.implements type)
      else .error (.noType type) := by
  unfold accepts
  split <;> simp_all

theorem accepts_erase (type : String) (v : Cell) : c.erase.accepts type v.erase = c.accepts type v := by
  cases v with
  | object cls fields =>
    rw [Cell.erase, accepts_object, accepts_object, class?_erase, interface?_erase, Option.isSome_map,
      Option.isSome_map]
    rfl
  | _ =>
    unfold accepts
    simp only [class?_erase, interface?_erase, Option.isSome_map]
    rfl

theorem acceptsEach_erase (params : List Decl) (values : List Cell) :
    c.erase.acceptsEach params (values.map Cell.erase) = c.acceptsEach params values := by
  induction params generalizing values with
  | nil => cases values <;> rfl
  | cons p params ih =>
    cases values with
    | nil => rfl
    | cons v values => rw [List.map_cons, acceptsEach, acceptsEach, accepts_erase, ih]

theorem acceptsAll_erase (params : List Decl) (values : List Cell) :
    c.erase.acceptsAll params (values.map Cell.erase) = c.acceptsAll params values := by
  rw [acceptsAll, acceptsAll, acceptsEach_erase, List.length_map]

theorem serves_erase (m : Method) (name : String) (values : List Cell) (targets : Nat) :
    c.erase.serves m.erase name (values.map Cell.erase) targets = c.serves m name values targets := by
  unfold serves
  rw [acceptsAll_erase]
  rfl

theorem findMethod_erase (name : String) (values : List Cell) (targets : Nat) (sharedOnly : Bool)
    (methods : List Method) :
    c.erase.findMethod name (values.map Cell.erase) targets sharedOnly (methods.map Method.erase) =
      (c.findMethod name values targets sharedOnly methods).map (Option.map Method.erase) := by
  induction methods with
  | nil => rfl
  | cons m rest ih =>
    have hshared : m.erase.isShared = m.isShared := rfl
    rw [List.map_cons, findMethod, findMethod, serves_erase, ih, hshared]
    by_cases hskip : (sharedOnly && !m.isShared) = true
    · rw [if_pos hskip, if_pos hskip]
    · rw [if_neg hskip, if_neg hskip]
      cases c.serves m name values targets with
      | error f => rfl
      | ok serves => cases serves <;> rfl

theorem findConstructor_erase (values : List Cell) (constructors : List ConstructorDecl) :
    c.erase.findConstructor (values.map Cell.erase) (constructors.map ConstructorDecl.erase) =
      (c.findConstructor values constructors).map (Option.map ConstructorDecl.erase) := by
  induction constructors with
  | nil => rfl
  | cons k rest ih =>
    rw [List.map_cons, findConstructor, findConstructor, acceptsAll_erase, ih]
    show (c.acceptsAll k.parameters values >>= _) = _
    cases c.acceptsAll k.parameters values with
    | error f => rfl
    | ok accepts => cases accepts <;> rfl

theorem initial_erase (type : String) : c.erase.initial type = (c.initial type).map Cell.erase := by
  unfold initial
  split
  case h_5 =>
    rw [class?_erase]
    cases c.class? type <;> rfl
  all_goals rfl

end Catalog

/-! ### The heap -/

def Heap.erase (h : Heap) : Heap := ⟨h.cells.map Cell.erase⟩

def Heap.Update.erase : Heap.Update → Heap.Update
  | .keep => .keep
  | .replace c => .replace c.erase
  | .refill cls fields => .refill cls.erase (Value.eraseFields fields)

namespace Heap
variable (h : Heap)

theorem cell?_erase (s : Slot) : h.erase.cell? s = (h.cell? s).map Cell.erase := by
  simp [cell?, erase]

theorem size_erase : h.erase.size = h.size := by
  simp [size, erase]

theorem alloc_erase (c : Cell) : h.erase.alloc c.erase = ((h.alloc c).1, (h.alloc c).2.erase) := by
  simp [alloc, erase, size]

theorem write_erase (s : Slot) (c : Cell) : h.erase.write s c.erase = (h.write s c).erase := by
  simp [write, erase]

theorem readFields_erase {read read' : Slot → Option Value} (hread : ∀ s, read' s = (read s).map Value.erase)
    (entries : List (String × Slot)) :
    readFields read' entries = (readFields read entries).map Value.eraseFields := by
  induction entries with
  | nil => rfl
  | cons entry rest ih =>
    rw [readFields, readFields, hread, ih]
    cases read entry.2 with
    | none => rfl
    | some v => cases readFields read rest <;> rfl

theorem valueWithin_erase (depth : Nat) (s : Slot) :
    h.erase.valueWithin depth s = (h.valueWithin depth s).map Value.erase := by
  induction depth generalizing s with
  | zero => rfl
  | succ depth ih =>
    rw [valueWithin, valueWithin, cell?_erase]
    cases h.cell? s with
    | none => rfl
    | some c =>
      cases c with
      | object cls fields =>
        show (readFields _ fields.entries).map _ = ((readFields _ fields.entries).map _).map _
        rw [readFields_erase ih]
        cases readFields (h.valueWithin depth) fields.entries <;> rfl
      | _ => rfl

theorem value?_erase (s : Slot) : h.erase.value? s = (h.value? s).map Value.erase := by
  rw [value?, value?, size_erase, valueWithin_erase]

mutual

theorem store_erase (h : Heap) (v : Value) : h.erase.store v.erase = ((h.store v).1, (h.store v).2.erase) := by
  cases v with
  | number value => exact alloc_erase h (.number value)
  | text value => exact alloc_erase h (.text value)
  | truth value => exact alloc_erase h (.truth value)
  | character code => exact alloc_erase h (.character code)
  | object cls fields =>
    rw [Value.erase, store, storeFields_erase h fields, store]
    exact alloc_erase (h.storeFields fields).2 (.object cls ⟨(h.storeFields fields).1⟩)

theorem storeFields_erase (h : Heap) (fields : List (String × Value)) :
    h.erase.storeFields (Value.eraseFields fields) = ((h.storeFields fields).1, (h.storeFields fields).2.erase) := by
  cases fields with
  | nil => rfl
  | cons field rest =>
    rw [Value.eraseFields, storeFields, store_erase h field.2, storeFields]
    dsimp only
    rw [storeFields_erase (h.store field.2).2 rest]

end

theorem update_erase (target source : Slot) :
    h.erase.update target source = (h.update target source).map Update.erase := by
  unfold update
  rw [cell?_erase, cell?_erase, value?_erase]
  cases h.cell? target with
  | none => rfl
  | some into =>
    cases h.cell? source with
    | none => cases into <;> rfl
    | some cell =>
      cases into with
      | object cls fields =>
        cases cell with
        | object other fields =>
          simp only [Option.map_some, Cell.erase, Class.erase]
          split
          · rfl
          · split
            · rfl
            · cases h.value? source with
              | none => rfl
              | some v => cases v <;> rfl
        | _ => rfl
      | _ => cases cell <;> rfl

theorem apply_erase (target : Slot) (u : Update) : h.erase.apply target u.erase = (h.apply target u).erase := by
  cases u with
  | keep => rfl
  | replace c => exact write_erase h target c
  | refill cls fields =>
    rw [Update.erase, apply, storeFields_erase, apply]
    exact write_erase (h.storeFields fields).2 target (.object cls ⟨(h.storeFields fields).1⟩)

end Heap

/-! ### Machines -/

def Frame.erase (f : Frame) : Frame := { f with cls := f.cls.erase }

def Goal.erase : Goal → Goal
  | .create cls => .create cls.erase
  | goal => goal

def Pending.erase : Pending → Pending
  | .argument before after goal => .argument before after goal.erase
  | .item loop iterator cls getNext => .item loop iterator cls.erase getNext.erase
  | .itemAgain loop iterator cls getNext => .itemAgain loop iterator cls.erase getNext.erase
  | .leave returns frame span => .leave returns frame.erase span
  | .built object frame span => .built object frame.erase span
  | p => p

def Machine.erase (m : Machine) : Machine :=
  { m with heap := m.heap.erase, frame := m.frame.erase, stack := m.stack.map Pending.erase }

namespace Exec

variable {α β α' β' : Type} {c : Catalog}

/-- What came of an action, without what machines never read. -/
def erased (f : α → β) : EStateM.Result Halt Machine α → EStateM.Result Halt Machine β
  | .ok a m => .ok (f a) m.erase
  | .error h m => .error h m.erase

/-- On erased machines `y` does what `x` does on whole ones; `f` erases what is handed on. -/
def Mirrors (f : α → β) (x : Exec α) (y : Exec β) : Prop := ∀ m : Machine, y.run m.erase = erased f (x.run m)

theorem Mirrors.bind {f : α → α'} {g : β → β'} {x : Exec α} {y : Exec α'} {k : α → Exec β} {k' : α' → Exec β'}
    (hx : Mirrors f x y) (hk : ∀ a, Mirrors g (k a) (k' (f a))) : Mirrors g (x >>= k) (y >>= k') := by
  intro m
  rw [run_bind, run_bind, hx m]
  cases x.run m with
  | ok a m' => exact hk a m'
  | error h m' => rfl

/-- What is handed on has nothing to erase. -/
theorem Mirrors.bindEq {g : β → β'} {x y : Exec α} {k : α → Exec β} {k' : α → Exec β'}
    (hx : Mirrors id x y) (hk : ∀ a, Mirrors g (k a) (k' a)) : Mirrors g (x >>= k) (y >>= k') := hx.bind hk

theorem Mirrors.ite {f : α → β} {p : Prop} [Decidable p] {x x' : Exec α} {y y' : Exec β} (h : Mirrors f x y)
    (h' : Mirrors f x' y') : Mirrors f (if p then x else x') (if p then y else y') := by
  by_cases hp : p
  · simpa only [if_pos hp] using h
  · simpa only [if_neg hp] using h'

theorem pure_mirrors {f : α → β} {a : α} : Mirrors f (pure a) (pure (f a)) := fun _ => rfl

theorem throw_mirrors {f : α → β} {h : Halt} : Mirrors f (throw h) (throw h) := fun _ => rfl

theorem orStuck_mirrors {f : α → β} {o : Option α} : Mirrors f (orStuck o) (orStuck (o.map f)) := by
  cases o with
  | none => exact throw_mirrors
  | some a => exact pure_mirrors

theorem orHalt_mirrors {f : α → β} {e : Except Halt α} : Mirrors f (orHalt e) (orHalt (e.map f)) := by
  cases e with
  | ok a => exact pure_mirrors
  | error h => exact throw_mirrors

theorem orFault_mirrors {f : α → β} {e : Except Fault α} : Mirrors f (orFault e) (orFault (e.map f)) := by
  cases e with
  | ok a => exact pure_mirrors
  | error f => exact throw_mirrors

/-! ### The parts of a machine -/

theorem setTask_mirrors {t : Task} : Mirrors id (setTask t) (setTask t) := fun _ => rfl

theorem push_mirrors {p : Pending} : Mirrors id (push p) (push p.erase) := fun _ => rfl

theorem pop_mirrors : Mirrors Pending.erase pop pop := by
  rintro ⟨heap, frame, here, task, stack, records, threshold, log⟩
  cases stack <;> rfl

theorem await_mirrors {p : Pending} {t : Task} : Mirrors id (await p t) (await p.erase t) :=
  push_mirrors.bindEq fun _ => setTask_mirrors

theorem moveTo_mirrors {span : Option Span} : Mirrors id (moveTo span) (moveTo span) := fun _ => rfl

theorem frame_mirrors : Mirrors Frame.erase frame frame := fun _ => rfl

theorem setFrame_mirrors {f : Frame} : Mirrors id (setFrame f) (setFrame f.erase) := fun _ => rfl

theorem write_mirrors {record : String} : Mirrors id (write record) (write record) := fun _ => rfl

theorem note_mirrors {level : Level} {message : Unit → String} :
    Mirrors id (note level message) (note level message) := by
  intro m
  by_cases hshown : level.shownAt m.threshold = true
  · simp [note, hshown, erased, Machine.erase]
  · simp [note, hshown, erased, Machine.erase]

theorem cell_mirrors {s : Slot} : Mirrors Cell.erase (cell s) (cell s) := by
  intro m
  show (orStuck (m.heap.erase.cell? s)).run m.erase = erased Cell.erase ((orStuck (m.heap.cell? s)).run m)
  rw [Heap.cell?_erase]
  exact orStuck_mirrors m

theorem value_mirrors {s : Slot} : Mirrors Value.erase (value s) (value s) := by
  intro m
  show (orStuck (m.heap.erase.value? s)).run m.erase = erased Value.erase ((orStuck (m.heap.value? s)).run m)
  rw [Heap.value?_erase]
  exact orStuck_mirrors m

theorem onHeap_mirrors {f : Heap → α × Heap} {f' : Heap → α × Heap}
    (h : ∀ heap, f' heap.erase = ((f heap).1, (f heap).2.erase)) : Mirrors id (onHeap f) (onHeap f') := by
  intro m
  show EStateM.Result.ok (f' m.heap.erase).1 { m.erase with heap := (f' m.heap.erase).2 } = _
  rw [h m.heap]
  rfl

theorem alloc_mirrors {v : Cell} : Mirrors id (alloc v) (alloc v.erase) :=
  onHeap_mirrors fun heap => heap.alloc_erase v

theorem copy_mirrors {s : Slot} : Mirrors id (copy s) (copy s) :=
  value_mirrors.bind fun v => onHeap_mirrors fun heap => heap.store_erase v

theorem assign_mirrors {target source : Slot} : Mirrors id (assign target source) (assign target source) := by
  intro m
  have hmirrors : Mirrors id (orHalt (m.heap.update target source) >>= fun u => onHeap fun h => ((), h.apply target u))
      (orHalt (m.heap.erase.update target source) >>= fun u => onHeap fun h => ((), h.apply target u)) := by
    rw [Heap.update_erase]
    refine orHalt_mirrors.bind fun u => onHeap_mirrors fun heap => ?_
    rw [Heap.apply_erase]
  exact hmirrors m

/-! ### Variables -/

theorem ownFields_mirrors : Mirrors id ownFields ownFields := by
  refine frame_mirrors.bind fun ⟨locals, object, cls⟩ => ?_
  cases object with
  | none => exact pure_mirrors
  | some s =>
    refine cell_mirrors.bind fun v => ?_
    cases v with
    | object => exact pure_mirrors
    | _ => exact throw_mirrors

theorem find?_mirrors {name : String} : Mirrors id (find? name) (find? name) := by
  refine frame_mirrors.bind fun ⟨locals, object, cls⟩ => ?_
  dsimp only [Frame.erase]
  split
  · exact pure_mirrors
  · exact ownFields_mirrors.bindEq fun _ => pure_mirrors

theorem lookup_mirrors {name : String} : Mirrors id (lookup name) (lookup name) := by
  refine find?_mirrors.bindEq fun found => ?_
  cases found with
  | none => exact throw_mirrors
  | some s => exact pure_mirrors

theorem lookupEach_mirrors {decls : List Decl} : Mirrors id (lookupEach decls) (lookupEach decls) := by
  induction decls with
  | nil => exact pure_mirrors
  | cons d rest ih => exact lookup_mirrors.bindEq fun _ => ih.bindEq fun _ => pure_mirrors

theorem setLocal_mirrors {name : String} {s : Slot} : Mirrors id (setLocal name s) (setLocal name s) :=
  frame_mirrors.bind fun _ => setFrame_mirrors

theorem setField_mirrors {object : Slot} {name : String} {s : Slot} :
    Mirrors id (setField object name s) (setField object name s) := by
  refine cell_mirrors.bind fun v => ?_
  cases v with
  | object cls fields =>
    refine onHeap_mirrors fun heap => ?_
    rw [← Heap.write_erase]
    rfl
  | _ => exact throw_mirrors

theorem rebind_mirrors {name : String} {s : Slot} : Mirrors id (rebind name s) (rebind name s) := by
  refine frame_mirrors.bind fun ⟨locals, object, cls⟩ => ?_
  refine .ite setLocal_mirrors ?_
  cases object with
  | none => exact throw_mirrors
  | some object => exact setField_mirrors

/-! ### Scopes -/

theorem bindAll_mirrors {params : List Decl} {slots : List Slot} :
    Mirrors id (bindAll params slots) (bindAll params slots) := by
  have heach : Mirrors id (bindEach params slots) (bindEach params slots) := by
    induction params generalizing slots with
    | nil => exact pure_mirrors
    | cons p params ih =>
      cases slots with
      | nil => exact pure_mirrors
      | cons s slots => exact setLocal_mirrors.bindEq fun _ => ih
  exact .ite throw_mirrors heach

theorem fresh_mirrors {type : String} : Mirrors id (fresh c type) (fresh c.erase type) := by
  unfold fresh
  rw [Catalog.initial_erase]
  exact orFault_mirrors.bind fun _ => alloc_mirrors

theorem declare_mirrors {decls : List Decl} : Mirrors id (declare c decls) (declare c.erase decls) := by
  induction decls with
  | nil => exact pure_mirrors
  | cons d rest ih =>
    refine frame_mirrors.bind fun f => .ite ?_ ih
    exact fresh_mirrors.bindEq fun _ => setLocal_mirrors.bindEq fun _ => ih

theorem populate_mirrors {object : Slot} {decls : List Decl} :
    Mirrors id (populate c object decls) (populate c.erase object decls) := by
  induction decls with
  | nil => exact pure_mirrors
  | cons d rest ih => exact fresh_mirrors.bindEq fun _ => setField_mirrors.bindEq fun _ => ih

/-! ### Calls -/

theorem cells_mirrors {slots : List Slot} : Mirrors (List.map Cell.erase) (cells slots) (cells slots) := by
  induction slots with
  | nil => exact pure_mirrors
  | cons s rest ih => exact cell_mirrors.bind fun _ => ih.bind fun _ => pure_mirrors

theorem valuesOf_mirrors {slots : List Slot} : Mirrors (List.map Value.erase) (valuesOf slots) (valuesOf slots) := by
  induction slots with
  | nil => exact pure_mirrors
  | cons s rest ih => exact value_mirrors.bind fun _ => ih.bind fun _ => pure_mirrors

/-- The caller's scope and place are kept for later. -/
theorem push_place_mirrors {p p' : Frame → Option Span → Pending} {x y : Exec α}
    (hp : ∀ f span, p' f.erase span = (p f span).erase) (hx : Mirrors id x y) :
    Mirrors id (do push (p (← frame) (← get).here); x) (do push (p' (← frame) (← get).here); y) := by
  refine frame_mirrors.bind fun f => ?_
  intro m
  show (push (p' f.erase m.here) >>= fun _ => y).run m.erase = erased id ((push (p f m.here) >>= fun _ => x).run m)
  rw [hp]
  exact push_mirrors.bindEq (fun _ => hx) m

theorem invoke_mirrors {cls : Class} {object : Option Slot} {method : Method} {slots : List Slot} :
    Mirrors id (invoke c cls object method slots) (invoke c.erase cls.erase object method.erase slots) := by
  obtain ⟨header, isPrivate, isShared, action, span⟩ := method
  cases action with
  | write =>
    refine valuesOf_mirrors.bind fun values => ?_
    rw [Value.render_erase]
    exact write_mirrors.bindEq fun _ => setTask_mirrors
  | run locals body =>
    refine note_mirrors.bindEq fun _ => push_place_mirrors (fun _ _ => rfl) ?_
    refine setFrame_mirrors.bindEq fun _ => bindAll_mirrors.bindEq fun _ => ?_
    exact declare_mirrors.bindEq fun _ => declare_mirrors.bindEq fun _ => setTask_mirrors

theorem construct_mirrors {cls : Class} {k : Option ConstructorDecl} {slots : List Slot} :
    Mirrors id (construct c cls k slots) (construct c.erase cls.erase (k.map ConstructorDecl.erase) slots) := by
  refine alloc_mirrors.bindEq fun object => note_mirrors.bindEq fun _ => push_place_mirrors (fun _ _ => rfl) ?_
  refine setFrame_mirrors.bindEq fun _ => ?_
  rw [Class.fields_erase]
  cases k with
  | none =>
    exact bindAll_mirrors.bindEq fun _ => populate_mirrors.bindEq fun _ => setTask_mirrors
  | some k =>
    refine bindAll_mirrors.bindEq fun _ => populate_mirrors.bindEq fun _ => ?_
    exact declare_mirrors.bindEq fun _ => setTask_mirrors

theorem resolve_mirrors {cls : Class} {name : String} {values : List Cell} {targets : Nat} {sharedOnly : Bool} :
    Mirrors (Option.map Method.erase) (resolve c cls name values targets sharedOnly)
      (resolve c.erase cls.erase name (values.map Cell.erase) targets sharedOnly) := by
  unfold resolve
  rw [Class.erase, Catalog.findMethod_erase]
  refine orFault_mirrors.bind fun found => ?_
  cases found with
  | none => exact pure_mirrors
  | some method => exact note_mirrors.bindEq fun _ => pure_mirrors

theorem typeNames_erase (values : List Cell) : (values.map Cell.erase).map Cell.typeName = values.map Cell.typeName := by
  simp [Function.comp_def]

theorem callOwn_mirrors {name : String} {targets : Nat} {slots : List Slot} :
    Mirrors id (callOwn c name targets slots) (callOwn c.erase name targets slots) := by
  refine frame_mirrors.bind fun f => cells_mirrors.bind fun values => resolve_mirrors.bind fun found => ?_
  cases found with
  | none =>
    rw [typeNames_erase]
    exact throw_mirrors
  | some method => exact invoke_mirrors

theorem callVariable_mirrors {object name : String} {targets : Nat} {slots : List Slot} :
    Mirrors id (callVariable c object name targets slots) (callVariable c.erase object name targets slots) := by
  refine cells_mirrors.bind fun values => find?_mirrors.bindEq fun found => ?_
  rw [typeNames_erase]
  cases found with
  | none => exact throw_mirrors
  | some s =>
    refine cell_mirrors.bind fun v => ?_
    cases v with
    | object cls fields =>
      refine resolve_mirrors.bind fun found => ?_
      cases found with
      | none => exact throw_mirrors
      | some method => exact invoke_mirrors
    | _ => exact throw_mirrors

theorem callOn_mirrors {object name : String} {targets : Nat} {slots : List Slot} :
    Mirrors id (callOn c object name targets slots) (callOn c.erase object name targets slots) := by
  unfold callOn
  rw [Catalog.class?_erase]
  cases c.class? object with
  | none => exact callVariable_mirrors
  | some cls =>
    refine cells_mirrors.bind fun values => resolve_mirrors.bind fun found => ?_
    cases found with
    | none => exact callVariable_mirrors
    | some method => exact invoke_mirrors

theorem create_mirrors {cls : Class} {slots : List Slot} :
    Mirrors id (create c cls slots) (create c.erase cls.erase slots) := by
  refine cells_mirrors.bind fun values => ?_
  have hnone : cls.erase.constructors.isEmpty = cls.constructors.isEmpty := List.isEmpty_map
  rw [typeNames_erase, hnone]
  refine .ite (.ite construct_mirrors throw_mirrors) ?_
  rw [Class.erase, Catalog.findConstructor_erase]
  refine orFault_mirrors.bind fun found => ?_
  cases found with
  | none => exact throw_mirrors
  | some k => exact construct_mirrors

theorem reach_mirrors {slots : List Slot} {goal : Goal} :
    Mirrors id (reach c slots goal) (reach c.erase slots goal.erase) := by
  cases goal with
  | call object name targets =>
    cases object with
    | none => exact callOwn_mirrors
    | some object => exact callOn_mirrors
  | create cls => exact create_mirrors

theorem supply_mirrors {before : List Slot} {goal : Goal} {arguments : List Expr} :
    Mirrors id (supply c before goal arguments) (supply c.erase before goal.erase arguments) := by
  cases arguments with
  | nil => exact reach_mirrors
  | cons e rest => exact await_mirrors

/-! ### Loops -/

theorem askNext_mirrors {loop : Loop} {iterator : Slot} {cls : Class} {getNext : Method} :
    Mirrors id (askNext c loop iterator cls getNext) (askNext c.erase loop iterator cls.erase getNext.erase) :=
  push_mirrors.bindEq fun _ => invoke_mirrors

theorem iterate_mirrors {loop : Loop} {iterator : Slot} {cls : Class} :
    Mirrors id (iterate c loop iterator cls) (iterate c.erase loop iterator cls.erase) := by
  unfold iterate
  rw [Class.getNext?_erase]
  refine .ite throw_mirrors ?_
  cases cls.getNext? with
  | none => exact throw_mirrors
  | some getNext => exact askNext_mirrors

theorem storeItem_mirrors {name : String} {iterator item : Slot} :
    Mirrors id (storeItem name iterator item) (storeItem name iterator item) :=
  lookup_mirrors.bindEq fun _ => .ite (copy_mirrors.bindEq fun _ => rebind_mirrors) assign_mirrors

theorem recordCondition_mirrors {loop : Loop} {target s : Slot} :
    Mirrors id (recordCondition loop target s) (recordCondition loop target s) := by
  refine cell_mirrors.bind fun v => ?_
  cases v with
  | truth value => exact assign_mirrors.bindEq fun _ => .ite await_mirrors setTask_mirrors
  | _ => exact throw_mirrors

theorem storeEach_mirrors {shortfall : Unit → String} {names : List String} {slots : List Slot} :
    Mirrors id (storeEach shortfall names slots) (storeEach shortfall names slots) := by
  induction names generalizing slots with
  | nil => exact pure_mirrors
  | cons name names ih =>
    cases slots with
    | nil => exact note_mirrors
    | cons s slots => exact lookup_mirrors.bindEq fun _ => assign_mirrors.bindEq fun _ => ih

/-! ### Steps -/

theorem execute_mirrors {s : Stmt} : Mirrors id (execute c s) (execute c.erase s) := by
  cases s with
  | assign target e span =>
    exact moveTo_mirrors.bindEq fun _ => lookup_mirrors.bindEq fun _ => await_mirrors
  | call call targets span =>
    exact moveTo_mirrors.bindEq fun _ => push_mirrors.bindEq fun _ => supply_mirrors
  | loop target source body span =>
    cases target with
    | none => exact moveTo_mirrors.bindEq fun _ => await_mirrors
    | some name => exact moveTo_mirrors.bindEq fun _ => lookup_mirrors.bindEq fun _ => await_mirrors
  | branch condition yes no span => exact moveTo_mirrors.bindEq fun _ => await_mirrors

theorem give_mirrors {v : Cell} : Mirrors id (give v) (give v.erase) :=
  alloc_mirrors.bindEq fun _ => setTask_mirrors

theorem evaluate_mirrors {e : Expr} : Mirrors id (evaluate c e) (evaluate c.erase e) := by
  cases e with
  | number | text | truth | character => exact give_mirrors
  | «variable» name => exact lookup_mirrors.bindEq fun _ => setTask_mirrors
  | not operand => exact await_mirrors
  | binary op left right => exact await_mirrors
  | call object method arguments => exact push_mirrors.bindEq fun _ => supply_mirrors
  | create name arguments =>
    unfold evaluate
    dsimp only
    rw [Catalog.class?_erase]
    cases c.class? name with
    | none => exact throw_mirrors
    | some cls => exact supply_mirrors

theorem resume_mirrors {p : Pending} : Mirrors id (resume c p) (resume c.erase p.erase) := by
  cases p with
  | rest body => exact setTask_mirrors
  | again source body span => exact moveTo_mirrors.bindEq fun _ => await_mirrors
  | recordAgain loop target => exact moveTo_mirrors.bindEq fun _ => await_mirrors
  | itemAgain loop iterator cls getNext => exact askNext_mirrors
  | leave returns frame span =>
    refine lookupEach_mirrors.bindEq fun _ => setFrame_mirrors.bindEq fun _ => ?_
    exact moveTo_mirrors.bindEq fun _ => setTask_mirrors
  | built object frame span =>
    exact setFrame_mirrors.bindEq fun _ => moveTo_mirrors.bindEq fun _ => setTask_mirrors
  | _ => exact throw_mirrors

theorem truthOf_mirrors {condition : Expr} {s : Slot} : Mirrors id (truthOf condition s) (truthOf condition s) := by
  refine cell_mirrors.bind fun v => ?_
  cases v with
  | truth value => exact pure_mirrors
  | _ => exact throw_mirrors

theorem deliver_mirrors {s : Slot} {p : Pending} : Mirrors id (deliver c s p) (deliver c.erase s p.erase) := by
  cases p with
  | store target => exact assign_mirrors.bindEq fun _ => setTask_mirrors
  | negate =>
    refine cell_mirrors.bind fun v => ?_
    cases v with
    | truth value => exact give_mirrors
    | _ => exact throw_mirrors
  | left op left right => exact await_mirrors
  | right op left right l =>
    refine cell_mirrors.bind fun v => cell_mirrors.bind fun w => ?_
    rw [Operator.apply_erase]
    exact orFault_mirrors.bind fun _ => give_mirrors
  | argument before after goal => exact supply_mirrors
  | choose condition yes no => exact truthOf_mirrors.bindEq fun _ => .ite setTask_mirrors setTask_mirrors
  | test source body span => exact truthOf_mirrors.bindEq fun _ => .ite await_mirrors setTask_mirrors
  | source loop target =>
    refine cell_mirrors.bind fun v => ?_
    cases v with
    | object cls fields => exact iterate_mirrors
    | _ =>
      refine cell_mirrors.bind fun w => ?_
      cases w with
      | object cls fields => exact iterate_mirrors
      | _ => exact recordCondition_mirrors
  | record loop target => exact recordCondition_mirrors
  | _ => exact throw_mirrors

theorem deliverAll_mirrors {slots : List Slot} {p : Pending} :
    Mirrors id (deliverAll slots p) (deliverAll slots p.erase) := by
  cases p with
  | single call =>
    cases slots with
    | nil => exact throw_mirrors
    | cons s rest => exact setTask_mirrors
  | receive call targets span =>
    exact moveTo_mirrors.bindEq fun _ => storeEach_mirrors.bindEq fun _ => setTask_mirrors
  | item loop iterator cls getNext =>
    refine moveTo_mirrors.bindEq fun _ => ?_
    cases slots with
    | nil => exact throw_mirrors
    | cons more rest =>
      cases rest with
      | nil => exact throw_mirrors
      | cons item rest =>
        refine cell_mirrors.bind fun v => ?_
        cases v with
        | truth value =>
          cases value with
          | true => exact storeItem_mirrors.bindEq fun _ => await_mirrors
          | false => exact setTask_mirrors
        | _ => exact throw_mirrors
  | _ => exact throw_mirrors

theorem enter_mirrors : Mirrors id (enter c) (enter c.erase) := by
  unfold enter
  rw [Catalog.entry?_erase]
  cases Catalog.entry? c with
  | none => exact throw_mirrors
  | some found => exact note_mirrors.bindEq fun _ => invoke_mirrors

/-- A step of the erased machine is the erased step of the whole one. -/
theorem step_mirrors : Mirrors id (step c) (step c.erase) := by
  rintro ⟨heap, frame, here, task, stack, records, threshold, log⟩
  cases task with
  | enter => exact enter_mirrors _
  | run body =>
    cases body with
    | nil => exact pop_mirrors.bind (fun _ => resume_mirrors) _
    | cons s rest => exact (push_mirrors (p := .rest rest)).bindEq (fun _ => execute_mirrors) _
  | eval e => exact evaluate_mirrors _
  | value s => exact pop_mirrors.bind (fun _ => deliver_mirrors) _
  | values slots => exact pop_mirrors.bind (fun _ => deliverAll_mirrors) _

end Exec

/-! ### Runs -/

namespace Machine

theorem run_erase (c : Catalog) (bound : Nat) (m : Machine) :
    m.erase.run c.erase bound = ((m.run c bound).1.erase, (m.run c bound).2) := by
  induction bound generalizing m with
  | zero => rfl
  | succ bound ih =>
    rw [run, run, Exec.step_mirrors m]
    cases (Exec.step c).run m with
    | ok u m' => exact ih m'
    | error h m' => rfl

/-- A machine that starts over has nothing left to erase. -/
theorem restart_erase (m : Machine) : m.erase.restart = m.restart.erase := by
  simp [restart, start, erase, Heap.erase, Heap.empty, Frame.erase, Frame.outermost, Class.erase, Class.bare]

theorem error?_erase (m : Machine) (h : Halt) : m.erase.error? h = m.error? h := by
  cases h <;> rfl

/-- Runs of machines that are the same but for what no machine reads end alike, and leave machines that
are the same but for that. -/
theorem run_eq_of_erase {c c' : Catalog} {m m' : Machine} (hc : c'.erase = c.erase) (hm : m'.erase = m.erase)
    (bound : Nat) :
    (m'.run c' bound).1.erase = (m.run c bound).1.erase ∧ (m'.run c' bound).2 = (m.run c bound).2 := by
  have hrun := run_erase c' bound m'
  rw [hc, hm, run_erase] at hrun
  exact ⟨(congrArg Prod.fst hrun).symm, (congrArg Prod.snd hrun).symm⟩

end Machine

end Offside
