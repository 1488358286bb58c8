import Offside.Proofs.Machine.Callee

/-! What a program means, without a machine.

Expressions and statements are evaluated by recursion over the program, with no stack and no record
of where a run is. An error carries no place until it leaves the innermost statement around it,
which gives it its own; one that leaves no statement has none.

A loop can go on for ever, so an evaluation has a number of rounds and may exhaust them. -/
namespace Offside

/-- Why an evaluation comes to nothing. -/
inductive Stop where
  /-- It takes more rounds than there are. -/
  | exhausted
  /-- It halts, within a statement or within none. -/
  | halt (reason : Halt) (place : Option Span)

abbrev Eval := EStateM Stop World

/-- What there is to evaluate, one round later. -/
structure Evaluator where
  expr : Expr → Eval Slot
  block : List Stmt → Eval Unit
  /-- A loop without a variable, from its condition on. -/
  again : Expr → List Stmt → Span → Eval Unit
  /-- A loop that records its condition in a slot, from its condition on. -/
  record : Loop → Slot → Eval Unit
  /-- A loop over an iterator, from its next item on. -/
  items : Loop → Slot → Class → Method → Eval Unit

namespace Eval

open Exec

variable {α : Type}

/-- An action on a world, within no statement. -/
def act (x : Exec α) : Eval α := fun w =>
  match x.on w with
  | .ok a w' => .ok a w'
  | .error h w' => .error (.halt h none) w'

/-- What halts within a statement, but within none inside it, halts there. -/
def within (span : Span) (x : Eval α) : Eval α := fun w =>
  match x w with
  | .error (.halt h none) w' => .error (.halt h (some span)) w'
  | r => r

/-! ### Calls -/

def arguments (E : Evaluator) : List Expr → Eval (List Slot)
  | [] => return []
  | e :: rest => do return (← E.expr e) :: (← arguments E rest)

/-- The variables of a method that runs. -/
def openScope (c : Catalog) (cls : Class) (object : Option Slot) (header : Header)
    (locals : List Decl)
    (slots : List Slot) : Exec Unit := do
  setFrame ⟨.empty, object, cls⟩
  bindAll header.parameters slots
  declare c locals
  declare c header.returns

/-- Calls a method and gets the slots of its returns. -/
def invoke (c : Catalog) (E : Evaluator) (cls : Class) (object : Option Slot) (m : Method)
    (slots : List Slot) :
    Eval (List Slot) :=
  match m.action with
  | .write => do
    let values ← act (valuesOf slots)
    act (write (Value.render values))
    return []
  | .run locals body => do
    act (note .trace fun _ => s!"calling {cls.name}.{m.header.print}")
    let caller ← act frame
    act (openScope c cls object m.header locals slots)
    E.block body
    let returned ← act (lookupEach m.header.returns)
    act (setFrame caller)
    return returned

/-- The variables of a constructor that runs, and the fields of its object. -/
def openObject (c : Catalog) (cls : Class) (object : Slot) (k : Option ConstructorDecl)
    (slots : List Slot) :
    Exec Unit := do
  setFrame ⟨.empty, some object, cls⟩
  match k with
  | none =>
    bindAll [] slots
    populate c object cls.fields
  | some k =>
    bindAll k.parameters slots
    populate c object cls.fields
    declare c k.locals

/-- Makes an object. -/
def construct (c : Catalog) (E : Evaluator) (cls : Class) (k : Option ConstructorDecl)
    (slots : List Slot) :
    Eval Slot := do
  let object ← act (alloc (.object cls .empty))
  act (note .trace fun _ => s!"constructing {cls.name}")
  let caller ← act frame
  act (openObject c cls object k slots)
  E.block (k.elim [] ConstructorDecl.body)
  act (setFrame caller)
  return object

/-- Evaluates the arguments of a call, and calls what it reaches. -/
def call (c : Catalog) (E : Evaluator) (call : Call) (targets : Nat) : Eval (List Slot) := do
  let slots ← arguments E call.arguments
  let t ← act (callee c call.object call.method targets slots)
  invoke c E t.cls t.object t.method slots

/-- Evaluates the arguments of a creation, and makes the object. -/
def create (c : Catalog) (E : Evaluator) (cls : Class) (args : List Expr) : Eval Slot := do
  let slots ← arguments E args
  let k ← act (maker c cls slots)
  construct c E cls k slots

/-! ### Expressions -/

def expr (c : Catalog) (E : Evaluator) : Expr → Eval Slot
  | .number value => act (alloc (.number value))
  | .text value => act (alloc (.text value))
  | .truth value => act (alloc (.truth value))
  | .character value => act (alloc (.character value.toNat))
  | .variable name => act (lookup name)
  | .not operand => do
    match ← act (cell (← E.expr operand)) with
    | .truth value => act (alloc (.truth !value))
    | other => act (fault (.negation other.typeName))
  | .binary op left right => do
    let l ← E.expr left
    let r ← E.expr right
    let result ← act (do orFault (op.apply (.binary op left right) (← cell l) (← cell r)))
    act (alloc result)
  | .call object method args => do
    match ← call c E ⟨object, method, args⟩ 0 with
    | s :: _ => return s
    | [] => act (fault (.noReturn ⟨object, method, args⟩))
  | .create name args =>
    match c.class? name with
    | none => act (fault (.noClass name))
    | some cls => create c E cls args

/-! ### Loops -/

/-- A loop without a variable, from its condition on. -/
def again (E : Evaluator) (source : Expr) (body : List Stmt) (span : Span) : Eval Unit :=
  within span do
    if ← act (truthOf source (← E.expr source)) then
      E.block body
      E.again source body span

/-- A loop that records its condition, once it is known. -/
def recordCondition (E : Evaluator) (loop : Loop) (target s : Slot) : Eval Unit := do
  match ← act (cell s) with
  | .truth value =>
    act (assign target s)
    if value then
      E.block loop.body
      E.record loop target
  | other => act (fault (.notAnIterator loop.source other.typeName))

/-- A loop that records its condition, from the condition on. -/
def record (E : Evaluator) (loop : Loop) (target : Slot) : Eval Unit :=
  within loop.span do recordCondition E loop target (← E.expr loop.source)

/-- A loop over an iterator, once it was asked for an item. -/
def receiveItem (E : Evaluator) (loop : Loop) (iterator : Slot) (cls : Class) (getNext : Method) :
    List Slot → Eval Unit
  | more :: item :: _ => do
    match ← act (cell more) with
    | .truth true =>
      act (storeItem loop.name iterator item)
      E.block loop.body
      E.items loop iterator cls getNext
    | .truth false => return
    | _ => act (fault (.getNextNotBoolean cls.name))
  | _ => act stuck

/-- A loop over an iterator, from its next item on. -/
def items (c : Catalog) (E : Evaluator) (loop : Loop) (iterator : Slot) (cls : Class)
    (getNext : Method) :
    Eval Unit :=
  within loop.span do
    receiveItem E loop iterator cls getNext (← invoke c E cls (some iterator) getNext [])

/-- A loop over an object. -/
def iterate (c : Catalog) (E : Evaluator) (loop : Loop) (iterator : Slot) (cls : Class) :
    Eval Unit :=
  if cls.implements "iterator" then
    match cls.getNext? with
    | none => act (fault (.noGetNext cls.name))
    | some getNext => items c E loop iterator cls getNext
  else act (fault (.notIterable cls.name))

/-- A loop with a variable, once its source is known. -/
def loopOver (c : Catalog) (E : Evaluator) (loop : Loop) (target s : Slot) : Eval Unit := do
  match ← act (cell s) with
  | .object cls _ => iterate c E loop s cls
  | _ =>
    match ← act (cell target) with
    | .object cls _ => iterate c E loop target cls
    | _ => recordCondition E loop target s

/-! ### Statements -/

def stmt (c : Catalog) (E : Evaluator) : Stmt → Eval Unit
  | .assign target value span =>
    within span do
      let t ← act (lookup target)
      let s ← E.expr value
      act (assign t s)
  | .call call targets span =>
    within span do
      let slots ← Eval.call c E call targets.length
      act (storeEach (fun _ =>
        s!"{call.print} returned {slots.length} values for {targets.length} targets") targets slots)
  | .loop none source body span => again E source body span
  | .loop (some name) source body span =>
    within span do
      let target ← act (lookup name)
      let s ← E.expr source
      loopOver c E ⟨name, source, body, span⟩ target s
  | .branch condition yes no span =>
    within span do
      if ← act (truthOf condition (← E.expr condition)) then E.block yes else E.block (no.getD [])

def block (c : Catalog) (E : Evaluator) : List Stmt → Eval Unit
  | [] => return
  | s :: rest => do
    stmt c E s
    E.block rest

/-- Finds the entry method and calls it. -/
def enter (c : Catalog) (E : Evaluator) : Eval (List Slot) :=
  match c.entry? with
  | none => act (fault .noEntry)
  | some (cls, m) => do
    act (note .debug fun _ => s!"entering {cls.name}.start")
    invoke c E cls none m []

/-- The error of an evaluation that halted. -/
def error? : Halt → Option Span → Option RuntimeError
  | .fault f, place => some ⟨f, place⟩
  | .finished, _ | .stuck, _ => none

/-- The error that an evaluation ends with, if any, and the world that it leaves. -/
def ending : EStateM.Result Stop World (List Slot) → Option (Option RuntimeError × World)
  | .ok _ w => some (none, w)
  | .error (.halt h place) w => some (error? h place, w)
  | .error .exhausted _ => none

end Eval

namespace Evaluator

/-- No rounds are left. -/
def exhausted : Evaluator where
  expr _ := throw .exhausted
  block _ := throw .exhausted
  again _ _ _ := throw .exhausted
  record _ _ := throw .exhausted
  items _ _ _ _ := throw .exhausted

/-- One round more. -/
def next (c : Catalog) (E : Evaluator) : Evaluator where
  expr := Eval.expr c E
  block := Eval.block c E
  again := Eval.again E
  record := Eval.record E
  items := Eval.items c E

/-- So many rounds. -/
def ofRounds (c : Catalog) : Nat → Evaluator
  | 0 => exhausted
  | rounds + 1 => next c (ofRounds c rounds)

end Evaluator

/-- Before the first evaluation. -/
def World.start (threshold : Level) : World := ⟨.empty, .outermost, [], threshold, []⟩

/-- Before another evaluation, which adds to the records and to the log. -/
def World.restart (w : World) : World :=
  { start w.threshold with records := w.records, log := w.log }

/-- Evaluates a program as often as `times` says, and reports the last evaluation's error. There is
no outcome if some evaluation takes more rounds than there are. -/
def Program.evaluate (p : Program) (threshold : Level) (rounds times : Nat) : Option Outcome :=
  go times none (World.start threshold)
where
  go : Nat → Option RuntimeError → World → Option Outcome
    | 0, error, w => some ⟨w.records.reverse, error, Catalog.warnings p ++ w.log.reverse⟩
    | times + 1, _, w =>
      match Eval.ending
        (Eval.enter (Catalog.ofProgram p) (.ofRounds (Catalog.ofProgram p) rounds) w.restart) with
      | none => none
      | some (error, w) => go times error w

/-! ### Evaluations stay in their scope -/

namespace Eval

open Exec

variable {α β : Type}

theorem bind_eq_ok {x : Eval α} {f : α → Eval β} {w w'' : World} {b : β}
    (h : (x >>= f) w = .ok b w'') :
    ∃ a w', x w = .ok a w' ∧ f a w' = .ok b w'' := by
  change EStateM.bind x f w = _ at h
  unfold EStateM.bind at h
  cases hx : x w with
  | ok a w' =>
    rw [hx] at h
    exact ⟨a, w', rfl, h⟩
  | error stop w' =>
    rw [hx] at h
    cases h

theorem within_eq_ok {span : Span} {x : Eval α} {w w' : World} {a : α} (h : within span x w = .ok a w') :
    x w = .ok a w' := by
  unfold within at h
  split at h
  · cases h
  · exact h

theorem act_eq_ok {x : Exec α} {w w' : World} {a : α} (h : act x w = .ok a w') :
    x.on w = .ok a w' := by
  unfold act at h
  cases hx : x.on w with
  | ok b v =>
    rw [hx] at h
    cases h
    rfl
  | error reason v =>
    rw [hx] at h
    cases h

/-- An evaluation that comes back to its scope and forgets none of its variables. -/
structure Grows (x : Eval α) : Prop where
  frame : ∀ w a w', x w = .ok a w' → w.frame.Grows w'.frame

theorem pure_grows (a : α) : Grows (pure a) := by
  refine ⟨fun w b w' h => ?_⟩
  cases h
  exact .refl _

theorem throw_grows (stop : Stop) : Grows (throw stop : Eval α) := ⟨nofun⟩

theorem act_grows {x : Exec α} (hx : Local x) : Grows (act x) :=
  ⟨fun w a w' h => hx.grows w a w' (act_eq_ok h)⟩

theorem Grows.bind {x : Eval α} {f : α → Eval β} (hx : Grows x) (hf : ∀ a, Grows (f a)) :
    Grows (x >>= f) := by
  refine ⟨fun w b w'' h => ?_⟩
  obtain ⟨a, w', ha, hb⟩ := bind_eq_ok h
  exact (hx.frame w a w' ha).trans ((hf a).frame w' b w'' hb)

theorem Grows.within {span : Span} {x : Eval α} (hx : Grows x) : Grows (within span x) := by
  refine ⟨fun w a w' h => ?_⟩
  exact hx.frame w a w' (within_eq_ok h)

/-- Whatever an evaluation does, it is back in its scope once that is set again. -/
theorem act_frame_grows {f : Frame → Eval α}
    (hf : ∀ caller w a w', f caller w = .ok a w' → w'.frame = caller) :
    Grows (act Exec.frame >>= f) := by
  refine ⟨fun w a w'' h => ?_⟩
  obtain ⟨caller, w', hcaller, h⟩ := bind_eq_ok h
  cases hcaller
  rw [hf _ _ _ _ h]
  exact .refl _

end Eval

/-- An evaluator all of whose parts come back to their scope. -/
structure Evaluator.Grows (E : Evaluator) : Prop where
  expr : ∀ e, Eval.Grows (E.expr e)
  block : ∀ body, Eval.Grows (E.block body)
  again : ∀ source body span, Eval.Grows (E.again source body span)
  record : ∀ loop target, Eval.Grows (E.record loop target)
  items : ∀ loop iterator cls m, Eval.Grows (E.items loop iterator cls m)

namespace Eval

open Exec

variable {c : Catalog} {E : Evaluator}

theorem arguments_grows (hE : E.Grows) (args : List Expr) : Grows (arguments E args) := by
  induction args with
  | nil => exact pure_grows _
  | cons e rest ih => exact (hE.expr e).bind fun _ => ih.bind fun _ => pure_grows _

theorem invoke_grows (cls : Class) (object : Option Slot) (m : Method) (slots : List Slot) :
    Grows (invoke c E cls object m slots) := by
  unfold invoke
  split
  · exact (act_grows (valuesOf_local _)).bind fun _ => (act_grows (write_local _)).bind fun _ =>
      pure_grows _
  · refine (act_grows (note_local _ _)).bind fun _ => act_frame_grows fun caller w slots w' h => ?_
    obtain ⟨_, _, -, h⟩ := bind_eq_ok h
    obtain ⟨_, _, -, h⟩ := bind_eq_ok h
    obtain ⟨_, _, -, h⟩ := bind_eq_ok h
    obtain ⟨_, _, hset, h⟩ := bind_eq_ok h
    cases hset
    cases h
    rfl

theorem construct_grows (cls : Class) (k : Option ConstructorDecl) (slots : List Slot) :
    Grows (construct c E cls k slots) := by
  refine (act_grows (alloc_local _)).bind fun object => (act_grows (note_local _ _)).bind fun _ =>
    act_frame_grows fun caller w slots w' h => ?_
  obtain ⟨_, _, -, h⟩ := bind_eq_ok h
  obtain ⟨_, _, -, h⟩ := bind_eq_ok h
  obtain ⟨_, _, hset, h⟩ := bind_eq_ok h
  cases hset
  cases h
  rfl

theorem call_grows (hE : E.Grows) (call : Call) (targets : Nat) :
    Grows (Eval.call c E call targets) :=
  (arguments_grows hE _).bind fun _ => (act_grows (callee_local ..)).bind fun _ => invoke_grows ..

theorem expr_grows (hE : E.Grows) (e : Expr) : Grows (expr c E e) := by
  cases e with
  | number | text | truth | character => exact act_grows (alloc_local _)
  | «variable» name => exact act_grows (lookup_local name)
  | not operand =>
    refine (hE.expr operand).bind fun s => (act_grows (cell_local s)).bind fun v => ?_
    split
    · exact act_grows (alloc_local _)
    · exact act_grows (fault_local _)
  | binary op left right =>
    refine (hE.expr left).bind fun l => (hE.expr right).bind fun r => (act_grows ?_).bind fun _ =>
      act_grows (alloc_local _)
    exact (cell_local l).bind fun _ => (cell_local r).bind fun _ => orFault_local _
  | call object method args =>
    refine (call_grows hE _ _).bind fun slots => ?_
    split
    · exact pure_grows _
    · exact act_grows (fault_local _)
  | create name args =>
    show Grows (match c.class? name with
      | none => act (fault (.noClass name))
      | some cls => create c E cls args)
    split
    · exact act_grows (fault_local _)
    · exact (arguments_grows hE _).bind fun _ => (act_grows (maker_local ..)).bind fun _ =>
        construct_grows ..

theorem again_grows (hE : E.Grows) (source : Expr) (body : List Stmt) (span : Span) :
    Grows (again E source body span) := by
  refine Grows.within
    ((hE.expr source).bind fun s => (act_grows (truthOf_local ..)).bind fun value => ?_)
  split
  · exact (hE.block body).bind fun _ => hE.again ..
  · exact pure_grows _

theorem recordCondition_grows (hE : E.Grows) (loop : Loop) (target s : Slot) :
    Grows (recordCondition E loop target s) := by
  refine (act_grows (cell_local s)).bind fun v => ?_
  split
  · refine (act_grows (assign_local ..)).bind fun _ => ?_
    split
    · exact (hE.block _).bind fun _ => hE.record ..
    · exact pure_grows _
  · exact act_grows (fault_local _)

theorem items_grows (hE : E.Grows) (loop : Loop) (iterator : Slot) (cls : Class) (m : Method) :
    Grows (items c E loop iterator cls m) := by
  refine Grows.within ((invoke_grows ..).bind fun slots => ?_)
  unfold receiveItem
  split
  · refine (act_grows (cell_local _)).bind fun v => ?_
    split
    · exact (act_grows (storeItem_local ..)).bind fun _ => (hE.block _).bind fun _ => hE.items ..
    · exact pure_grows _
    · exact act_grows (fault_local _)
  · exact act_grows stuck_local

theorem iterate_grows (hE : E.Grows) (loop : Loop) (iterator : Slot) (cls : Class) :
    Grows (iterate c E loop iterator cls) := by
  unfold iterate
  split
  · split
    · exact act_grows (fault_local _)
    · exact items_grows hE ..
  · exact act_grows (fault_local _)

theorem loopOver_grows (hE : E.Grows) (loop : Loop) (target s : Slot) :
    Grows (loopOver c E loop target s) := by
  refine (act_grows (cell_local s)).bind fun v => ?_
  split
  · exact iterate_grows hE ..
  · refine (act_grows (cell_local target)).bind fun v => ?_
    split
    · exact iterate_grows hE ..
    · exact recordCondition_grows hE ..

theorem stmt_grows (hE : E.Grows) (s : Stmt) : Grows (stmt c E s) := by
  cases s with
  | assign target value span =>
    exact Grows.within
      ((act_grows (lookup_local target)).bind fun _ => (hE.expr value).bind fun _ =>
      act_grows (assign_local ..))
  | call call targets span =>
    exact Grows.within ((call_grows hE ..).bind fun _ => act_grows (storeEach_local ..))
  | loop name source body span =>
    cases name with
    | none => exact again_grows hE source body span
    | some name =>
      exact Grows.within
        ((act_grows (lookup_local name)).bind fun _ => (hE.expr source).bind fun _ =>
        loopOver_grows hE ..)
  | branch condition yes no span =>
    refine Grows.within
      ((hE.expr condition).bind fun s => (act_grows (truthOf_local ..)).bind fun value => ?_)
    split
    · exact hE.block yes
    · exact hE.block _

end Eval

namespace Evaluator

theorem exhausted_grows : exhausted.Grows :=
  ⟨fun _ => Eval.throw_grows _, fun _ => Eval.throw_grows _, fun _ _ _ => Eval.throw_grows _,
    fun _ _ => Eval.throw_grows _, fun _ _ _ _ => Eval.throw_grows _⟩

theorem next_grows {c : Catalog} {E : Evaluator} (hE : E.Grows) : (next c E).Grows where
  expr := Eval.expr_grows hE
  block body := by
    cases body with
    | nil => exact Eval.pure_grows _
    | cons s rest => exact (Eval.stmt_grows hE s).bind fun _ => hE.block rest
  again := Eval.again_grows hE
  record loop target :=
    Eval.Grows.within ((hE.expr _).bind fun s => Eval.recordCondition_grows hE loop target s)
  items := Eval.items_grows hE

theorem ofRounds_grows (c : Catalog) (rounds : Nat) : (ofRounds c rounds).Grows := by
  induction rounds with
  | zero => exact exhausted_grows
  | succ rounds ih => exact next_grows ih

end Evaluator

end Offside
