import Offside.Proofs.Machine.World

/-! Machines side by side.

Actions look at the heap, the scope, the task and the place of a machine, and at nothing else. So two
machines that agree in these do the same, and go on to agree, however they differ otherwise: what was
written and logged before, or what waits far down on the stack. -/
namespace Offside

/-- What noting something does to a machine. -/
def Machine.noted (level : Level) (message : Unit → String) (m : Machine) : Machine :=
  if level.shownAt m.threshold then { m with log := ⟨level, .interp, message ()⟩ :: m.log } else m

/-- Machines that are related agree in what actions look at, and stay related when both change alike. -/
structure Twins (R : Machine → Machine → Prop) : Prop where
  heap : ∀ {m n}, R m n → m.heap = n.heap
  frame : ∀ {m n}, R m n → m.frame = n.frame
  here : ∀ {m n}, R m n → m.here = n.here
  task : ∀ {m n}, R m n → m.task = n.task
  setHeap : ∀ {m n} (heap : Heap), R m n → R { m with heap } { n with heap }
  setFrame : ∀ {m n} (frame : Frame), R m n → R { m with frame } { n with frame }
  setHere : ∀ {m n} (here : Option Span), R m n → R { m with here } { n with here }
  setTask : ∀ {m n} (task : Task), R m n → R { m with task } { n with task }
  push : ∀ {m n} (p : Pending), R m n → R { m with stack := p :: m.stack } { n with stack := p :: n.stack }
  write : ∀ {m n} (record : String), R m n →
    R { m with records := record :: m.records } { n with records := record :: n.records }
  note : ∀ {m n} (level : Level) (message : Unit → String), R m n →
    R (m.noted level message) (n.noted level message)

/-- Work on the stack goes on after this task. -/
def Task.handsOver : Task → Bool
  | .run [] | .value _ | .values _ => true
  | _ => false

namespace Exec

variable {α β : Type} {R : Machine → Machine → Prop}

/-- The same came of an action on two machines, and they are still related. -/
inductive Together (R : Machine → Machine → Prop) :
    EStateM.Result Halt Machine α → EStateM.Result Halt Machine α → Prop
  | ok {a m n} : R m n → Together R (.ok a m) (.ok a n)
  | error {h m n} : R m n → Together R (.error h m) (.error h n)

theorem Together.ok_left {r r' : EStateM.Result Halt Machine α} {a : α} {m : Machine} (h : Together R r r')
    (hr : r = .ok a m) : ∃ n, r' = .ok a n ∧ R m n := by
  cases h with
  | ok h =>
    cases hr
    exact ⟨_, rfl, h⟩
  | error => cases hr

theorem Together.ok_right {r r' : EStateM.Result Halt Machine α} {a : α} {n : Machine} (h : Together R r r')
    (hr : r' = .ok a n) : ∃ m, r = .ok a m ∧ R m n := by
  cases h with
  | ok h =>
    cases hr
    exact ⟨_, rfl, h⟩
  | error => cases hr

/-- An action does the same on machines that are related. -/
def Respects (R : Machine → Machine → Prop) (x : Exec α) : Prop :=
  ∀ m n, R m n → Together R (x.run m) (x.run n)

theorem Together.bind {x : Exec α} {f : α → Exec β} {m n : Machine} (hx : Together R (x.run m) (x.run n))
    (hf : ∀ a, Respects R (f a)) : Together R ((x >>= f).run m) ((x >>= f).run n) := by
  rw [run_bind, run_bind]
  generalize x.run m = r at hx ⊢
  generalize x.run n = r' at hx ⊢
  cases hx with
  | ok h => exact hf _ _ _ h
  | error h => exact .error h

theorem Respects.bind {x : Exec α} {f : α → Exec β} (hx : Respects R x) (hf : ∀ a, Respects R (f a)) :
    Respects R (x >>= f) := fun m n h => (hx m n h).bind hf

theorem pure_respects {a : α} : Respects R (pure a) := fun _ _ h => .ok h

theorem throw_respects {h : Halt} : Respects R (throw h : Exec α) := fun _ _ h => .error h

/-- A look at machines in which they agree. -/
theorem Respects.get {f : Machine → Exec α} (hf : ∀ m, Respects R (f m)) (hsame : ∀ m n, R m n → f m = f n) :
    Respects R (get >>= f) := by
  intro m n h
  show Together R ((f m).run m) ((f n).run n)
  rw [hsame m n h]
  exact hf n m n h

theorem orStuck_respects {o : Option α} : Respects R (orStuck o) := by
  cases o with
  | none => exact throw_respects
  | some a => exact pure_respects

theorem orHalt_respects {e : Except Halt α} : Respects R (orHalt e) := by
  cases e with
  | ok a => exact pure_respects
  | error h => exact throw_respects

theorem orFault_respects {e : Except Fault α} : Respects R (orFault e) := by
  cases e with
  | ok a => exact pure_respects
  | error f => exact throw_respects

section Actions
variable (hR : Twins R)
include hR

/-! ### The parts of a machine -/

theorem setTask_respects {t : Task} : Respects R (setTask t) := fun _ _ h => .ok (hR.setTask t h)

theorem push_respects {p : Pending} : Respects R (push p) := fun _ _ h => .ok (hR.push p h)

theorem await_respects {p : Pending} {t : Task} : Respects R (await p t) :=
  .bind (push_respects hR) fun _ => setTask_respects hR

theorem moveTo_respects {span : Option Span} : Respects R (moveTo span) := fun _ _ h => .ok (hR.setHere span h)

theorem frame_respects : Respects R frame :=
  .get (fun _ => pure_respects) fun _ _ h => by rw [hR.frame h]

theorem setFrame_respects {f : Frame} : Respects R (setFrame f) := fun _ _ h => .ok (hR.setFrame f h)

theorem write_respects {record : String} : Respects R (write record) := fun _ _ h => .ok (hR.write record h)

theorem note_respects {level : Level} {message : Unit → String} : Respects R (note level message) :=
  fun _ _ h => .ok (hR.note level message h)

theorem cell_respects {s : Slot} : Respects R (cell s) :=
  .get (fun _ => orStuck_respects) fun _ _ h => by rw [hR.heap h]

theorem value_respects {s : Slot} : Respects R (value s) :=
  .get (fun _ => orStuck_respects) fun _ _ h => by rw [hR.heap h]

theorem onHeap_respects {f : Heap → α × Heap} : Respects R (onHeap f) := by
  intro m n h
  show Together R (.ok (f m.heap).1 { m with heap := (f m.heap).2 })
    (.ok (f n.heap).1 { n with heap := (f n.heap).2 })
  rw [hR.heap h]
  exact .ok (hR.setHeap _ h)

theorem alloc_respects {c : Cell} : Respects R (alloc c) := onHeap_respects hR

theorem copy_respects {s : Slot} : Respects R (copy s) := .bind (value_respects hR) fun _ => onHeap_respects hR

theorem assign_respects {target source : Slot} : Respects R (assign target source) :=
  .get (fun _ => .bind orHalt_respects fun _ => onHeap_respects hR) fun _ _ h => by rw [hR.heap h]

/-! ### Variables -/

theorem ownFields_respects : Respects R ownFields := by
  refine .bind (frame_respects hR) fun f => ?_
  split
  · exact pure_respects
  · refine .bind (cell_respects hR) fun c => ?_
    split
    · exact pure_respects
    · exact throw_respects

theorem find?_respects {name : String} : Respects R (find? name) := by
  refine .bind (frame_respects hR) fun f => ?_
  split
  · exact pure_respects
  · exact .bind (ownFields_respects hR) fun _ => pure_respects

theorem lookup_respects {name : String} : Respects R (lookup name) := by
  refine .bind (find?_respects hR) fun found => ?_
  split
  · exact pure_respects
  · exact throw_respects

theorem lookupEach_respects {decls : List Decl} : Respects R (lookupEach decls) := by
  induction decls with
  | nil => exact pure_respects
  | cons d rest ih => exact .bind (lookup_respects hR) fun _ => .bind ih fun _ => pure_respects

theorem setLocal_respects {name : String} {s : Slot} : Respects R (setLocal name s) :=
  .bind (frame_respects hR) fun _ => setFrame_respects hR

theorem setField_respects {object : Slot} {name : String} {s : Slot} : Respects R (setField object name s) := by
  refine .bind (cell_respects hR) fun c => ?_
  split
  · exact onHeap_respects hR
  · exact throw_respects

theorem rebind_respects {name : String} {s : Slot} : Respects R (rebind name s) := by
  refine .bind (frame_respects hR) fun f => ?_
  split
  · exact setLocal_respects hR
  · exact .bind orStuck_respects fun _ => setField_respects hR

theorem bindAll_respects {params : List Decl} {slots : List Slot} : Respects R (bindAll params slots) := by
  have heach : Respects R (bindEach params slots) := by
    induction params generalizing slots with
    | nil => exact pure_respects
    | cons p params ih =>
      cases slots with
      | nil => exact pure_respects
      | cons s slots => exact .bind (setLocal_respects hR) fun _ => ih
  unfold bindAll
  split
  · exact .bind throw_respects fun _ => heach
  · exact heach

theorem fresh_respects {c : Catalog} {type : String} : Respects R (fresh c type) :=
  .bind orFault_respects fun _ => alloc_respects hR

theorem declare_respects {c : Catalog} {decls : List Decl} : Respects R (declare c decls) := by
  induction decls with
  | nil => exact pure_respects
  | cons d rest ih =>
    refine .bind (frame_respects hR) fun f => ?_
    split
    · exact .bind (fresh_respects hR) fun _ => .bind (setLocal_respects hR) fun _ => ih
    · exact ih

theorem populate_respects {c : Catalog} {object : Slot} {decls : List Decl} :
    Respects R (populate c object decls) := by
  induction decls with
  | nil => exact pure_respects
  | cons d rest ih => exact .bind (fresh_respects hR) fun _ => .bind (setField_respects hR) fun _ => ih

/-! ### Calls -/

theorem cells_respects {slots : List Slot} : Respects R (cells slots) := by
  induction slots with
  | nil => exact pure_respects
  | cons s rest ih => exact .bind (cell_respects hR) fun _ => .bind ih fun _ => pure_respects

theorem valuesOf_respects {slots : List Slot} : Respects R (valuesOf slots) := by
  induction slots with
  | nil => exact pure_respects
  | cons s rest ih => exact .bind (value_respects hR) fun _ => .bind ih fun _ => pure_respects

/-- Where the caller stands is kept for later. -/
theorem push_place_respects {p : Frame → Option Span → Pending} {x : Exec α} (hx : Respects R x) :
    Respects R (do push (p (← frame) (← get).here); x) :=
  .bind (frame_respects hR) fun _ => .get (fun _ => .bind (push_respects hR) fun _ => hx) fun _ _ h => by
    rw [hR.here h]

theorem invoke_respects {c : Catalog} {cls : Class} {object : Option Slot} {method : Method} {slots : List Slot} :
    Respects R (invoke c cls object method slots) := by
  unfold invoke
  split
  · exact .bind (valuesOf_respects hR) fun _ => .bind (write_respects hR) fun _ => setTask_respects hR
  · refine .bind (note_respects hR) fun _ => push_place_respects hR (.bind (setFrame_respects hR) fun _ => ?_)
    refine .bind (bindAll_respects hR) fun _ => .bind (declare_respects hR) fun _ => ?_
    exact .bind (declare_respects hR) fun _ => setTask_respects hR

theorem construct_respects {c : Catalog} {cls : Class} {k : Option ConstructorDecl} {slots : List Slot} :
    Respects R (construct c cls k slots) := by
  refine .bind (alloc_respects hR) fun object => .bind (note_respects hR) fun _ => ?_
  refine push_place_respects hR (.bind (setFrame_respects hR) fun _ => ?_)
  split
  · exact .bind (bindAll_respects hR) fun _ => .bind (populate_respects hR) fun _ => setTask_respects hR
  · refine .bind (bindAll_respects hR) fun _ => .bind (populate_respects hR) fun _ => ?_
    exact .bind (declare_respects hR) fun _ => setTask_respects hR

theorem resolve_respects {c : Catalog} {cls : Class} {name : String} {values : List Cell} {targets : Nat}
    {sharedOnly : Bool} : Respects R (resolve c cls name values targets sharedOnly) := by
  refine .bind orFault_respects fun found => ?_
  split
  · exact .bind (note_respects hR) fun _ => pure_respects
  · exact pure_respects

theorem callOwn_respects {c : Catalog} {name : String} {targets : Nat} {slots : List Slot} :
    Respects R (callOwn c name targets slots) := by
  refine .bind (frame_respects hR) fun f => .bind (cells_respects hR) fun _ => ?_
  refine .bind (resolve_respects hR) fun found => ?_
  split
  · exact invoke_respects hR
  · exact throw_respects

theorem callVariable_respects {c : Catalog} {object name : String} {targets : Nat} {slots : List Slot} :
    Respects R (callVariable c object name targets slots) := by
  refine .bind (cells_respects hR) fun _ => .bind (find?_respects hR) fun found => ?_
  split
  · exact throw_respects
  · refine .bind (cell_respects hR) fun cell => ?_
    split
    · refine .bind (resolve_respects hR) fun method => ?_
      split
      · exact invoke_respects hR
      · exact throw_respects
    · exact throw_respects

theorem callOn_respects {c : Catalog} {object name : String} {targets : Nat} {slots : List Slot} :
    Respects R (callOn c object name targets slots) := by
  unfold callOn
  split
  · exact callVariable_respects hR
  · refine .bind (cells_respects hR) fun _ => .bind (resolve_respects hR) fun method => ?_
    split
    · exact invoke_respects hR
    · exact callVariable_respects hR

theorem create_respects {c : Catalog} {cls : Class} {slots : List Slot} : Respects R (create c cls slots) := by
  refine .bind (cells_respects hR) fun values => ?_
  split
  · split
    · exact construct_respects hR
    · exact throw_respects
  · refine .bind orFault_respects fun found => ?_
    split
    · exact construct_respects hR
    · exact throw_respects

theorem reach_respects {c : Catalog} {slots : List Slot} {goal : Goal} : Respects R (reach c slots goal) := by
  unfold reach
  split
  · exact callOwn_respects hR
  · exact callOn_respects hR
  · exact create_respects hR

theorem supply_respects {c : Catalog} {before : List Slot} {goal : Goal} {arguments : List Expr} :
    Respects R (supply c before goal arguments) := by
  cases arguments with
  | nil => exact reach_respects hR
  | cons e rest => exact await_respects hR

/-! ### Loops -/

theorem askNext_respects {c : Catalog} {loop : Loop} {iterator : Slot} {cls : Class} {getNext : Method} :
    Respects R (askNext c loop iterator cls getNext) := .bind (push_respects hR) fun _ => invoke_respects hR

theorem iterate_respects {c : Catalog} {loop : Loop} {iterator : Slot} {cls : Class} :
    Respects R (iterate c loop iterator cls) := by
  unfold iterate
  split
  · dsimp only
    split
    · exact .bind throw_respects fun _ => throw_respects
    · exact throw_respects
  · dsimp only
    split
    · exact .bind throw_respects fun _ => askNext_respects hR
    · exact askNext_respects hR

theorem storeItem_respects {name : String} {iterator item : Slot} : Respects R (storeItem name iterator item) := by
  refine .bind (lookup_respects hR) fun target => ?_
  split
  · exact .bind (copy_respects hR) fun _ => rebind_respects hR
  · exact assign_respects hR

theorem recordCondition_respects {loop : Loop} {target s : Slot} : Respects R (recordCondition loop target s) := by
  refine .bind (cell_respects hR) fun c => ?_
  split
  · refine .bind (assign_respects hR) fun _ => ?_
    split
    · exact await_respects hR
    · exact setTask_respects hR
  · exact throw_respects

theorem storeEach_respects {shortfall : Unit → String} {names : List String} {slots : List Slot} :
    Respects R (storeEach shortfall names slots) := by
  induction names generalizing slots with
  | nil => exact pure_respects
  | cons name names ih =>
    cases slots with
    | nil => exact note_respects hR
    | cons s slots => exact .bind (lookup_respects hR) fun _ => .bind (assign_respects hR) fun _ => ih

/-! ### Steps -/

theorem execute_respects {c : Catalog} {s : Stmt} : Respects R (execute c s) := by
  unfold execute
  split
  · exact .bind (moveTo_respects hR) fun _ => .bind (lookup_respects hR) fun _ => await_respects hR
  · exact .bind (moveTo_respects hR) fun _ => .bind (push_respects hR) fun _ => supply_respects hR
  · exact .bind (moveTo_respects hR) fun _ => await_respects hR
  · exact .bind (moveTo_respects hR) fun _ => .bind (lookup_respects hR) fun _ => await_respects hR
  · exact .bind (moveTo_respects hR) fun _ => await_respects hR

theorem give_respects {c : Cell} : Respects R (give c) := .bind (alloc_respects hR) fun _ => setTask_respects hR

theorem evaluate_respects {c : Catalog} {e : Expr} : Respects R (evaluate c e) := by
  unfold evaluate
  split
  · exact give_respects hR
  · exact give_respects hR
  · exact give_respects hR
  · exact give_respects hR
  · exact .bind (lookup_respects hR) fun _ => setTask_respects hR
  · exact await_respects hR
  · exact await_respects hR
  · exact .bind (push_respects hR) fun _ => supply_respects hR
  · split
    · exact throw_respects
    · exact supply_respects hR

theorem resume_respects {c : Catalog} {p : Pending} : Respects R (resume c p) := by
  unfold resume
  split
  · exact setTask_respects hR
  · exact .bind (moveTo_respects hR) fun _ => await_respects hR
  · exact .bind (moveTo_respects hR) fun _ => await_respects hR
  · exact askNext_respects hR
  · refine .bind (lookupEach_respects hR) fun _ => .bind (setFrame_respects hR) fun _ => ?_
    exact .bind (moveTo_respects hR) fun _ => setTask_respects hR
  · exact .bind (setFrame_respects hR) fun _ => .bind (moveTo_respects hR) fun _ => setTask_respects hR
  · exact throw_respects

theorem truthOf_respects {condition : Expr} {s : Slot} : Respects R (truthOf condition s) := by
  refine .bind (cell_respects hR) fun c => ?_
  split
  · exact pure_respects
  · exact throw_respects

theorem deliver_respects {c : Catalog} {s : Slot} {p : Pending} : Respects R (deliver c s p) := by
  unfold deliver
  split
  case h_1 => exact .bind (assign_respects hR) fun _ => setTask_respects hR
  case h_2 =>
    refine .bind (cell_respects hR) fun c => ?_
    split
    · exact give_respects hR
    · exact throw_respects
  case h_3 => exact await_respects hR
  case h_4 =>
    exact .bind (cell_respects hR) fun _ => .bind (cell_respects hR) fun _ =>
      .bind orFault_respects fun _ => give_respects hR
  case h_5 => exact supply_respects hR
  case h_6 =>
    refine .bind (truthOf_respects hR) fun b => ?_
    split <;> exact setTask_respects hR
  case h_7 =>
    refine .bind (truthOf_respects hR) fun b => ?_
    split
    · exact await_respects hR
    · exact setTask_respects hR
  case h_8 =>
    refine .bind (cell_respects hR) fun cell => ?_
    split
    · exact iterate_respects hR
    · refine .bind (cell_respects hR) fun cell => ?_
      split
      · exact iterate_respects hR
      · exact recordCondition_respects hR
  case h_9 => exact recordCondition_respects hR
  case h_10 => exact throw_respects

theorem deliverAll_respects {slots : List Slot} {p : Pending} : Respects R (deliverAll slots p) := by
  unfold deliverAll
  split
  · split
    · exact setTask_respects hR
    · exact throw_respects
  · exact .bind (moveTo_respects hR) fun _ => .bind (storeEach_respects hR) fun _ => setTask_respects hR
  · refine .bind (moveTo_respects hR) fun _ => ?_
    split
    · refine .bind (cell_respects hR) fun cell => ?_
      split
      · exact .bind (storeItem_respects hR) fun _ => await_respects hR
      · exact setTask_respects hR
      · exact throw_respects
    · exact throw_respects
  · exact throw_respects

theorem enter_respects {c : Catalog} : Respects R (enter c) := by
  unfold enter
  split
  · exact throw_respects
  · exact .bind (note_respects hR) fun _ => invoke_respects hR

/-- Machines that are related take the same step, as long as they take the same work from the stack. -/
theorem step_respects {c : Catalog} {m n : Machine} (h : R m n)
    (hpop : m.task.handsOver = true → Together R (pop.run m) (pop.run n)) :
    Together R ((step c).run m) ((step c).run n) := by
  have htask := hR.task h
  obtain ⟨heap, frame, here, task, stack, records, threshold, log⟩ := m
  obtain ⟨heap', frame', here', task', stack', records', threshold', log'⟩ := n
  obtain rfl : task = task' := htask
  cases task with
  | enter => exact enter_respects hR _ _ h
  | run body =>
    cases body with
    | nil => exact (hpop rfl).bind fun _ => resume_respects hR
    | cons s rest => exact (push_respects hR _ _ h).bind fun _ => execute_respects hR
  | eval e => exact evaluate_respects hR _ _ h
  | value s => exact (hpop rfl).bind fun _ => deliver_respects hR
  | values slots => exact (hpop rfl).bind fun _ => deliverAll_respects hR

end Actions

end Exec

end Offside
