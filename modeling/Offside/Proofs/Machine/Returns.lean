import Offside.Proofs.Machine.Called
import Offside.Proofs.Machine.Storing

/-! What variables get that receive what a call returns.

A method hands over the slots of the variables that it returns, not copies of their values, and the caller
stores them in its own variables one after another. So each variable gets what the return in its place held
when the body was done, unless an earlier store changes it: a return that is a parameter can be one of the
caller's variables. -/
namespace Offside

open Exec

/-- The machine in another scope. -/
def Machine.inScope (f : Frame) (m : Machine) : Machine := { m with frame := f }

/-- The machine executes a call of a method with a body, and variables receive what it returns. It is about to
at first, the body is done at `finished`, and the returns are stored at `after`. The rest of the statements
waits on the stack then, and more waits above it all the while before. -/
structure Machine.Performs (c : Catalog) (m : Machine) (call : Call) (targets : List String) (returns : List Decl)
    (finished after : Machine) : Prop where
  runs : ∃ steps, m.run c (steps + 1) = (finished, none) ∧ m.run c (steps + 3) = (after, none) ∧
    ∀ i < steps + 2, m.stack.length + 1 < (m.run c (i + 1)).1.stack.length
  works : ∃ span rest caller place, m.task = .run (.call call targets span :: rest) ∧
    finished.task = .run [] ∧
    finished.stack = .leave returns caller place :: .receive call targets span :: .rest rest :: m.stack ∧
    after.task = .run [] ∧ after.stack = .rest rest :: m.stack

/-! ### Statements by themselves -/

section Over
variable {c : Catalog} {r : EStateM.Result Halt Machine Unit} {i j : Nat} {m m' : Machine}

theorem advance_le_of_over (hi : (advance c)^[i] r = .ok () m) (htask : m.task.handsOver = true)
    (hstack : m.stack = []) (hj : (advance c)^[j] r = .ok () m') : j ≤ i := by
  by_contra hlt
  obtain ⟨k, rfl⟩ := Nat.exists_eq_add_of_lt (Nat.lt_of_not_le hlt)
  have hover := (advance_next hi).trans (Machine.step_finished htask hstack)
  rw [Nat.add_right_comm, Nat.add_comm, Function.iterate_add_apply, hover, advance_error] at hj
  cases hj

/-- A run that is over is so after so many steps and no others. -/
theorem advance_over_unique (hi : (advance c)^[i] r = .ok () m) (hj : (advance c)^[j] r = .ok () m')
    (htask : m.task = .run []) (hstack : m.stack = []) (htask' : m'.task = .run []) (hstack' : m'.stack = []) :
    i = j ∧ m = m' := by
  obtain rfl : i = j := Nat.le_antisymm (advance_le_of_over hj (by rw [htask']; rfl) hstack' hi)
    (advance_le_of_over hi (by rw [htask]; rfl) hstack hj)
  cases hi.symm.trans hj
  exact ⟨rfl, rfl⟩

end Over

/-- A statement that a machine executes and comes to the end of, with nothing else to do, is evaluated. -/
theorem stmt_of_run {c : Catalog} {s : Stmt} {w : World} {here : Option Span} {task : Task} {steps : Nat}
    {last : Machine} (hrun : (advance c)^[steps] ((execute c s).run (w.machine here task [])) = .ok () last)
    (htask : last.task = .run []) (hstack : last.stack = []) :
    ∃ w', Eval.stmt c (.ofRounds c (steps + 1)) s w = .ok () w' := by
  obtain ⟨first, hfirst⟩ : ∃ first, (execute c s).run (w.machine here task []) = .ok () first :=
    advance_ok_of_add (n := 0) (k := steps) (by rwa [Nat.zero_add])
  obtain ⟨_, habove, rfl⟩ := (execute_respects (Machine.above_twins [.single ⟨none, "", []⟩])
    (w.machine here task []) _ rfl).ok_left hfirst
  obtain ⟨hfinished, _, hstuck⟩ := Machine.advance_ends (Machine.run_eq_none.mpr (hfirst ▸ hrun)) (.inl htask) hstack
    ⟨none, "", []⟩
  have hsim : ∀ stack, Matches c (steps + 1) none (Finished stack) ((execute c s).run (w.machine here task stack))
      (Eval.stmt c (.ofRounds c (steps + 1)) s w) := fun stack =>
    stmt_matches (ofRounds_simulates c (steps + 1)) (Evaluator.ofRounds_grows c (steps + 1)) s
  obtain ⟨_, w', hres⟩ := (hfirst ▸ hsim []).eq_ok (habove ▸ hsim _) hfinished hstuck (by simp)
  exact ⟨w', hres⟩

/-! ### The steps of a call -/

section Steps
variable {c : Catalog} {n : Nat} {E : Evaluator} {here place : Option Span} {task : Task} {stack : List Pending}
  {w w' w₁ w₂ : World} {slots returned : List Slot}

/-- Arguments come to slots one by one, each as a value. -/
theorem supply_run (hE : Simulates c n E) {args : List Expr} (h : Eval.arguments E args w = .ok slots w₁)
    (before : List Slot) (goal : Goal) (here : Option Span) (task : Task) (stack : List Pending) :
    ∃ k task', (advance c)^[k] ((supply c before goal args).run (w.machine here task stack)) =
        (reach c (before.reverse ++ slots) goal).run (w₁.machine here task' stack) ∧
      ∀ j, k = j + 1 → ∃ m s, (advance c)^[j] ((supply c before goal args).run (w.machine here task stack)) =
        .ok () m ∧ m.task = .value s := by
  induction args generalizing w slots before task with
  | nil =>
    cases h
    refine ⟨0, task, ?_, fun j hj => by cases hj⟩
    rw [List.append_nil]
    rfl
  | cons e rest ih =>
    obtain ⟨s, w₀, hs, h⟩ := Eval.bind_eq_ok h
    obtain ⟨others, _, hothers, hpure⟩ := Eval.bind_eq_ok h
    cases hpure
    obtain ⟨i, hi⟩ := hE.run_expr hs here (.argument before rest goal :: stack)
    rw [Machine.run_eq_none] at hi
    obtain ⟨k, task', hk, hvalue⟩ := ih hothers (s :: before) (.value s)
    have hnext : ∀ j, (advance c)^[j + (i + 1)] ((supply c before goal (e :: rest)).run (w.machine here task stack)) =
        (advance c)^[j] ((supply c (s :: before) goal rest).run (w₀.machine here (.value s) stack)) := by
      intro j
      rw [Function.iterate_add_apply, Function.iterate_succ_apply']
      exact congrArg (fun r => (advance c)^[j] (advance c r)) hi
    refine ⟨k + (i + 1), task', ?_, fun j hj => ?_⟩
    · rw [hnext, hk, List.reverse_cons, List.append_assoc, List.singleton_append]
    · cases k with
      | zero =>
        obtain rfl : j = i := by omega
        exact ⟨_, s, hi, rfl⟩
      | succ k =>
        obtain rfl : j = k + (i + 1) := by omega
        rw [hnext]
        exact hvalue k rfl

/-- A method's body begins in a scope of its own. -/
theorem invoke_begins {cls : Class} {object : Option Slot} {m : Method} {locals : List Decl} {body : List Stmt}
    (h : Eval.Invoked c E cls object m locals body slots returned w w₁ w₂ w') :
    (invoke c cls object m slots).run (w.machine here task stack) =
      .ok () (w₁.machine here (.run body) (.leave m.header.returns w.frame here :: stack)) := by
  have hopens := h.opens
  have hframe := noted_frame .trace (fun _ => s!"calling {cls.name}.{m.header.print}") w
  rw [invoke_eq h.action, (note_local _ _).uniform.run_bind, note_on, ← hframe]
  generalize noted _ _ w = w₀ at hopens ⊢
  show (Eval.openScope c cls object m.header locals slots >>= fun _ => setTask (.run body)).run
    (w₀.machine here task (.leave m.header.returns w₀.frame here :: stack)) = _
  rw [(openScope_uniform _ _ _ _ _).run_bind, hopens]
  rfl

/-- Writing is done at once. -/
theorem invoke_writes {cls : Class} {object : Option Slot} {m : Method} (haction : m.action = .write)
    (h : Eval.invoke c E cls object m slots w = .ok returned w') :
    (invoke c cls object m slots).run (w.machine here task stack) =
      .ok () (w'.machine here (.values returned) stack) := by
  unfold Eval.invoke at h
  rw [haction] at h
  obtain ⟨values, w₁, hvalues, h⟩ := Eval.bind_eq_ok h
  obtain ⟨_, w₂, hwrite, hpure⟩ := Eval.bind_eq_ok h
  cases hwrite
  cases hpure
  simp only [invoke, haction]
  rw [(valuesOf_local slots).uniform.run_bind, Eval.act_eq_ok hvalues]
  rfl

theorem step_leave {returns : List Decl} {caller : Frame} (h : (lookupEach returns).on w = .ok returned w) :
    (step c).run (w.machine here (.run []) (.leave returns caller place :: stack)) =
      .ok () (({ w with frame := caller } : World).machine place (.values returned) stack) := by
  show (lookupEach returns >>= fun slots => setFrame caller >>= fun _ => moveTo place >>= fun _ =>
    setTask (.values slots)).run (w.machine here (.run []) stack) = _
  rw [(lookupEach_local returns).uniform.run_bind, h]
  rfl

theorem step_receive {call : Call} {targets : List String} {span : Span}
    (h : (storeEach (fun _ => s!"{call.print} returned {slots.length} values for {targets.length} targets") targets
      slots).on w = .ok () w') :
    (step c).run (w.machine here (.values slots) (.receive call targets span :: stack)) =
      .ok () (w'.machine (some span) (.run []) stack) := by
  show (storeEach _ targets slots >>= fun _ => setTask (.run [])).run (w.machine (some span) (.values slots) stack) = _
  rw [(storeEach_local _ targets slots).uniform.run_bind, h]
  rfl

end Steps

/-! ### The call as a whole -/

namespace Machine

variable {c : Catalog} {m finished after : Machine} {call : Call} {targets : List String} {returns : List Decl}

/-- The call by itself, with nothing else to do. -/
structure PerformsAlone (c : Catalog) (m : Machine) (call : Call) (targets : List String) (returns : List Decl)
    (span : Span) (inner outer : Machine) : Prop where
  runs : ∃ steps,
    (advance c)^[steps] ((execute c (.call call targets span)).run (m.world.machine m.here m.task [])) = .ok () inner ∧
    (advance c)^[steps + 2] ((execute c (.call call targets span)).run (m.world.machine m.here m.task [])) =
      .ok () outer
  inside : inner.task = .run [] ∧
    ∃ caller place, inner.stack = [.leave returns caller place, .receive call targets span]
  outside : outer.task = .run [] ∧ outer.stack = []

/-- What waits below does not matter. -/
theorem Performs.alone (h : m.Performs c call targets returns finished after) :
    ∃ span k inner outer, m.PerformsAlone c call targets returns span inner outer ∧ finished = inner.above k ∧
      after = outer.above k := by
  obtain ⟨⟨steps, hinner, houter, hwaits⟩, span, rest, caller, place, htask, htask₁, hstack₁, htask₂, hstack₂⟩ := h
  cases hstep : (step c).run m with
  | error reason m' =>
    rw [run, hstep] at hinner
    cases hinner
  | ok u m' =>
    -- The statement is executed above the rest of the statements.
    have hexecute : (step c).run m = (execute c (.call call targets span)).run
        ((m.world.machine m.here m.task []).above (.rest rest :: m.stack)) := by
      obtain ⟨heap, frame, here, task, stack, records, threshold, log⟩ := m
      cases htask
      rfl
    obtain ⟨first, hfirst, rfl⟩ := (execute_respects (above_twins _) _ _ rfl).ok_right (hexecute.symm.trans hstep)
    have hrun : ∀ i, m.run c (i + 1) = (first.above (.rest rest :: m.stack)).run c i := by
      intro i
      rw [run, hstep]
    rw [hrun] at hinner houter
    obtain ⟨outer, hown, rfl⟩ := run_of_run_high houter fun i hi _ => hrun i ▸ hwaits i hi
    rw [run_eq_none] at hown
    obtain ⟨inner, hearlier⟩ := advance_ok_of_add hown
    cases hinner.symm.trans (run_above (run_eq_none.mpr hearlier))
    rw [← hfirst] at hearlier hown
    refine ⟨span, _, inner, outer, ⟨⟨steps, hearlier, hown⟩, ⟨htask₁, caller, place, ?_⟩, htask₂, ?_⟩, rfl, rfl⟩
    · exact (List.append_left_inj (Pending.rest rest :: m.stack)).mp hstack₁
    · exact List.append_left_eq_self.mp hstack₂

end Machine

namespace Eval

variable {c : Catalog} {E : Evaluator} {n : Nat} {call : Call} {targets : List String} {span : Span} {t : Callee}
  {slots returned : List Slot} {w w₁ w₂ w' : World}

/-- What a call statement does: the call returns slots, and these are stored. -/
theorem stmt_call (h : stmt c E (.call call targets span) w = .ok () w') :
    ∃ returned w₁, Eval.call c E call targets.length w = .ok returned w₁ ∧
      (storeEach (fun _ => s!"{call.print} returned {returned.length} values for {targets.length} targets") targets
        returned).on w₁ = .ok () w' := by
  obtain ⟨returned, w₁, hcall, hstore⟩ := bind_eq_ok (within_eq_ok h)
  exact ⟨returned, w₁, hcall, act_eq_ok hstore⟩

/-- A machine that executes a call comes to where the method is called. Only a value can come just before. -/
theorem Called.run (hE : Simulates c n E) (h : Called c E call targets.length t slots returned w w₁ w₂ w')
    (span : Span) (here : Option Span) (task : Task) (stack : List Pending) :
    ∃ k task', (advance c)^[k] ((execute c (.call call targets span)).run (w.machine here task stack)) =
        (Exec.invoke c t.cls t.object t.method slots).run
          (w₂.machine (some span) task' (.receive call targets span :: stack)) ∧
      ∀ j, k = j + 1 → ∃ m s, (advance c)^[j] ((execute c (.call call targets span)).run (w.machine here task stack)) =
        .ok () m ∧ m.task = .value s := by
  obtain ⟨k, task', hk, hvalue⟩ := supply_run hE h.arguments []
    (.call call.object call.method targets.length) (some span) task (.receive call targets span :: stack)
  refine ⟨k, task', hk.trans ?_, hvalue⟩
  show (reach c slots (.call call.object call.method targets.length)).run _ = _
  rw [reach_call_eq, (callee_local ..).uniform.run_bind, h.reaches]
  rfl

end Eval

namespace Machine

variable {c : Catalog} {m inner outer : Machine} {call : Call} {targets : List String} {returns : List Decl}
  {span : Span}

/-- What was called has a body, which is done where the call is left. -/
theorem PerformsAlone.invoked (h : m.PerformsAlone c call targets returns span inner outer) :
    ∃ rounds t slots rs locals body w₁ w₂ w₃ w₄,
      Eval.Called c (.ofRounds c rounds) call targets.length t slots rs m.world w₁ w₂ w₄ ∧
      Eval.Invoked c (.ofRounds c rounds) t.cls t.object t.method locals body slots rs w₂ w₃ inner.world w₄ ∧
      returns = t.method.header.returns ∧
      (storeEach (fun _ => s!"{call.print} returned {rs.length} values for {targets.length} targets") targets rs).on
        w₄ = .ok () outer.world := by
  obtain ⟨⟨steps, hinner, houter⟩, ⟨htask, caller, place, hstack⟩, htask', hstack'⟩ := h
  obtain ⟨w', hstmt⟩ := stmt_of_run houter htask' hstack'
  obtain ⟨rs, w₄, hcall, hstore⟩ := Eval.stmt_call hstmt
  obtain ⟨t, slots, w₁, w₂, hcalled⟩ := Eval.call_eq_ok hcall
  have hsim := ofRounds_simulates c (steps + 2 + 1)
  obtain ⟨k, task, hk, hvalue⟩ := hcalled.run hsim span m.here m.task []
  cases haction : t.method.action with
  | write =>
    -- A value would have come two steps before the end, but statements are done there.
    have hend := (advance_next (hk.trans (invoke_writes haction hcalled.invokes))).trans (step_receive hstore)
    obtain ⟨heq, -⟩ := advance_over_unique houter hend htask' hstack' rfl rfl
    obtain ⟨last, s, hlast, hvalued⟩ := hvalue steps (by omega)
    cases hinner.symm.trans hlast
    cases htask.symm.trans hvalued
  | run locals body =>
    obtain ⟨w₃, w₅, hinvoked⟩ := Eval.invoke_run haction hcalled.invokes
    obtain ⟨j, here, hj⟩ := hsim.run_block hinvoked.runs (some span)
      [.leave t.method.header.returns w₂.frame (some span), .receive call targets span]
    have hdone := (Function.iterate_add_apply _ j k _).trans
      ((congrArg _ (hk.trans (invoke_begins hinvoked))).trans (run_eq_none.mp hj))
    have hvalues := (advance_next hdone).trans (step_leave hinvoked.returns)
    rw [← hinvoked.leaves] at hvalues
    have hend := (advance_next hvalues).trans (step_receive hstore)
    obtain ⟨heq, rfl⟩ := advance_over_unique houter hend htask' hstack' rfl rfl
    obtain rfl : steps = j + k := by omega
    cases hinner.symm.trans hdone
    cases hstack
    exact ⟨_, t, slots, rs, locals, body, w₁, w₂, w₃, w₄, hcalled, hinvoked, rfl, hstore⟩

end Machine

/-! ### Returns of their own -/

/-- What reaches a slot that there was before was there as well. -/
theorem Heap.Edits.reach_old {h h' : Heap} (he : Edits h h') (ho : h.Owned) {s t : Nat} (ht : t < h.size)
    (hreach : Relation.ReflTransGen h'.Contains s t) : s < h.size := by
  induction hreach using Relation.ReflTransGen.head_induction_on with
  | refl => exact ht
  | head hfirst _ ih =>
    obtain ⟨name, hholds⟩ := hfirst
    obtain ⟨v, hcell, -⟩ := he.holds_old ho ih hholds
    exact lt_size_of_cell? hcell

namespace Machine

variable {c : Catalog} {m m' m'' : Machine} {name : String} {names : List String} {slots : List Slot} {r t : Slot}

/-- A slot that is newer than the scope and that no object has as a field reaches none of the scope's
variables. -/
theorem Finds.unreached_of_new (hm : m.Based c) (he : Heap.Edits m.heap m'.heap)
    (ht : (m'.inScope m.frame).Finds name t) (hnew : m.heap.size ≤ r) (hfree : m'.heap.Unowned r) :
    ¬ Relation.ReflTransGen m'.heap.Contains r t := by
  have ho := hm.heap.owned
  intro hreach
  rcases ht with hlocal | ⟨-, object, fields, hobject, hcell, hfield⟩
  · exact Nat.not_lt_of_le hnew (he.reach_old ho (hm.frame.locals name t hlocal) hreach)
  · have hholds : m'.heap.Holds object name t := ⟨_, hcell, Bindings.mem_of_get? hfield⟩
    cases hreach with
    | refl => exact hfree.free object name hholds
    | @tail owner _ hpath hlast =>
      -- Only the scope's object has the field, and it is old.
      obtain ⟨other, howner⟩ := hlast
      obtain ⟨rfl, -⟩ := (ho.edits he).single howner hholds
      have hold := Heap.lt_size_iff.mpr ⟨_, hm.frame.object owner hobject⟩
      exact Nat.not_lt_of_le hnew (he.reach_old ho hold hpath)

theorem Finds.of_same (h : m.Finds name t) (hheap : m'.heap = m.heap) (hframe : m'.frame = m.frame) :
    m'.Finds name t := by
  simpa only [Finds, FindsField, hheap, hframe] using h

theorem StoresInTurn.of_same (h : StoresInTurn names slots m m') (hheap : m''.heap = m'.heap)
    (hframe : m''.frame = m'.frame) : StoresInTurn names slots m m'' := by
  induction h with
  | done hheap' hframe' => exact .done (hheap.trans hheap') (hframe.trans hframe')
  | next hdenotes hframe₁ hvalue hkeeps _ ih => exact .next hdenotes hframe₁ hvalue hkeeps (ih hheap hframe)

/-- A call of a method that has a body hands over the slots of its returns, which are stored in the caller's
scope. They are new if none is a parameter. -/
theorem Performs.returned {call : Call} {targets : List String} {returns : List Decl} {finished after : Machine}
    (hc : c.Regular) (hm : m.Based c) (h : m.Performs c call targets returns finished after) :
    ∃ method ∈ finished.frame.cls.methods, method.header.name = call.method ∧ method.header.returns = returns ∧
      (targets = [] ∨ targets.length = returns.length) ∧
      ∃ rs, List.Forall₂ (fun d r => finished.Denotes d.name r) returns rs ∧
        (∃ shortfall stored, (storeEach shortfall targets rs).run (finished.inScope m.frame) = .ok () stored ∧
          after.heap = stored.heap ∧ after.frame = stored.frame) ∧
        (method.header.separate = true → ∀ r ∈ rs, m.heap.size ≤ r ∧ finished.heap.Unowned r) := by
  obtain ⟨span, k, inner, outer, halone, rfl, rfl⟩ := h.alone
  obtain ⟨rounds, t, slots, rs, locals, body, w₁, w₂, w₃, w₄, hcalled, hinvoked, rfl, hstore⟩ := halone.invoked
  have hserved := hcalled.served hc (w := m.world) ⟨hm.heap, hm.frame⟩
  have hcls : inner.frame.cls = t.cls := hinvoked.cls_eq (Evaluator.ofRounds_grows c rounds)
  have hback : w₄ = (inner.inScope m.frame).world := by
    rw [hinvoked.leaves, hcalled.frame_eq]
    rfl
  have hnew := hcalled.returns_new hm.heap.owned
  rw [hback] at hstore hnew
  have hrun := (storeEach_local ..).uniform.run_of_ok hstore inner.here inner.task (inner.stack ++ k)
  refine ⟨t.method, ?_, hserved.name, rfl, ?_, rs, ?_, ⟨_, _, hrun, rfl, rfl⟩, hnew⟩
  · exact hcls ▸ hserved.method
  · rcases hserved.serves with hwrite | ⟨-, hnone | hlength⟩
    · cases hinvoked.action.symm.trans hwrite
    · exact .inl (List.eq_nil_of_length_eq_zero hnone)
    · exact .inr hlength
  · refine (lookupEach_eq_ok hinvoked.returns).2.imp fun d r hlookup => ?_
    exact (lookup_local d.name).uniform.run_of_ok hlookup inner.here inner.task (inner.stack ++ k)

end Machine

/-- A call hands over the slots that the returns of the method have when its body is done, and what is in them
is stored in the targets one after another. If the targets are apart from one another, each gets what the
return in its place held when the body was done, provided that no return is a parameter, or at least that no
target is part of what a later return holds. -/
theorem call_stores_returns (p : Program) (m₀ m finished after : Machine) (n : Nat) (call : Call)
    (targets : List String) (returns : List Decl) (hreach : m₀.restart.run (.ofProgram p) n = (m, none))
    (h : m.Performs (.ofProgram p) call targets returns finished after) :
    finished.frame.cls ∈ (Catalog.ofProgram p).classes ∧
    ∃ method ∈ finished.frame.cls.methods, method.header.name = call.method ∧ method.header.returns = returns ∧
      (targets = [] ∨ targets.length = returns.length) ∧
      ∃ rs, List.Forall₂ (fun d r => finished.Denotes d.name r) returns rs ∧
        Machine.StoresInTurn targets rs (finished.inScope m.frame) after ∧
        ∀ ts, List.Forall₂ (finished.inScope m.frame).Denotes targets ts →
          ts.Pairwise finished.heap.Apart →
          (method.header.separate = true ∨
            (ts.zip rs).Pairwise fun a b => ¬ Relation.ReflTransGen finished.heap.Contains b.2 a.1) →
          List.Forall₂ after.Denotes targets ts ∧
          List.Forall₂ (fun t r => after.heap.value? t = finished.heap.value? r) ts (rs.take ts.length) := by
  have hc := Catalog.ofProgram_regular p
  obtain ⟨steps, hrun, -⟩ := h.runs
  have hm := (Machine.run_sensible hc hreach).based
  have hreach₁ : m₀.restart.run (.ofProgram p) (n + (steps + 1)) = (finished, none) := by
    rw [Machine.run_add, hreach]
    exact hrun
  have hfinished := (Machine.run_sensible hc hreach₁).based
  have hedits := Machine.run_edits (.ofProgram p) (steps + 1) m
  rw [hrun] at hedits
  have hback : (finished.inScope m.frame).Based (.ofProgram p) :=
    ⟨hfinished.heap, hm.frame.mono hedits.keepsForms⟩
  obtain ⟨method, hmethod, hname, hreturns, htargets, rs, hrs, ⟨shortfall, stored, hstores, hheap, hframe⟩, hnew⟩ :=
    h.returned hc hm
  have hcls := hfinished.frame.cls.resolve_right (List.ne_nil_of_mem hmethod)
  refine ⟨hcls, method, hmethod, hname, hreturns, htargets, rs, hrs, ?_, fun ts hts hapart hlater => ?_⟩
  · refine (Machine.storeEach_inTurn hc hback ?_ hstores).of_same hheap hframe
    rw [← hrs.length_eq]
    rcases htargets with rfl | htargets
    · exact Nat.zero_le _
    · exact htargets.le
  · have hfinds := hts.imp fun _ _ => (Machine.denotes_iff hback).mp
    rcases htargets with rfl | htargets
    · cases hts
      exact ⟨.nil, .nil⟩
    · have hlength : ts.length = rs.length := by rw [← hts.length_eq, htargets, hrs.length_eq]
      have hold : ∀ r ∈ rs, r < finished.heap.size := Machine.Finds.lt_all hfinished
        (List.forall₂_map_left_iff.mpr (hrs.imp fun _ _ => (Machine.denotes_iff hfinished).mp))
      have hfree : (ts.zip rs).Pairwise fun a b => ¬ Relation.ReflTransGen finished.heap.Contains b.2 a.1 := by
        rcases hlater with hseparate | hlater
        · have hunreached : ∀ t ∈ ts, ∀ r ∈ rs, ¬ Relation.ReflTransGen finished.heap.Contains r t :=
            Machine.Finds.forall_mem hfinds fun _ _ ht r hr =>
              ht.unreached_of_new hm hedits (hnew hseparate r hr).1 (hnew hseparate r hr).2
          exact List.pairwise_of_forall_mem_list fun a ha b hb =>
            hunreached a.1 (List.of_mem_zip ha).1 b.2 (List.of_mem_zip hb).2
        · exact hlater
      obtain ⟨hfound, hvalues⟩ := Machine.storeEach_apart hc hback hfinds hlength hold hapart hfree hstores
      rw [hlength, List.take_length, hheap]
      exact ⟨hfound.imp fun _ _ hfinds => Machine.denotes_of_finds (hfinds.of_same hheap hframe), hvalues⟩

/-! ### Returns that are parameters -/

/-- One method returns its parameters the other way round in variables of its own, and another one returns the
parameters themselves. -/
def Program.trading : Program :=
  let place : Span := .single ⟨1, 1, "f"⟩
  let parameters : List Decl := [⟨"boolean", "a"⟩, ⟨"boolean", "b"⟩]
  let exchange (name : String) : Stmt := .call ⟨none, name, [.variable "x", .variable "y"]⟩ ["x", "y"] place
  let start : MethodDecl :=
    ⟨⟨"start", [], []⟩, false, true, [⟨"boolean", "x"⟩, ⟨"boolean", "y"⟩],
      [.assign "x" (.truth true) place, exchange "trade", exchange "swap"], place⟩
  let trade : MethodDecl :=
    ⟨⟨"trade", parameters, [⟨"boolean", "c"⟩, ⟨"boolean", "d"⟩]⟩, false, true, [],
      [.assign "c" (.variable "b") place, .assign "d" (.variable "a") place], place⟩
  let swap : MethodDecl :=
    ⟨⟨"swap", parameters, parameters.reverse⟩, false, true, [],
      [.call ⟨some "console", "write", [.variable "a", .variable "b"]⟩ [] place], place⟩
  ⟨[], [⟨"main", [], [], [], [start, trade, swap], place⟩]⟩

theorem call_stores_returns_trading :
    (Machine.start .critical).restart.run (.ofProgram .trading) 5 = (Program.trading.after 5, none) ∧
    (Program.trading.after 5).Performs (.ofProgram .trading) ⟨none, "trade", [.variable "x", .variable "y"]⟩
      ["x", "y"] [⟨"boolean", "c"⟩, ⟨"boolean", "d"⟩] (Program.trading.after 18) (Program.trading.after 20) ∧
    ∃ c d, (Program.trading.after 18).Denotes "c" c ∧ (Program.trading.after 18).Denotes "d" d ∧
      (Program.trading.after 20).Denotes "x" 0 ∧ (Program.trading.after 20).Denotes "y" 1 ∧
      (Program.trading.after 20).heap.value? 0 = (Program.trading.after 18).heap.value? c ∧
      (Program.trading.after 20).heap.value? 1 = (Program.trading.after 18).heap.value? d := by
  have hreach : (Machine.start .critical).restart.run (.ofProgram .trading) 5 =
      (Program.trading.after 5, none) := Program.reaches_after (by decide +kernel)
  have hperforms : (Program.trading.after 5).Performs (.ofProgram .trading)
      ⟨none, "trade", [.variable "x", .variable "y"]⟩ ["x", "y"] [⟨"boolean", "c"⟩, ⟨"boolean", "d"⟩]
      (Program.trading.after 18) (Program.trading.after 20) := by
    refine ⟨⟨12, Machine.run_between (by decide +kernel), Machine.run_between (by decide +kernel), by decide +kernel⟩,
      .single ⟨1, 1, "f"⟩, [.call ⟨none, "swap", [.variable "x", .variable "y"]⟩ ["x", "y"] (.single ⟨1, 1, "f"⟩)],
      (Program.trading.after 5).frame, some (.single ⟨1, 1, "f"⟩), ?_, ?_, ?_, ?_, ?_⟩
    all_goals decide +kernel
  obtain ⟨-, method, hmethod, hname, -, -, rs, hrs, -, hstored⟩ := call_stores_returns .trading (.start .critical)
    _ _ _ 5 _ _ _ hreach hperforms
  have hmethods : ((Program.trading.after 18).frame.cls.methods.all fun m =>
      m.header.name ≠ "trade" || m.header.separate) = true := by decide +kernel
  have hseparate : method.header.separate = true := by
    simpa [hname] using List.all_eq_true.mp hmethods method hmethod
  have htargets : List.Forall₂ ((Program.trading.after 18).inScope (Program.trading.after 5).frame).Denotes ["x", "y"]
      [0, 1] := .cons (by decide +kernel) (.cons (by decide +kernel) .nil)
  have hapart : (Program.trading.after 18).heap.Apart 0 1 :=
    Heap.apart_of_plain (s := 0) (t := 1) (v := .truth true) (w := .truth false) (by decide +kernel) rfl (by decide +kernel) rfl (by decide)
  obtain ⟨hfound, hvalues⟩ := hstored [0, 1] htargets (List.pairwise_pair.mpr hapart) (.inl hseparate)
  obtain ⟨c, _, hc, hrest, rfl⟩ := List.forall₂_cons_left_iff.mp hrs
  obtain ⟨d, _, hd, hrest, rfl⟩ := List.forall₂_cons_left_iff.mp hrest
  cases hrest
  simp only [List.length_cons, List.length_nil, List.take_succ_cons, List.forall₂_cons] at hfound hvalues
  exact ⟨hreach, hperforms, c, d, hc, hd, hfound.1, hfound.2.1, hvalues.1, hvalues.2.1⟩

/-- The returns are true and false when the body is done, in this order, and both variables are true afterwards. -/
theorem returned_parameter_lost :
    (Machine.start .critical).restart.run (.ofProgram .trading) 21 = (Program.trading.after 21, none) ∧
    (Program.trading.after 21).Performs (.ofProgram .trading) ⟨none, "swap", [.variable "x", .variable "y"]⟩
      ["x", "y"] [⟨"boolean", "b"⟩, ⟨"boolean", "a"⟩] (Program.trading.after 33) (Program.trading.after 35) ∧
    ((Program.trading.after 33).inScope (Program.trading.after 21).frame).Denotes "x" 0 ∧
    ((Program.trading.after 33).inScope (Program.trading.after 21).frame).Denotes "y" 1 ∧
    (Program.trading.after 33).Denotes "b" 1 ∧ (Program.trading.after 33).heap.value? 1 = some (.truth true) ∧
    (Program.trading.after 33).Denotes "a" 0 ∧ (Program.trading.after 33).heap.value? 0 = some (.truth false) ∧
    (Program.trading.after 35).Denotes "x" 0 ∧ (Program.trading.after 35).heap.value? 0 = some (.truth true) ∧
    (Program.trading.after 35).Denotes "y" 1 ∧ (Program.trading.after 35).heap.value? 1 = some (.truth true) := by
  refine ⟨Program.reaches_after (by decide +kernel),
    ⟨⟨11, Machine.run_between (by decide +kernel), Machine.run_between (by decide +kernel), by decide +kernel⟩,
      .single ⟨1, 1, "f"⟩, [], (Program.trading.after 21).frame, some (.single ⟨1, 1, "f"⟩), ?_, ?_, ?_, ?_, ?_⟩,
    ?_, ?_, ?_, ?_, ?_, ?_, ?_, ?_, ?_, ?_⟩
  all_goals decide +kernel

end Offside
