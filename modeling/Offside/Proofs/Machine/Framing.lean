import Offside.Proofs.Machine.Parallel

/-! The work that waits below.

No action looks below the work that it takes from the stack. So what a machine does before it hands over
to the work that waits there is the same whatever that is, and in particular if nothing waits at all:
then the run is over when it would hand over. -/
namespace Offside

open Exec

/-- The machine with more work that waits, below its own. -/
def Machine.above (k : List Pending) (m : Machine) : Machine := { m with stack := m.stack ++ k }

namespace Machine

variable {c : Catalog} {k : List Pending} {m n : Machine}

/-- A run of some steps goes on where a run of fewer steps stopped. -/
theorem run_add (steps more : Nat) (m : Machine) :
    m.run c (steps + more) = match m.run c steps with
      | (m', none) => m'.run c more
      | (m', some h) => (m', some h) := by
  induction steps generalizing m with
  | zero => rw [Nat.zero_add, run]
  | succ steps ih =>
    rw [Nat.add_right_comm, run, run]
    cases (Exec.step c).run m with
    | ok u m' => exact ih m'
    | error h m' => rfl

/-- A run that has not halted goes on in the same way from any state that it came through. -/
theorem run_between {steps more : Nat} (h : (m.run c (steps + more)).2.isNone) :
    (m.run c steps).1.run c more = ((m.run c (steps + more)).1, none) := by
  have hrun : m.run c (steps + more) = ((m.run c (steps + more)).1, none) :=
    Prod.ext rfl (Option.isNone_iff_eq_none.mp h)
  rw [← hrun, run_add]
  rw [run_add] at h
  generalize m.run c steps = r at h ⊢
  obtain ⟨m', _ | reason⟩ := r
  · rfl
  · cases h

theorem step_between {steps : Nat} (h : (m.run c (steps + 1)).2.isNone) :
    (step c).run (m.run c steps).1 = .ok () (m.run c (steps + 1)).1 := by
  have hrun := run_between h
  rw [run] at hrun
  cases hstep : (step c).run (m.run c steps).1 with
  | ok u m' =>
    rw [hstep] at hrun
    exact congrArg (EStateM.Result.ok ()) (congrArg Prod.fst hrun)
  | error reason m' =>
    rw [hstep] at hrun
    cases hrun

theorem above_twins (k : List Pending) : Twins fun m n => n = m.above k where
  heap h := by rw [h]; rfl
  frame h := by rw [h]; rfl
  here h := by rw [h]; rfl
  task h := by rw [h]; rfl
  setHeap _ h := by rw [h]; rfl
  setFrame _ h := by rw [h]; rfl
  setHere _ h := by rw [h]; rfl
  setTask _ h := by rw [h]; rfl
  push _ h := by rw [h]; rfl
  write _ h := by rw [h]; rfl
  note level message h := by
    rw [h]
    unfold noted above
    dsimp only
    split <;> rfl

/-- A machine with work of its own takes from that. -/
theorem pop_above (hm : m.stack ≠ []) :
    Together (fun m n => n = m.above k) (pop.run m) (pop.run (m.above k)) := by
  obtain ⟨heap, frame, here, task, stack, records, threshold, log⟩ := m
  cases stack with
  | nil => exact absurd rfl hm
  | cons p rest => exact .ok rfl

theorem step_above (hm : m.task.handsOver = true → m.stack ≠ []) :
    Together (fun m n => n = m.above k) ((step c).run m) ((step c).run (m.above k)) :=
  step_respects (above_twins k) rfl fun h => pop_above (hm h)

/-- A machine that has nothing to hand over to is over. -/
theorem step_finished (htask : m.task.handsOver = true) (hstack : m.stack = []) :
    (step c).run m = .error .finished m := by
  obtain ⟨heap, frame, here, task, stack, records, threshold, log⟩ := m
  obtain rfl : stack = [] := hstack
  cases task with
  | run body =>
    cases body with
    | nil => rfl
    | cons s rest => cases htask
  | value s => rfl
  | values slots => rfl
  | enter | eval e => cases htask

/-- What goes on by itself does so above any work that waits. -/
theorem step_above_of_ok (h : (step c).run m = .ok () n) :
    (step c).run (m.above k) = .ok () (n.above k) := by
  have hm : m.task.handsOver = true → m.stack ≠ [] := by
    intro htask hstack
    rw [step_finished htask hstack] at h
    cases h
  obtain ⟨_, hstep, rfl⟩ := (step_above hm).ok_left h
  exact hstep

/-- A step goes below its own work only if it hands over to what waits there. -/
theorem handsOver_of_step_below (hstep : (step c).run (m.above k) = .ok () n) (hn : n.stack.length < k.length) :
    m.task.handsOver = true ∧ m.stack = [] := by
  refine Classical.byContradiction fun hown => ?_
  obtain ⟨m', -, rfl⟩ := (step_above fun htask hstack => hown ⟨htask, hstack⟩).ok_right hstep
  rw [above, List.length_append] at hn
  omega

theorem run_above {steps : Nat} (h : m.run c steps = (n, none)) :
    (m.above k).run c steps = (n.above k, none) := by
  induction steps generalizing m with
  | zero =>
    cases h
    rfl
  | succ steps ih =>
    rw [run] at h ⊢
    cases hstep : (step c).run m with
    | ok u m' =>
      rw [hstep] at h
      rw [step_above_of_ok hstep]
      exact ih h
    | error reason m' =>
      rw [hstep] at h
      cases h

/-- What goes on above work that waits goes on by itself, if it never hands over to that work. -/
theorem run_of_run_own {steps : Nat} (hrun : (m.above k).run c steps = (n, none))
    (hown : ∀ i < steps, ∀ m', m.run c i = (m', none) → m'.task.handsOver = true → m'.stack ≠ []) :
    ∃ n', m.run c steps = (n', none) ∧ n = n'.above k := by
  induction steps generalizing m with
  | zero =>
    cases hrun
    exact ⟨m, rfl, rfl⟩
  | succ steps ih =>
    rw [run] at hrun
    cases hstep : (step c).run (m.above k) with
    | ok u m₁ =>
      obtain ⟨m', hstep', rfl⟩ := (step_above (hown 0 (Nat.succ_pos _) m rfl)).ok_right hstep
      rw [hstep] at hrun
      obtain ⟨n', hrun', hn'⟩ := ih hrun fun i hi m₂ hm₂ =>
        hown (i + 1) (Nat.succ_lt_succ hi) m₂ (by rw [run, hstep']; exact hm₂)
      exact ⟨n', by rw [run, hstep']; exact hrun', hn'⟩
    | error reason m₁ =>
      rw [hstep] at hrun
      cases hrun

/-- What goes on above work that waits goes on by itself, if there is work of its own whenever it hands over. -/
theorem run_of_run_high {steps : Nat} (hrun : (m.above k).run c steps = (n, none))
    (hhigh : ∀ i < steps, ((m.above k).run c i).1.task.handsOver = true →
      k.length < ((m.above k).run c i).1.stack.length) : ∃ n', m.run c steps = (n', none) ∧ n = n'.above k := by
  refine run_of_run_own hrun fun i hi m' hm' htask hstack => ?_
  have hlength := hhigh i hi
  rw [run_above hm', above, hstack] at hlength
  exact absurd (hlength htask) (Nat.lt_irrefl _)

/-- What goes on above work that waits goes on by itself, if that work gives up its place when it is
handed something. -/
theorem run_of_run_above {steps : Nat} (hrun : (m.above k).run c steps = (n, none))
    (hwaits : ∀ i ≤ steps, k.length ≤ ((m.above k).run c i).1.stack.length)
    (htop : ∀ m m', m.stack = k → m.task.handsOver = true → (step c).run m = .ok () m' →
      m'.stack.length < k.length) : ∃ n', m.run c steps = (n', none) ∧ n = n'.above k := by
  refine run_of_run_own hrun fun i hi m' hm' htask hstack => ?_
  -- The work below would be handed something in the next step, and would be gone after it.
  have hnext := hwaits (i + 1) hi
  have hone : (m.above k).run c (i + 1) = (m'.above k).run c 1 := by rw [run_add, run_above hm']
  obtain ⟨more, rfl⟩ := Nat.exists_eq_add_of_lt hi
  rw [show i + more + 1 = i + 1 + more by omega, run_add, hone] at hrun
  rw [hone] at hnext
  cases hstep : (step c).run (m'.above k) with
  | ok u m'' =>
    rw [run, hstep] at hnext
    exact absurd (htop (m'.above k) m'' (congrArg (· ++ k) hstack) htask hstep) (Nat.not_lt_of_le hnext)
  | error reason m'' =>
    rw [run, hstep] at hrun
    cases hrun

end Machine

/-- The machine of a first run after so many steps. -/
def Program.after (p : Program) (steps : Nat) : Machine :=
  ((Machine.start .critical).restart.run (.ofProgram p) steps).1

namespace Program

variable {p : Program}

theorem reaches_after {steps : Nat}
    (h : ((Machine.start .critical).restart.run (.ofProgram p) steps).2.isNone) :
    (Machine.start .critical).restart.run (.ofProgram p) steps = (p.after steps, none) :=
  Prod.ext rfl (Option.isNone_iff_eq_none.mp h)

end Program

end Offside
