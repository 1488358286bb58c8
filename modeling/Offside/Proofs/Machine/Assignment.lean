import Offside.Proofs.Heap.Contents
import Offside.Proofs.Machine.Comparison
import Offside.Proofs.Machine.Expressions
import Offside.Proofs.Machine.Safety

/-! What an assignment does to the variable that it names.

The slot of the variable is looked up before the expression is evaluated, and the value is written into
that slot afterwards. -/
namespace Offside

open Exec

namespace Machine

/-- Looking the variable up leads to this slot. -/
def Denotes (m : Machine) (name : String) (s : Slot) : Prop := (lookup name).run m = .ok s m

/-- The machine executes `name = e`: it is about to at first, it has evaluated the expression at `before`,
and it has taken the last step at `after`. The rest of the statements waits on the stack then, and more
waits above it all the while before. -/
structure Completes (c : Catalog) (m : Machine) (name : String) (e : Expr) (before after : Machine) : Prop where
  starts : ∃ span rest, m.task = .run (.assign name e span :: rest)
  evaluates : ∃ steps, m.run c (steps + 1) = (before, none) ∧
    ∀ i ≤ steps, m.stack.length + 1 < (m.run c (i + 1)).1.stack.length
  finishes : (step c).run before = .ok () after
  ends : after.stack.length ≤ m.stack.length + 1

/-- What an assignment does: it finds the slot `target`, evaluates the expression to what is in the slot
`source` of `before`, and writes that into the slot that it found. -/
structure Assigns (c : Catalog) (m : Machine) (name : String) (e : Expr) (target source : Slot)
    (before after : Machine) : Prop where
  found : m.Finds name target
  evaluated : ∃ rounds, (Evaluator.ofRounds c rounds).expr e m.world = .ok source before.world
  value : before.task = .value source
  edits : Heap.Edits m.heap before.heap
  written : ∃ u, before.heap.update target source = .ok u ∧ after.heap = before.heap.apply target u ∧
    after.frame = before.frame

section
variable {c : Catalog} {m m' : Machine} {name : String} {s : Slot}

/-! ### Variables -/

theorem denotes_of_finds (h : m.Finds name s) : m.Denotes name s := by
  have hfind : (find? name).run m = .ok (some s) m := by
    refine bind_run_eq_ok.mpr ⟨m.frame, m, rfl, ?_⟩
    rcases h with hlocal | ⟨hlocal, object, fields, hobject, hcell, hfield⟩
    · simp only [hlocal]
      rfl
    · simp only [hlocal]
      refine bind_run_eq_ok.mpr ⟨fields, m, ?_, by rw [hfield]; rfl⟩
      refine bind_run_eq_ok.mpr ⟨m.frame, m, rfl, ?_⟩
      simp only [hobject]
      refine bind_run_eq_ok.mpr ⟨.object m.frame.cls fields, m, ?_, rfl⟩
      rw [cell_run, hcell]
      rfl
  exact bind_run_eq_ok.mpr ⟨some s, m, hfind, rfl⟩

theorem denotes_iff_run' : m.Denotes name s ↔ (lookup name).run' m = some s := by
  unfold Denotes EStateM.run'
  cases hlookup : (lookup name).run m with
  | ok s' m' =>
    obtain rfl := (lookup_run hlookup).1
    simp
  | error e m' => simp

instance : Decidable (m.Denotes name s) := decidable_of_iff _ denotes_iff_run'.symm

theorem Finds.lt (h : m.Finds name s) (hm : m.Based c) : s < m.heap.size := by
  rcases h with hlocal | ⟨-, object, fields, -, hcell, hfield⟩
  · exact hm.frame.locals name s hlocal
  · exact hm.heap.field_lt hcell (Bindings.mem_of_get? hfield)

theorem finds_of_lookup (hm : m.Based c) (h : (lookup name).run m = .ok s m') : m.Finds name s := by
  have hmeets := lookup_meets hm name
  rw [Meets, h] at hmeets
  exact hmeets.2.2

theorem denotes_iff (hm : m.Based c) : m.Denotes name s ↔ m.Finds name s :=
  ⟨finds_of_lookup hm, denotes_of_finds⟩

/-! ### The steps of an assignment -/

/-- An assignment starts with a look at its variable. -/
theorem step_assign {e : Expr} {span : Span} {rest : List Stmt} (hm : m.Based c)
    (htask : m.task = .run (.assign name e span :: rest)) (hstep : (step c).run m = .ok () m') :
    ∃ t, m.Finds name t ∧
      m' = (m.world.machine (some span) (.eval e) []).above (.store t :: .rest rest :: m.stack) := by
  obtain ⟨heap, frame, here, task, stack, records, threshold, log⟩ := m
  obtain rfl : task = _ := htask
  -- The step notes what comes after the assignment and where it is, and looks the variable up.
  have hlook : (lookup name >>= fun t => await (.store t) (.eval e)).run
      ⟨heap, frame, some span, .run (.assign name e span :: rest), .rest rest :: stack, records, threshold, log⟩ =
      .ok () m' := hstep
  obtain ⟨t, m₁, hlookup, hawait⟩ := bind_run_eq_ok.mp hlook
  obtain ⟨rfl, -⟩ := lookup_run hlookup
  cases hawait
  have hfinds := finds_of_lookup (c := c) (by exact ⟨hm.heap, hm.frame⟩) hlookup
  exact ⟨t, hfinds, rfl⟩

/-- A write that waits is handed a value, or nothing goes on. -/
theorem step_store {t : Slot} {k : List Pending} (hstack : m.stack = .store t :: k)
    (htask : m.task.handsOver = true) (hstep : (step c).run m = .ok () m') :
    ∃ s u, m.task = .value s ∧ m.heap.update t s = .ok u ∧
      m' = { m with heap := m.heap.apply t u, task := .run [], stack := k } := by
  obtain ⟨heap, frame, here, task, stack, records, threshold, log⟩ := m
  obtain rfl : stack = _ := hstack
  cases task with
  | enter | eval e => cases htask
  | run body =>
    cases body with
    | nil => cases hstep
    | cons s rest => cases htask
  | values slots => cases hstep
  | value s =>
    have hdeliver : (assign t s >>= fun _ => setTask (.run [])).run
        ⟨heap, frame, here, .value s, k, records, threshold, log⟩ = .ok () m' := hstep
    obtain ⟨_, m₁, hassign, hset⟩ := bind_run_eq_ok.mp hdeliver
    obtain ⟨u, hu, rfl⟩ := assign_run hassign
    cases hset
    exact ⟨s, u, rfl, hu, rfl⟩

end

/-- An assignment that completes looks its variable up, evaluates its expression, and writes. -/
theorem Completes.assigns {c : Catalog} {m before after : Machine} {name : String} {e : Expr}
    (h : m.Completes c name e before after) (hm : m.Based c) :
    ∃ target source, m.Assigns c name e target source before after := by
  obtain ⟨span, rest, htask⟩ := h.starts
  obtain ⟨steps, hrun, hwaits⟩ := h.evaluates
  have hedits : Heap.Edits m.heap before.heap := by
    have hedits := run_edits c (steps + 1) m
    rwa [hrun] at hedits
  cases hstep : (step c).run m with
  | error reason m' =>
    rw [run, hstep] at hrun
    cases hrun
  | ok u m' =>
    obtain ⟨t, hfinds, rfl⟩ := step_assign hm htask hstep
    have hshift : ∀ i, m.run c (i + 1) = Machine.run c i _ := fun i => by rw [run, hstep]
    rw [hshift] at hrun
    -- Nothing is handed to the write until the last step, so the expression is evaluated by itself.
    obtain ⟨alone, halone, rfl⟩ := run_of_run_above hrun
      (fun i hi => by rw [← hshift]; exact hwaits i hi)
      fun n n' hn htask hstep => by
        obtain ⟨_, _, -, -, rfl⟩ := step_store hn htask hstep
        show (_ :: m.stack).length < _
        simp
    obtain ⟨hhands, hempty⟩ := handsOver_of_step_below h.finishes (Nat.lt_succ_of_le h.ends)
    have hstack : (above (.store t :: .rest rest :: m.stack) alone).stack = .store t :: .rest rest :: m.stack :=
      congrArg (· ++ _) hempty
    obtain ⟨source, u, hvalue, hu, rfl⟩ := step_store hstack hhands h.finishes
    have hexpr := (expr_of_run halone hvalue hempty).1
    exact ⟨t, source, hfinds, ⟨_, hexpr⟩, hvalue, hedits, u, hu, rfl, rfl⟩

namespace Assigns

variable {c : Catalog} {m before after : Machine} {name : String} {e : Expr} {target source : Slot}

/-- The scope is the same all the time. -/
theorem frame_eq (h : m.Assigns c name e target source before after) : before.frame = m.frame := by
  obtain ⟨rounds, hexpr⟩ := h.evaluated
  exact Evaluator.ofRounds_steady c rounds e _ _ _ hexpr

/-- The variable has its slot still if it is a local one, or if nothing was called. -/
theorem finds_still (h : m.Assigns c name e target source before after)
    (hstill : m.frame.locals.contains name = true ∨ e.quiet = true) : before.Finds name target := by
  obtain ⟨rounds, hexpr⟩ := h.evaluated
  have hframe := h.frame_eq
  rcases h.found with hlocal | ⟨hlocal, object, fields, hobject, hcell, hfield⟩
  · exact .inl (by rw [hframe, hlocal])
  · have hquiet : e.quiet = true := by
      refine hstill.resolve_left fun hcontains => ?_
      rw [Bindings.contains, hlocal] at hcontains
      cases hcontains
    have hsame := (Evaluator.ofRounds_adds c rounds hquiet _ _ _ hexpr).2 object (Heap.lt_size_of_cell? hcell)
    refine .inr ⟨by rw [hframe, hlocal], object, fields, by rw [hframe, hobject], ?_, hfield⟩
    rw [hframe, ← hcell]
    exact hsame

/-- A variable that is no local one is a field of the object, in the same object all the time. -/
theorem holds (h : m.Assigns c name e target source before after) {object : Slot}
    (hlocal : m.frame.locals.get? name = none) (hobject : m.frame.object = some object) :
    m.heap.Holds object name target := by
  rcases h.found with hlocal' | ⟨-, object', fields, hobject', hcell, hfield⟩
  · rw [hlocal] at hlocal'
    cases hlocal'
  · cases hobject.symm.trans hobject'
    exact ⟨_, hcell, Bindings.mem_of_get? hfield⟩

/-- The write does not change which slot the variable has. -/
theorem finds_iff (h : m.Assigns c name e target source before after) (hm : m.Based c) (s : Slot) :
    after.Finds name s ↔ before.Finds name s := by
  obtain ⟨u, hu, hheap, hframe⟩ := h.written
  have hsame := h.frame_eq
  have hcell : ∀ object, before.frame.locals.get? name = none → before.frame.object = some object →
      after.heap.cell? object = before.heap.cell? object := by
    intro object hlocal hobject
    rw [hsame] at hlocal hobject
    have hholds := h.holds hlocal hobject
    have hne : object ≠ target := by
      rintro rfl
      exact hm.heap.owned.acyclic object (.single ⟨name, hholds⟩)
    obtain ⟨fields, hobjectCell⟩ := Heap.form?_object.mp (hm.frame.object object hobject)
    have hlt := Nat.lt_of_lt_of_le (Heap.lt_size_of_cell? hobjectCell) h.edits.grows
    rw [hheap, Heap.cell?_apply hu hlt hne]
  simp only [Finds, FindsField, hframe]
  refine or_congr_right (and_congr_right fun hlocal => ?_)
  constructor
  · rintro ⟨object, fields, hobject, hafter, hfield⟩
    exact ⟨object, fields, hobject, hcell object hlocal hobject ▸ hafter, hfield⟩
  · rintro ⟨object, fields, hobject, hbefore, hfield⟩
    exact ⟨object, fields, hobject, (hcell object hlocal hobject).trans hbefore, hfield⟩

/-- From a slot that a field got in the meantime, the one that it had cannot be reached. -/
theorem unreached (h : m.Assigns c name e target source before after) (hm : m.Based c) (hbefore : before.Based c)
    {s : Slot} (hs : before.Finds name s) (hne : s ≠ target) :
    ¬ Relation.ReflTransGen before.heap.Contains s target := by
  have hsame := h.frame_eq
  rcases hs with hlocal | ⟨hlocal, object, fields, hobject, hcell, hfield⟩
  · -- A local variable has its slot still.
    rw [hsame] at hlocal
    rcases h.found with htarget | ⟨hnone, -⟩
    · exact absurd (Option.some.inj (hlocal.symm.trans htarget)) hne
    · rw [hlocal] at hnone
      cases hnone
  · rw [hsame] at hlocal hobject
    have hheld := h.holds hlocal hobject
    have hholds : before.heap.Holds object name s := ⟨_, hcell, Bindings.mem_of_get? hfield⟩
    intro hreach
    cases hreach with
    | refl => exact hne rfl
    | @tail owner _ hpath hlast =>
      -- Who owns the old slot owned it before, and so is the object itself.
      obtain ⟨other, howner⟩ := hlast
      have hold := h.edits.holds_old hm.heap.owned (hm.heap.owned.inside hheld) howner
      obtain ⟨rfl, -⟩ := hm.heap.owned.single hold hheld
      exact hbefore.heap.owned.acyclic owner (.head' ⟨name, hholds⟩ hpath)

end Assigns

end Machine

/-- An assignment writes the value of its expression into the slot that its variable had before the
expression was evaluated. -/
theorem assignment_effect (p : Program) (m₀ m before after : Machine) (n : Nat) (name : String) (e : Expr)
    (hreach : m₀.restart.run (.ofProgram p) n = (m, none))
    (h : m.Completes (.ofProgram p) name e before after) :
    after.frame = m.frame ∧
    ∃ target source v, m.Denotes name target ∧ before.task = .value source ∧
      before.heap.value? source = some v ∧ after.heap.value? target = some v ∧
      (∀ s, after.Denotes name s ↔ before.Denotes name s) ∧
      (∀ s, after.Denotes name s →
        after.heap.value? s = if s = target then some v else before.heap.value? s) ∧
      (m.frame.locals.contains name = true ∨ e.quiet = true → after.Denotes name target) := by
  have hc := Catalog.ofProgram_regular p
  obtain ⟨steps, hrun, -⟩ := h.evaluates
  have hbefore : m₀.restart.run (.ofProgram p) (n + (steps + 1)) = (before, none) := by
    rw [Machine.run_add, hreach]
    exact hrun
  have hafter : m₀.restart.run (.ofProgram p) (n + (steps + 1) + 1) = (after, none) :=
    Machine.run_succ_eq_none.mpr ⟨before, hbefore, h.finishes⟩
  have hm := (Machine.run_sensible hc hreach).based
  have hbased := (Machine.run_sensible hc hbefore).based
  have hbased' := (Machine.run_sensible hc hafter).based
  obtain ⟨target, source, h⟩ := h.assigns hm
  obtain ⟨u, hu, hheap, hframe⟩ := h.written
  have htarget := (Heap.update_ok hu).1
  have hvalue : after.heap.value? target = before.heap.value? source := by
    rw [hheap]
    refine hbased.heap.owned.value?_apply hu fun cls other hcls hother hname => ?_
    exact hc.eq_of_name (hbased.heap.cls_mem hcls) (hbased.heap.cls_mem hother) hname
  obtain ⟨v, hv⟩ := Option.isSome_iff_exists.mp (hbased'.heap.owned.value?_isSome (s := target)
    (Nat.lt_of_lt_of_le htarget (hheap ▸ (Heap.Edit.assign hu).grows)))
  refine ⟨hframe.trans h.frame_eq, target, source, v, (Machine.denotes_iff hm).mpr h.found, h.value,
    hvalue ▸ hv, hv, fun s => ?_, fun s hs => ?_, fun hstill => ?_⟩
  · rw [Machine.denotes_iff hbased', Machine.denotes_iff hbased, h.finds_iff hm]
  · have hfinds := (h.finds_iff hm s).mp ((Machine.denotes_iff hbased').mp hs)
    split
    · next heq => rw [heq, hv]
    · next hne =>
      rw [hheap]
      exact hbased.heap.owned.value?_apply_of_unreached hu (hfinds.lt hbased)
        (h.unreached hm hbased hfinds hne)
  · exact (Machine.denotes_iff hbased').mpr ((h.finds_iff hm target).mpr (h.finds_still hstill))

/-! ### An assignment that is lost -/

/-- A class with a method that assigns to a field what another method returns. The other method gets the
object itself as an argument, and puts a new object into it. -/
def Program.swapping : Program :=
  let place : Span := .single ⟨1, 1, "f"⟩
  let start : MethodDecl :=
    ⟨⟨"start", [], []⟩, false, true, [⟨"c", "a"⟩],
      [.assign "a" (.create "c" []) place, .call ⟨some "a", "update", [.variable "a"]⟩ [] place], place⟩
  let update : MethodDecl :=
    ⟨⟨"update", [⟨"c", "p"⟩], []⟩, false, false, [],
      [.assign "x" (.call none "swap" [.variable "p"]) place,
        .call ⟨some "console", "write", [.variable "x"]⟩ [] place], place⟩
  let swap : MethodDecl :=
    ⟨⟨"swap", [⟨"c", "q"⟩], [⟨"boolean", "r"⟩]⟩, false, false, [],
      [.assign "q" (.create "c" []) place, .assign "r" (.truth true) place], place⟩
  ⟨[], [⟨"c", [], [⟨⟨"boolean", "x"⟩, [], []⟩], [], [start, update, swap], place⟩]⟩

namespace Program.swapping

/-- The machine after so many steps. -/
def after (steps : Nat) : Machine := ((Machine.start .critical).restart.run (.ofProgram .swapping) steps).1

theorem run_eq {steps : Nat}
    (h : ((Machine.start .critical).restart.run (.ofProgram .swapping) steps).2.isNone) :
    (Machine.start .critical).restart.run (.ofProgram .swapping) steps = (after steps, none) :=
  Prod.ext rfl (Option.isNone_iff_eq_none.mp h)

theorem run_after {steps more : Nat}
    (h : ((Machine.start .critical).restart.run (.ofProgram .swapping) (steps + more)).2.isNone) :
    (after steps).run (.ofProgram .swapping) more = (after (steps + more), none) := Machine.run_between h

theorem step_after {steps : Nat}
    (h : ((Machine.start .critical).restart.run (.ofProgram .swapping) (steps + 1)).2.isNone) :
    (step (.ofProgram .swapping)).run (after steps) = .ok () (after (steps + 1)) := Machine.step_between h

end Program.swapping

/-- The assignment to the parameter, which shares its slot with the object whose method runs. -/
theorem assignment_effect_swapping :
    (Machine.start .critical).restart.run (.ofProgram .swapping) 13 = (Program.swapping.after 13, none) ∧
    (Program.swapping.after 13).Completes (.ofProgram .swapping) "q" (.create "c" [])
      (Program.swapping.after 16) (Program.swapping.after 17) ∧
    ∃ target v, (Program.swapping.after 17).Denotes "q" target ∧
      (Program.swapping.after 17).heap.value? target = some v := by
  have hreach : (Machine.start .critical).restart.run (.ofProgram .swapping) 13 =
      (Program.swapping.after 13, none) := Program.swapping.run_eq (by decide +kernel)
  have hcompletes : (Program.swapping.after 13).Completes (.ofProgram .swapping) "q" (.create "c" [])
      (Program.swapping.after 16) (Program.swapping.after 17) := by
    refine ⟨⟨.single ⟨1, 1, "f"⟩, [.assign "r" (.truth true) (.single ⟨1, 1, "f"⟩)], ?_⟩,
      ⟨2, Program.swapping.run_after (by decide +kernel), by decide +kernel⟩,
      Program.swapping.step_after (by decide +kernel), by decide +kernel⟩
    decide +kernel
  obtain ⟨-, target, source, v, -, -, -, htarget, -, -, hstill⟩ := assignment_effect .swapping
    (.start .critical) (Program.swapping.after 13) _ _ 13 "q" (.create "c" []) hreach hcompletes
  exact ⟨hreach, hcompletes, target, v, hstill (.inl (by decide +kernel)), htarget⟩

/-- The assignment to the field writes what the other method returned into a slot that the field no
longer has. -/
theorem assignment_lost :
    (Machine.start .critical).restart.run (.ofProgram .swapping) 9 = (Program.swapping.after 9, none) ∧
    (Program.swapping.after 9).Completes (.ofProgram .swapping) "x" (.call none "swap" [.variable "p"])
      (Program.swapping.after 24) (Program.swapping.after 25) ∧
    (Program.swapping.after 24).task = .value 4 ∧
    (Program.swapping.after 24).heap.value? 4 = some (.truth true) ∧
    (Program.swapping.after 25).Denotes "x" 7 ∧
    (Program.swapping.after 25).heap.value? 7 = some (.truth false) := by
  refine ⟨Program.swapping.run_eq (by decide +kernel), ⟨⟨.single ⟨1, 1, "f"⟩,
    [.call ⟨some "console", "write", [.variable "x"]⟩ [] (.single ⟨1, 1, "f"⟩)], ?_⟩,
    ⟨14, Program.swapping.run_after (by decide +kernel), by decide +kernel⟩,
    Program.swapping.step_after (by decide +kernel), by decide +kernel⟩, ?_, ?_, ?_, ?_⟩
  all_goals decide +kernel

end Offside
