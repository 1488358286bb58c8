import Offside.Proofs.Heap.Ownership
import Offside.Proofs.Machine.Framing
import Offside.Proofs.Machine.Simulation

/-! Expressions by themselves.

A machine that works on an expression, whatever waits below, comes to a value exactly as the expression
is evaluated. Evaluating an expression leaves the scope as it is, and if it calls nothing and makes no
objects, it leaves all slots as they are as well. -/
namespace Offside

open Exec

namespace Machine

variable {c : Catalog} {m n : Machine}

/-- Work that is done with takes no return of a call. So it comes to one end if nothing else waits, and to
another one if something waits for returns. -/
theorem advance_ends {steps : Nat} (hrun : m.run c steps = (n, none))
    (htask : n.task = .run [] ∨ ∃ s, n.task = .value s) (hstack : n.stack = []) (call : Call) :
    (advance c)^[steps + 1] (.ok () m) = .error .finished n ∧
      ∃ n', (advance c)^[steps + 1] (.ok () (m.above [.single call])) = .error .stuck n' := by
  rw [advance_next (run_eq_none.mp hrun), advance_next (run_eq_none.mp (run_above hrun))]
  obtain ⟨heap, frame, here, task, stack, records, threshold, log⟩ := n
  cases hstack
  rcases htask with htask | ⟨s, htask⟩
  · cases htask
    exact ⟨rfl, _, rfl⟩
  · cases htask
    exact ⟨rfl, _, rfl⟩

end Machine

/-- A machine that works on an expression and nothing else, and comes to a value, comes to what the
expression is evaluated to, in the same statement. -/
theorem expr_of_run {c : Catalog} {e : Expr} {w : World} {here : Option Span} {s : Slot} {steps : Nat}
    {m : Machine}
    (hrun : (w.machine here (.eval e) []).run c steps = (m, none)) (htask : m.task = .value s)
    (hstack : m.stack = []) : (Evaluator.ofRounds c (steps + 1)).expr e w = .ok s m.world ∧ m.here = here := by
  obtain ⟨hfinished, _, hstuck⟩ := Machine.advance_ends hrun (.inr ⟨s, htask⟩) hstack ⟨none, "", []⟩
  have hsim := (ofRounds_simulates c (steps + 1)).expr e w here
  obtain ⟨s', w', hres⟩ := (hsim []).eq_ok (hsim [.single ⟨none, "", []⟩]) hfinished hstuck (by simp)
  have hmatches := hsim []
  rw [hres] at hmatches ⊢
  obtain ⟨i, hi⟩ := hmatches
  have hlast : (advance c)^[i + 1] (.ok () (w.machine here (.eval e) [])) =
      .error .finished (w'.machine here (.value s') []) := by
    rw [Function.iterate_succ_apply', hi]
    rfl
  obtain ⟨-, rfl⟩ := advance_error_unique hfinished hlast
  cases htask
  exact ⟨rfl, rfl⟩

/-! ### Looking -/

namespace Exec

variable {α β : Type}

/-- An action that looks at a world and changes nothing but the log. -/
structure Looks (x : Exec α) : Prop where
  uniform : Uniform x
  same : ∀ w a w', x.on w = .ok a w' → ∃ log, w' = { w with log }

theorem Looks.bind {x : Exec α} {f : α → Exec β} (hx : Looks x) (hf : ∀ a, Looks (f a)) : Looks (x >>= f) := by
  refine ⟨hx.uniform.bind fun a => (hf a).uniform, fun w b w'' h => ?_⟩
  obtain ⟨a, w', ha, hb⟩ := hx.uniform.bind_eq_ok h
  obtain ⟨log, rfl⟩ := hx.same w a w' ha
  obtain ⟨log', rfl⟩ := (hf a).same _ b w'' hb
  exact ⟨log', rfl⟩

theorem pure_looks (a : α) : Looks (pure a) := by
  refine ⟨(pure_local a).uniform, fun w b w' h => ?_⟩
  cases h
  exact ⟨w.log, rfl⟩

theorem fault_looks (f : Fault) : Looks (fault f : Exec α) := ⟨(fault_local f).uniform, nofun⟩

theorem stuck_looks : Looks (stuck : Exec α) := ⟨stuck_local.uniform, nofun⟩

theorem orStuck_looks (o : Option α) : Looks (orStuck o) := by
  cases o with
  | none => exact stuck_looks
  | some a => exact pure_looks a

theorem orFault_looks (e : Except Fault α) : Looks (orFault e) := by
  cases e with
  | ok a => exact pure_looks a
  | error f => exact fault_looks f

theorem note_looks (level : Level) (message : Unit → String) : Looks (note level message) := by
  refine ⟨(note_local level message).uniform, fun w a w' h => ?_⟩
  rw [note_on] at h
  cases h
  unfold noted
  split
  · exact ⟨_, rfl⟩
  · exact ⟨w.log, rfl⟩

theorem frame_looks : Looks frame := by
  refine ⟨frame_local.uniform, fun w a w' h => ?_⟩
  cases h
  exact ⟨w.log, rfl⟩

theorem cell_on {s : Slot} {v : Cell} {w w' : World} (h : (cell s).on w = .ok v w') :
    w' = w ∧ w.heap.cell? s = some v := by
  change (orStuck (w.heap.cell? s)).on w = _ at h
  cases hcell : w.heap.cell? s with
  | none =>
    rw [hcell] at h
    cases h
  | some v' =>
    rw [hcell] at h
    cases h
    exact ⟨rfl, rfl⟩

/-- An operator is applied to what is in two slots. -/
theorem operate_on {op : Operator} {whole : Expr} {l r : Slot} {v : Cell} {w w' : World}
    (h : (cell l >>= fun a => cell r >>= fun b => orFault (op.apply whole a b)).on w = .ok v w') :
    w' = w ∧ ∃ a b, w.heap.cell? l = some a ∧ w.heap.cell? r = some b ∧ op.apply whole a b = .ok v := by
  obtain ⟨a, w₁, ha, hrest⟩ := (cell_local l).uniform.bind_eq_ok h
  obtain ⟨rfl, ha⟩ := cell_on ha
  obtain ⟨b, w₂, hb, hresult⟩ := (cell_local r).uniform.bind_eq_ok hrest
  obtain ⟨rfl, hb⟩ := cell_on hb
  cases hv : op.apply whole a b with
  | error f =>
    rw [hv] at hresult
    cases hresult
  | ok v' =>
    rw [hv] at hresult
    cases hresult
    exact ⟨rfl, a, b, ha, hb, hv⟩

theorem cell_looks (s : Slot) : Looks (cell s) :=
  ⟨(cell_local s).uniform, fun w a w' h => (orStuck_looks (w.heap.cell? s)).same w a w' h⟩

theorem value_looks (s : Slot) : Looks (value s) :=
  ⟨(value_local s).uniform, fun w a w' h => (orStuck_looks (w.heap.value? s)).same w a w' h⟩

theorem truthOf_looks (condition : Expr) (s : Slot) : Looks (truthOf condition s) := by
  refine (cell_looks s).bind fun v => ?_
  split
  · exact pure_looks _
  · exact fault_looks _

theorem find?_looks (name : String) : Looks (find? name) := by
  refine frame_looks.bind fun f => ?_
  split
  · exact pure_looks _
  · refine Looks.bind ?_ fun _ => pure_looks _
    refine frame_looks.bind fun f => ?_
    split
    · exact pure_looks _
    · refine (cell_looks _).bind fun c => ?_
      split
      · exact pure_looks _
      · exact stuck_looks

theorem lookup_looks (name : String) : Looks (lookup name) := by
  refine (find?_looks name).bind fun found => ?_
  split
  · exact pure_looks _
  · exact fault_looks _

theorem cells_looks (slots : List Slot) : Looks (cells slots) := by
  induction slots with
  | nil => exact pure_looks _
  | cons s rest ih => exact (cell_looks s).bind fun _ => ih.bind fun _ => pure_looks _

theorem valuesOf_looks (slots : List Slot) : Looks (valuesOf slots) := by
  induction slots with
  | nil => exact pure_looks _
  | cons s rest ih => exact (value_looks s).bind fun _ => ih.bind fun _ => pure_looks _

theorem resolve_looks (c : Catalog) (cls : Class) (name : String) (values : List Cell) (targets : Nat)
    (sharedOnly : Bool) : Looks (resolve c cls name values targets sharedOnly) := by
  refine (orFault_looks _).bind fun found => ?_
  split
  · exact (note_looks _ _).bind fun _ => pure_looks _
  · exact pure_looks _

theorem calleeVariable_looks (c : Catalog) (object name : String) (targets : Nat) (slots : List Slot) :
    Looks (calleeVariable c object name targets slots) := by
  refine (cells_looks slots).bind fun values => (find?_looks object).bind fun found => ?_
  split
  · exact fault_looks _
  · refine (cell_looks _).bind fun cell => ?_
    split
    · refine (resolve_looks ..).bind fun found => ?_
      split
      · exact pure_looks _
      · exact fault_looks _
    · exact fault_looks _

theorem callee_looks (c : Catalog) (object : Option String) (name : String) (targets : Nat) (slots : List Slot) :
    Looks (callee c object name targets slots) := by
  cases object with
  | none =>
    refine frame_looks.bind fun f => (cells_looks slots).bind fun values => (resolve_looks ..).bind fun found => ?_
    split
    · exact pure_looks _
    · exact fault_looks _
  | some object =>
    show Looks (calleeOn c object name targets slots)
    unfold calleeOn
    split
    · exact calleeVariable_looks ..
    · refine (cells_looks slots).bind fun values => (resolve_looks ..).bind fun found => ?_
      split
      · exact pure_looks _
      · exact calleeVariable_looks ..

theorem maker_looks (c : Catalog) (cls : Class) (slots : List Slot) : Looks (maker c cls slots) := by
  refine (cells_looks slots).bind fun values => ?_
  split
  · split
    · exact pure_looks _
    · exact fault_looks _
  · refine (orFault_looks _).bind fun found => ?_
    split
    · exact pure_looks _
    · exact fault_looks _

end Exec

/-! ### Expressions leave their scope as it is -/

namespace Eval

variable {α β : Type} {c : Catalog} {E : Evaluator}

/-- An evaluation that is in the same scope afterwards. -/
def Steady (x : Eval α) : Prop := ∀ w a w', x w = .ok a w' → w'.frame = w.frame

theorem Steady.bind {x : Eval α} {f : α → Eval β} (hx : Steady x) (hf : ∀ a, Steady (f a)) : Steady (x >>= f) := by
  intro w b w'' h
  obtain ⟨a, w', ha, hb⟩ := bind_eq_ok h
  rw [hf a w' b w'' hb, hx w a w' ha]

theorem pure_steady (a : α) : Steady (pure a) := by
  intro w b w' h
  cases h
  rfl

theorem looks_steady {x : Exec α} (hx : Looks x) : Steady (act x) := by
  intro w a w' h
  obtain ⟨log, rfl⟩ := hx.same w a w' (act_eq_ok h)
  rfl

theorem alloc_steady (cell : Cell) : Steady (act (alloc cell)) := by
  intro w a w' h
  cases h
  rfl

theorem write_steady (record : String) : Steady (act (write record)) := by
  intro w a w' h
  cases h
  rfl

/-- The scope that was left is set again at the end. -/
theorem frame_steady {f : Frame → Eval α} (hf : ∀ caller w a w', f caller w = .ok a w' → w'.frame = caller) :
    Steady (act Exec.frame >>= f) := by
  intro w a w'' h
  obtain ⟨caller, w', hcaller, h⟩ := bind_eq_ok h
  cases hcaller
  exact hf _ _ _ _ h

theorem arguments_steady (hE : ∀ e, Steady (E.expr e)) (args : List Expr) : Steady (arguments E args) := by
  induction args with
  | nil => exact pure_steady _
  | cons e rest ih => exact (hE e).bind fun _ => ih.bind fun _ => pure_steady _

theorem invoke_steady (cls : Class) (object : Option Slot) (m : Method) (slots : List Slot) :
    Steady (invoke c E cls object m slots) := by
  unfold invoke
  split
  · exact (looks_steady (valuesOf_looks _)).bind fun _ => (write_steady _).bind fun _ => pure_steady _
  · refine (looks_steady (note_looks _ _)).bind fun _ => frame_steady fun caller w slots w' h => ?_
    obtain ⟨_, _, -, h⟩ := bind_eq_ok h
    obtain ⟨_, _, -, h⟩ := bind_eq_ok h
    obtain ⟨_, _, -, h⟩ := bind_eq_ok h
    obtain ⟨_, _, hset, h⟩ := bind_eq_ok h
    cases hset
    cases h
    rfl

theorem construct_steady (cls : Class) (k : Option ConstructorDecl) (slots : List Slot) :
    Steady (construct c E cls k slots) := by
  refine (alloc_steady _).bind fun object => (looks_steady (note_looks _ _)).bind fun _ =>
    frame_steady fun caller w slots w' h => ?_
  obtain ⟨_, _, -, h⟩ := bind_eq_ok h
  obtain ⟨_, _, -, h⟩ := bind_eq_ok h
  obtain ⟨_, _, hset, h⟩ := bind_eq_ok h
  cases hset
  cases h
  rfl

theorem expr_steady (hE : ∀ e, Steady (E.expr e)) (e : Expr) : Steady (expr c E e) := by
  cases e with
  | number | text | truth | character => exact alloc_steady _
  | «variable» name => exact looks_steady (lookup_looks name)
  | not operand =>
    refine (hE operand).bind fun s => (looks_steady (cell_looks s)).bind fun v => ?_
    split
    · exact alloc_steady _
    · exact looks_steady (fault_looks _)
  | binary op left right =>
    refine (hE left).bind fun l => (hE right).bind fun r => Steady.bind (looks_steady ?_) fun _ => alloc_steady _
    exact (cell_looks l).bind fun _ => (cell_looks r).bind fun _ => orFault_looks _
  | call object method args =>
    refine Steady.bind ?_ fun slots => ?_
    · exact (arguments_steady hE _).bind fun _ => (looks_steady (callee_looks ..)).bind fun _ =>
        invoke_steady _ _ _ _
    · split
      · exact pure_steady _
      · exact looks_steady (fault_looks _)
  | create name args =>
    rw [expr]
    split
    · exact looks_steady (fault_looks _)
    · exact (arguments_steady hE _).bind fun _ => (looks_steady (maker_looks ..)).bind fun _ =>
        construct_steady _ _ _

end Eval

theorem Evaluator.ofRounds_steady (c : Catalog) (rounds : Nat) (e : Expr) :
    Eval.Steady ((ofRounds c rounds).expr e) := by
  induction rounds generalizing e with
  | zero => exact nofun
  | succ rounds ih => exact Eval.expr_steady ih e

/-! ### Expressions that call nothing -/

/-- No method is called and no object is made. -/
def Expr.quiet : Expr → Bool
  | .number _ | .text _ | .truth _ | .character _ | .variable _ => true
  | .not operand => operand.quiet
  | .binary _ left right => left.quiet && right.quiet
  | .call .. | .create .. => false

namespace Eval

variable {α β : Type} {c : Catalog} {E : Evaluator}

/-- An evaluation that leaves the slots as they are, and may add some. -/
def Adds (x : Eval α) : Prop :=
  ∀ w a w', x w = .ok a w' → w.heap.size ≤ w'.heap.size ∧ ∀ s < w.heap.size, w'.heap.cell? s = w.heap.cell? s

theorem Adds.bind {x : Eval α} {f : α → Eval β} (hx : Adds x) (hf : ∀ a, Adds (f a)) : Adds (x >>= f) := by
  intro w b w'' h
  obtain ⟨a, w', ha, hb⟩ := bind_eq_ok h
  obtain ⟨hgrows, hsame⟩ := hx w a w' ha
  obtain ⟨hgrows', hsame'⟩ := hf a w' b w'' hb
  refine ⟨Nat.le_trans hgrows hgrows', fun s hs => ?_⟩
  rw [hsame' s (Nat.lt_of_lt_of_le hs hgrows), hsame s hs]

theorem looks_adds {x : Exec α} (hx : Looks x) : Adds (act x) := by
  intro w a w' h
  obtain ⟨log, rfl⟩ := hx.same w a w' (act_eq_ok h)
  exact ⟨Nat.le_refl _, fun _ _ => rfl⟩

theorem alloc_adds (cell : Cell) : Adds (act (alloc cell)) := by
  intro w a w' h
  cases h
  refine ⟨Heap.size_alloc cell ▸ Nat.le_succ _, fun s hs => ?_⟩
  exact (Heap.cell?_alloc cell s).trans (if_neg (Nat.ne_of_lt hs))

theorem expr_adds (hE : ∀ e : Expr, e.quiet = true → Adds (E.expr e)) {e : Expr} (hquiet : e.quiet = true) :
    Adds (expr c E e) := by
  cases e with
  | number | text | truth | character => exact alloc_adds _
  | «variable» name => exact looks_adds (lookup_looks name)
  | not operand =>
    refine (hE operand hquiet).bind fun s => (looks_adds (cell_looks s)).bind fun v => ?_
    split
    · exact alloc_adds _
    · exact looks_adds (fault_looks _)
  | binary op left right =>
    obtain ⟨hleft, hright⟩ := Bool.and_eq_true_iff.mp hquiet
    refine (hE left hleft).bind fun l => (hE right hright).bind fun r =>
      Adds.bind (looks_adds ?_) fun _ => alloc_adds _
    exact (cell_looks l).bind fun _ => (cell_looks r).bind fun _ => orFault_looks _
  | call | create => cases hquiet

end Eval

theorem Evaluator.ofRounds_adds (c : Catalog) (rounds : Nat) {e : Expr} (hquiet : e.quiet = true) :
    Eval.Adds ((ofRounds c rounds).expr e) := by
  induction rounds generalizing e with
  | zero => exact nofun
  | succ rounds ih => exact Eval.expr_adds (fun _ => ih) hquiet

end Offside
