import Offside.Proofs.Machine.Called
import Offside.Proofs.Machine.Comparison

/-! What an operator is applied to.

An operator's left operand comes to a slot, then its right operand does, and the operator is applied to what
is in the two slots then. If the left operand is a variable, its slot is the variable's own, so what the
right operand calls may change what is in it. -/
namespace Offside

open Exec

/-- The value of the expression is in a slot of its own, which is no variable's and no field's. -/
def Expr.detached (c : Catalog) : Expr → Bool
  | .number _ | .text _ | .truth _ | .character _ | .not _ | .binary .. => true
  | .variable _ | .create .. => false
  | .call _ name _ => c.classes.all fun cls => cls.methods.all fun m => m.header.name ≠ name || m.header.separate

theorem Expr.detached_call {c : Catalog} {object : Option String} {name : String} {args : List Expr} {cls : Class}
    {m : Method} (he : (Expr.call object name args).detached c = true) (hcls : cls ∈ c.classes)
    (hm : m ∈ cls.methods) (hname : m.header.name = name) : m.header.separate = true := by
  have hmethod := List.all_eq_true.mp (List.all_eq_true.mp he cls hcls) m hm
  simpa [hname] using hmethod

namespace Machine

/-- The machine evaluates the expression: it is about to at first, and it has the value at `after`, for the
work that waited below all the while. -/
structure Evaluates (c : Catalog) (m : Machine) (e : Expr) (s : Slot) (after : Machine) : Prop where
  starts : m.task = .eval e
  runs : ∃ steps, m.run c (steps + 1) = (after, none) ∧
    ∀ i < steps, m.stack.length < (m.run c (i + 1)).1.stack.length
  ends : after.task = .value s ∧ after.stack = m.stack

/-- What the machine does that evaluates an operator on two operands. At `middle` the left operand has come to
a slot, and at `before` the right one has. -/
structure Operates (c : Catalog) (m : Machine) (op : Operator) (left right : Expr) (l r s : Slot)
    (middle before after : Machine) : Prop where
  leftward : ∃ steps, m.run c steps = (middle, none) ∧ middle.task = .value l ∧
    middle.stack = .left op left right :: m.stack
  rightward : ∃ steps, middle.run c steps = (before, none) ∧ before.task = .value r ∧
    before.stack = .right op left right l :: m.stack
  applies : (step c).run before = .ok () after
  result : ∃ a b v, before.heap.cell? l = some a ∧ before.heap.cell? r = some b ∧
    op.apply (.binary op left right) a b = .ok v ∧ after.heap.cell? s = some v

variable {c : Catalog} {m after : Machine} {e : Expr} {s : Slot}

/-- What waits below does not matter. -/
theorem Evaluates.evaluated (h : m.Evaluates c e s after) :
    ∃ rounds, (Evaluator.ofRounds c rounds).expr e m.world = .ok s after.world ∧
      after = after.world.machine m.here (.value s) m.stack := by
  obtain ⟨htask, ⟨steps, hrun, hwaits⟩, hvalue, hstack⟩ := h
  obtain ⟨heap, frame, here, task, stack, records, threshold, log⟩ := m
  obtain rfl : task = .eval e := htask
  let alone : Machine := ⟨heap, frame, here, .eval e, [], records, threshold, log⟩
  change (alone.above stack).run c (steps + 1) = _ at hrun
  obtain ⟨last, hlast, rfl⟩ := run_of_run_high hrun fun i hi hover => by
    cases i with
    | zero => cases hover
    | succ i => exact hwaits i (Nat.lt_of_succ_lt_succ hi)
  have hnone : last.stack = [] := List.append_left_eq_self.mp hstack
  obtain ⟨hexpr, hhere⟩ := expr_of_run (w := alone.world) hlast hvalue hnone
  refine ⟨_, hexpr, ?_⟩
  obtain ⟨heap', frame', here', task', stack', records', threshold', log'⟩ := last
  cases hvalue
  cases hhere
  cases hnone
  rfl

end Machine

/-! ### Evaluations -/

namespace Eval

variable {c : Catalog} {E : Evaluator} {op : Operator} {left right : Expr} {s : Slot} {w w' : World}

/-- What an evaluation of an operator on two operands does. -/
structure Operated (E : Evaluator) (op : Operator) (left right : Expr) (l r s : Slot) (w w₁ w₂ w' : World) :
    Prop where
  leftward : E.expr left w = .ok l w₁
  rightward : E.expr right w₁ = .ok r w₂
  result : ∃ a b v, w₂.heap.cell? l = some a ∧ w₂.heap.cell? r = some b ∧
    op.apply (.binary op left right) a b = .ok v ∧ s = w₂.heap.size ∧ w' = { w₂ with heap := (w₂.heap.alloc v).2 }

theorem expr_binary (h : expr c E (.binary op left right) w = .ok s w') :
    ∃ l r w₁ w₂, Operated E op left right l r s w w₁ w₂ w' := by
  obtain ⟨l, w₁, hl, h⟩ := bind_eq_ok h
  obtain ⟨r, w₂, hr, h⟩ := bind_eq_ok h
  obtain ⟨v, w₃, happly, halloc⟩ := bind_eq_ok h
  obtain ⟨rfl, a, b, ha, hb, hv⟩ := operate_on (act_eq_ok happly)
  cases halloc
  exact ⟨l, r, w₁, w₃, hl, hr, a, b, v, ha, hb, hv, rfl, rfl⟩

end Eval

namespace Machine

variable {c : Catalog} {m after : Machine} {op : Operator} {left right : Expr} {s : Slot}

/-- The operator is applied once both operands have come to slots. -/
theorem step_right {w : World} {here : Option Span} {k : List Pending} {l r : Slot} {a b v : Cell}
    (ha : w.heap.cell? l = some a) (hb : w.heap.cell? r = some b)
    (hv : op.apply (.binary op left right) a b = .ok v) :
    (step c).run (w.machine here (.value r) (.right op left right l :: k)) =
      .ok () (({ w with heap := (w.heap.alloc v).2 } : World).machine here (.value w.heap.size) k) := by
  have hcell : ∀ {s : Slot} {v : Cell}, w.heap.cell? s = some v →
      (cell s).run (w.machine here (.value r) k) = .ok v (w.machine here (.value r) k) := by
    intro s v hs
    change (orStuck (w.heap.cell? s)).run _ = _
    rw [hs]
    rfl
  show (cell l >>= fun a => cell r >>= fun b => orFault (op.apply (.binary op left right) a b) >>=
    fun v => give v).run (w.machine here (.value r) k) = _
  refine bind_run_eq_ok.mpr ⟨a, _, hcell ha, bind_run_eq_ok.mpr ⟨b, _, hcell hb, ?_⟩⟩
  rw [hv]
  rfl

/-- A machine that evaluates an operator evaluates its operands one after the other. -/
theorem Evaluates.operates (h : m.Evaluates c (.binary op left right) s after) :
    ∃ rounds l r middle before, m.Operates c op left right l r s middle before after ∧
      (Evaluator.ofRounds c rounds).expr left m.world = .ok l middle.world ∧
      (Evaluator.ofRounds c rounds).expr right middle.world = .ok r before.world := by
  obtain ⟨rounds, hexpr, hafter⟩ := h.evaluated
  cases rounds with
  | zero => cases hexpr
  | succ rounds =>
    obtain ⟨l, r, w₁, w₂, hl, hr, a, b, v, ha, hb, hv, hs, hworld⟩ := Eval.expr_binary (c := c) hexpr
    have hsim := ofRounds_simulates c rounds
    obtain ⟨i, hi⟩ := hsim.run_expr hl m.here (.left op left right :: m.stack)
    obtain ⟨j, hj⟩ := hsim.run_expr hr m.here (.right op left right l :: m.stack)
    let middle := w₁.machine m.here (.value l) (.left op left right :: m.stack)
    let before := w₂.machine m.here (.value r) (.right op left right l :: m.stack)
    refine ⟨rounds, l, r, middle, before, ⟨⟨i + 1, ?_, rfl, rfl⟩, ⟨j + 1, hj, rfl, rfl⟩, ?_, ?_⟩, hl, hr⟩
    · obtain ⟨heap, frame, here, task, stack, records, threshold, log⟩ := m
      obtain rfl : task = _ := h.starts
      exact hi
    · rw [step_right ha hb hv, hafter, hworld, hs]
    · refine ⟨a, b, v, ha, hb, hv, ?_⟩
      rw [hafter, hworld, hs]
      exact (Heap.cell?_alloc v _).trans (if_pos rfl)

end Machine

/-! ### Slots of their own -/

section Detached

variable {c : Catalog} {rounds : Nat} {w w' : World} {e : Expr} {s : Slot}

theorem alloc_new {cell : Cell} (hc : cell.fields = []) (ho : w.heap.Owned) (h : Eval.act (alloc cell) w = .ok s w') :
    w.heap.size ≤ s ∧ w'.heap.Unowned s := by
  cases h
  exact ⟨Nat.le_refl _, ho.unowned_alloc hc⟩

/-- What a call comes to is in a new slot, if no method of its name returns a parameter. -/
theorem call_new {object : Option String} {name : String} {args : List Expr} (hc : c.Regular)
    (hw : (w.machine none .enter []).Based c) (he : (Expr.call object name args).detached c = true)
    (h : Eval.expr c (.ofRounds c rounds) (.call object name args) w = .ok s w') :
    w.heap.size ≤ s ∧ w'.heap.Unowned s := by
  obtain ⟨returned, w₁, hcall, h⟩ := Eval.bind_eq_ok h
  obtain ⟨t, slots, _, _, hcalled⟩ := Eval.call_eq_ok hcall
  have hserved := hcalled.served hc hw
  cases returned with
  | nil => cases h
  | cons r rest =>
    cases h
    exact hcalled.returns_new hw.heap.owned (Expr.detached_call he hserved.cls hserved.method hserved.name) s
      List.mem_cons_self

/-- A value in a slot of its own is in a new slot, which is no field. -/
theorem detached_new (hc : c.Regular) (hw : (w.machine none .enter []).Based c) (he : e.detached c = true)
    (h : (Evaluator.ofRounds c rounds).expr e w = .ok s w') : w.heap.size ≤ s ∧ w'.heap.Unowned s := by
  have ho := hw.heap.owned
  cases rounds with
  | zero => cases h
  | succ rounds =>
    have hR := Evaluator.ofRounds_renews c rounds
    change Eval.expr c (.ofRounds c rounds) e w = _ at h
    cases e with
    | number | text | truth | character => exact alloc_new rfl ho h
    | «variable» | create => cases he
    | not operand =>
      obtain ⟨t, w₁, ht, h⟩ := Eval.bind_eq_ok h
      have hrenews := hR.expr operand w t w₁ ht ho
      obtain ⟨v, w₂, hv, h⟩ := Eval.bind_eq_ok h
      obtain ⟨rfl, -⟩ := cell_on (Eval.act_eq_ok hv)
      cases v with
      | truth value =>
        obtain ⟨hge, hfree⟩ := alloc_new rfl (hrenews.owned ho) h
        exact ⟨Nat.le_trans hrenews.edits.grows hge, hfree⟩
      | _ => cases h
    | binary op left right =>
      obtain ⟨l, r, w₁, w₂, hl, hr, a, b, v, -, -, hv, rfl, rfl⟩ := Eval.expr_binary (c := c) h
      have hleft := hR.expr left w l w₁ hl ho
      have hrenews := hleft.trans ho (hR.expr right w₁ r w₂ hr (hleft.owned ho))
      exact ⟨hrenews.edits.grows, (hrenews.owned ho).unowned_alloc (operate_fields hv)⟩
    | call object name args => exact call_new hc hw he h

/-- What is in a new slot that is no field stays there, whatever is evaluated in the same scope. -/
theorem cell?_of_new (hw : (w.machine none .enter []).Based c) {w₁ w₂ : World} {l r : Slot} {left right : Expr}
    (hnew : w.heap.size ≤ l ∧ w₁.heap.Unowned l) (hl : (Evaluator.ofRounds c rounds).expr left w = .ok l w₁)
    (hr : (Evaluator.ofRounds c rounds).expr right w₁ = .ok r w₂) : w₂.heap.cell? l = w₁.heap.cell? l := by
  obtain ⟨hge, hfree⟩ := hnew
  have hframe := Evaluator.ofRounds_steady c rounds left w l w₁ hl
  have hhidden : w₁.Hides l := by
    refine ⟨hfree, fun name hlocal => ?_, fun hobject => ?_⟩
    · rw [hframe] at hlocal
      exact Nat.not_lt_of_le hge (hw.frame.locals name l hlocal)
    · rw [hframe] at hobject
      exact Nat.not_lt_of_le hge (Heap.lt_size_iff.mpr ⟨_, hw.frame.object l hobject⟩)
  exact ((Evaluator.ofRounds_spares c rounds l).expr right w₁ r w₂ hr hhidden).1.same

end Detached

/-- An operator is applied to what is in the slots of its operands once both are evaluated. What is in the
left one is the same as when it was evaluated if the right operand calls nothing, or if the left one has a
slot of its own. -/
theorem operator_reads_operands (p : Program) (m₀ m after : Machine) (n : Nat) (op : Operator) (left right : Expr)
    (s : Slot) (hreach : m₀.restart.run (.ofProgram p) n = (m, none))
    (h : m.Evaluates (.ofProgram p) (.binary op left right) s after) :
    ∃ l r middle before, m.Operates (.ofProgram p) op left right l r s middle before after ∧
      (right.quiet = true ∨ left.detached (.ofProgram p) = true →
        before.heap.cell? l = middle.heap.cell? l) := by
  have hc := Catalog.ofProgram_regular p
  have hbased := (Machine.run_sensible hc hreach).based
  have hworld : (m.world.machine none .enter []).Based (.ofProgram p) := ⟨hbased.heap, hbased.frame⟩
  obtain ⟨rounds, l, r, middle, before, hoperates, hl, hr⟩ := h.operates
  refine ⟨l, r, middle, before, hoperates, fun hkept => ?_⟩
  rcases hkept with hquiet | hdetached
  · have hlt := (based_of_expr hc hworld hl).2
    exact (Evaluator.ofRounds_adds _ rounds hquiet _ r _ hr).2 l hlt
  · exact cell?_of_new hworld (detached_new hc hworld hdetached hl) hl hr

/-! ### An operand that changes -/

/-- A method makes its argument false and returns true. The first operator has the argument itself on its
left, the second one a value made from it. -/
def Program.spoiling : Program :=
  let place : Span := .single ⟨1, 1, "f"⟩
  let spoiled : Expr := .call none "spoil" [.variable "b"]
  let write (e : Expr) : Stmt := .call ⟨some "console", "write", [e]⟩ [] place
  let start : MethodDecl :=
    ⟨⟨"start", [], []⟩, false, true, [⟨"boolean", "b"⟩],
      [.assign "b" (.truth true) place, write (.binary (.logic .and) (.variable "b") spoiled),
        write (.binary (.logic .or) (.not (.variable "b")) spoiled)], place⟩
  let spoil : MethodDecl :=
    ⟨⟨"spoil", [⟨"boolean", "p"⟩], [⟨"boolean", "r"⟩]⟩, false, true, [],
      [.assign "p" (.truth false) place, .assign "r" (.truth true) place], place⟩
  ⟨[], [⟨"main", [], [], [], [start, spoil], place⟩]⟩

theorem operator_reads_operands_spoiling :
    (Machine.start .critical).restart.run (.ofProgram .spoiling) 27 = (Program.spoiling.after 27, none) ∧
    (Program.spoiling.after 27).Evaluates (.ofProgram .spoiling)
      (.binary (.logic .or) (.not (.variable "b")) (.call none "spoil" [.variable "b"])) 10
      (Program.spoiling.after 46) ∧
    ∃ l r middle before, (Program.spoiling.after 27).Operates (.ofProgram .spoiling) (.logic .or)
        (.not (.variable "b")) (.call none "spoil" [.variable "b"]) l r 10 middle before
        (Program.spoiling.after 46) ∧
      before.heap.cell? l = middle.heap.cell? l := by
  have hreach : (Machine.start .critical).restart.run (.ofProgram .spoiling) 27 =
      (Program.spoiling.after 27, none) := Program.reaches_after (by decide +kernel)
  have hevaluates : (Program.spoiling.after 27).Evaluates (.ofProgram .spoiling)
      (.binary (.logic .or) (.not (.variable "b")) (.call none "spoil" [.variable "b"])) 10
      (Program.spoiling.after 46) := by
    refine ⟨?_, ⟨18, Machine.run_between (by decide +kernel), by decide +kernel⟩, ?_, ?_⟩
    all_goals decide +kernel
  obtain ⟨l, r, middle, before, hoperates, hkept⟩ :=
    operator_reads_operands .spoiling (.start .critical) _ _ 27 _ _ _ 10 hreach hevaluates
  exact ⟨hreach, hevaluates, l, r, middle, before, hoperates, hkept (.inr rfl)⟩

/-- The left operand is true when it is evaluated, and so is the right one, but the operator finds the left
one false. -/
theorem left_operand_changes :
    (Machine.start .critical).restart.run (.ofProgram .spoiling) 6 = (Program.spoiling.after 6, none) ∧
    (Program.spoiling.after 6).Evaluates (.ofProgram .spoiling)
      (.binary (.logic .and) (.variable "b") (.call none "spoil" [.variable "b"])) 5
      (Program.spoiling.after 23) ∧
    (Program.spoiling.after 6).Operates (.ofProgram .spoiling) (.logic .and) (.variable "b")
      (.call none "spoil" [.variable "b"]) 0 2 5 (Program.spoiling.after 8) (Program.spoiling.after 22)
      (Program.spoiling.after 23) ∧
    (Program.spoiling.after 8).heap.cell? 0 = some (.truth true) ∧
    (Program.spoiling.after 22).heap.cell? 2 = some (.truth true) ∧
    (Program.spoiling.after 23).heap.cell? 5 = some (.truth false) := by
  refine ⟨Program.reaches_after (by decide +kernel),
    ⟨?_, ⟨16, Machine.run_between (by decide +kernel), by decide +kernel⟩, ?_, ?_⟩,
    ⟨⟨2, Machine.run_between (by decide +kernel), ?_, ?_⟩, ⟨14, Machine.run_between (by decide +kernel), ?_, ?_⟩,
      Machine.step_between (by decide +kernel), .truth false, .truth true, .truth false, ?_, ?_, rfl, ?_⟩,
    ?_, ?_, ?_⟩
  all_goals decide +kernel

end Offside
