import Offside.Proofs.Machine.Renewal
import Offside.Proofs.Machine.Safety

/-! What a call reaches, and what it returns.

An evaluation leads from where things make sense to where they do. So a call reaches a method of the catalog
that has its name. If none of the variables that the method returns is a parameter, the slots that it returns
are newer than the call, and nothing that was there before has them. -/
namespace Offside

open Exec

/-- None of the variables that a method returns is one of its parameters. -/
def Header.separate (h : Header) : Bool := h.returns.all fun r => h.parameters.all fun p => p.name ≠ r.name

theorem Header.separate_iff {h : Header} :
    h.separate = true ↔ ∀ r ∈ h.returns, r.name ∉ h.parameters.map Decl.name := by
  simp [separate]

/-! ### Worlds that make sense -/

section Worlds

variable {c : Catalog} {rounds : Nat} {w w' : World} {e : Expr} {s : Slot}

theorem Machine.Sensible.run (hc : c.Regular) {m m' : Machine} {steps : Nat} (hm : m.Sensible c fun _ _ => True)
    (h : m.run c steps = (m', none)) : m'.Sensible c fun _ _ => True := by
  induction steps generalizing m' with
  | zero =>
    cases h
    exact hm
  | succ steps ih =>
    obtain ⟨m₀, hrun, hstep⟩ := Machine.run_succ_eq_none.mp h
    have hmeets := step_meets hc (ih hrun)
    rw [Meets, hstep] at hmeets
    exact hmeets.sensible.imp fun _ _ _ => trivial

/-- An expression leads from where things make sense to where they do. -/
theorem based_of_expr (hc : c.Regular) (hw : (w.machine none .enter []).Based c)
    (h : (Evaluator.ofRounds c rounds).expr e w = .ok s w') :
    (w'.machine none .enter []).Based c ∧ s < w'.heap.size := by
  -- Some work has to wait for the value; any that takes one will do.
  obtain ⟨k, hk⟩ := (ofRounds_simulates c rounds).run_expr h none [.choose e [] none, .leave [] w.frame none]
  have hsensible : (w.machine none (.eval e) [.choose e [] none, .leave [] w.frame none]).Sensible c
      fun _ _ => True :=
    ⟨⟨hw.heap, hw.frame⟩, .choose (.leave (List.forall_mem_nil _) hw.frame .empty)⟩
  have hlast := hsensible.run hc hk
  exact ⟨⟨hlast.based.heap, hlast.based.frame⟩, hlast.fits.1⟩

theorem based_of_arguments (hc : c.Regular) {args : List Expr} {slots : List Slot}
    (hw : (w.machine none .enter []).Based c) (h : Eval.arguments (.ofRounds c rounds) args w = .ok slots w') :
    (w'.machine none .enter []).Based c ∧ ∀ s ∈ slots, s < w'.heap.size := by
  induction args generalizing w slots with
  | nil =>
    cases h
    exact ⟨hw, List.forall_mem_nil _⟩
  | cons e rest ih =>
    obtain ⟨s, w₁, hs, hrest⟩ := Eval.bind_eq_ok h
    obtain ⟨others, w₂, hothers, hpure⟩ := Eval.bind_eq_ok hrest
    cases hpure
    obtain ⟨hbased, hlt⟩ := based_of_expr hc hw hs
    obtain ⟨hbased', hlt'⟩ := ih hbased hothers
    have hrenews := Eval.arguments_renews (Evaluator.ofRounds_renews c rounds) rest w₁ others _ hothers
      hbased.heap.owned
    exact ⟨hbased', List.forall_mem_cons.mpr ⟨Nat.lt_of_lt_of_le hlt hrenews.edits.grows, hlt'⟩⟩

end Worlds

/-! ### Calls -/

namespace Eval

/-- What a call does: its arguments come to slots, and the method that it reaches is called on these. -/
structure Called (c : Catalog) (E : Evaluator) (call : Call) (targets : Nat) (t : Callee)
    (slots returned : List Slot) (w w₁ w₂ w' : World) : Prop where
  arguments : Eval.arguments E call.arguments w = .ok slots w₁
  reaches : (callee c call.object call.method targets slots).on w₁ = .ok t w₂
  invokes : invoke c E t.cls t.object t.method slots w₂ = .ok returned w'

variable {c : Catalog} {E : Evaluator} {rounds : Nat} {call : Call} {targets : Nat} {t : Callee}
  {slots returned : List Slot} {w w₁ w₂ w' : World}

theorem call_eq_ok (h : Eval.call c E call targets w = .ok returned w') :
    ∃ t slots w₁ w₂, Called c E call targets t slots returned w w₁ w₂ w' := by
  obtain ⟨slots, w₁, hargs, h⟩ := bind_eq_ok h
  obtain ⟨t, w₂, hcallee, hinvoke⟩ := bind_eq_ok h
  exact ⟨t, slots, w₁, w₂, hargs, act_eq_ok hcallee, hinvoke⟩

/-- A method is called from the scope that the call is in. -/
theorem Called.frame_eq (h : Called c (.ofRounds c rounds) call targets t slots returned w w₁ w₂ w') :
    w₂.frame = w.frame := by
  obtain ⟨log, rfl⟩ := (callee_looks ..).same w₁ t w₂ h.reaches
  exact arguments_steady (Evaluator.ofRounds_steady c rounds) call.arguments w slots w₁ h.arguments

/-- What a call reaches is in a class of the catalog, by its name. -/
theorem Called.served (hc : c.Regular) (hw : (w.machine none .enter []).Based c)
    (h : Called c (.ofRounds c rounds) call targets t slots returned w w₁ w₂ w') :
    Served c w₁.heap call.method slots.length targets t := by
  obtain ⟨hbased, hslots⟩ := based_of_arguments hc hw h.arguments
  obtain ⟨m', hrun, -⟩ := on_eq_ok h.reaches
  have hmeets : Meets c (callee c call.object call.method targets slots) (w₁.machine none .enter []) _ :=
    callee_meets hbased hslots
  rw [Meets, hrun] at hmeets
  exact hmeets.2

/-- The slots that a call returns are newer than the call, if none of them is a parameter's. -/
theorem Called.returns_new (ho : w.heap.Owned)
    (h : Called c (.ofRounds c rounds) call targets t slots returned w w₁ w₂ w')
    (hseparate : t.method.header.separate = true) : ∀ r ∈ returned, w.heap.size ≤ r ∧ w'.heap.Unowned r := by
  have hR := Evaluator.ofRounds_renews c rounds
  have hrenews := arguments_renews hR call.arguments w slots w₁ h.arguments ho
  obtain ⟨log, rfl⟩ := (callee_looks ..).same w₁ t w₂ h.reaches
  have hinvoke := h.invokes
  cases haction : t.method.action with
  | write =>
    unfold invoke at hinvoke
    rw [haction] at hinvoke
    obtain ⟨_, _, -, hinvoke⟩ := bind_eq_ok hinvoke
    obtain ⟨_, _, -, hinvoke⟩ := bind_eq_ok hinvoke
    cases hinvoke
    exact List.forall_mem_nil _
  | run locals body =>
    obtain ⟨_, _, hinvoked⟩ := invoke_run haction hinvoke
    have hnew := Invoked.returns_new (w := { w₁ with log }) hR (Evaluator.ofRounds_grows c rounds)
      (hrenews.owned ho) hinvoked
    have heach := ((List.forall₂_and_left _ _).mpr ⟨Header.separate_iff.mp hseparate, hnew⟩).imp
      fun d r hr => And.intro (hr.2 hr.1) hr.1
    intro r hr
    obtain ⟨hge, hfree⟩ := ((List.forall₂_and_left _ _).mp heach.flip).1 r hr
    exact ⟨Nat.le_trans hrenews.edits.grows hge, hfree⟩

end Eval

end Offside
