import Offside.Proofs.Machine.Waiting

/-! What no run comes to.

Some things that a machine could find missing are there in every state that a run reaches: the
variables that a method returns, the two returns of an iterator's method, a variable or an object to
put an item into, and as many arguments as a method has parameters. So a run halts because it is over
or because of what its program does, and never for a fault of the machine. -/
namespace Offside

/-! ### The last step of a run -/

namespace Machine
variable {c : Catalog} {m m' : Machine}

theorem run_succ_eq_none {bound : Nat} :
    m.run c (bound + 1) = (m', none) ↔
      ∃ m₀, m.run c bound = (m₀, none) ∧ (Exec.step c).run m₀ = .ok () m' := by
  induction bound generalizing m with
  | zero =>
    unfold run
    cases hstep : (Exec.step c).run m with
    | ok u m₁ => simp [run, hstep]
    | error h m₁ => simp [hstep]
  | succ bound ih =>
    rw [run]
    unfold run
    cases hstep : (Exec.step c).run m with
    | ok u m₁ => exact ih
    | error h m₁ => simp

/-- A run halts in the step after some state that it reaches. -/
theorem exists_last_step {bound : Nat} {h : Halt} (hrun : m.run c bound = (m', some h)) :
    ∃ n m₀, n < bound ∧ m.run c n = (m₀, none) ∧ (Exec.step c).run m₀ = .error h m' := by
  induction bound generalizing m with
  | zero => cases hrun
  | succ bound ih =>
    unfold run at hrun
    cases hstep : (Exec.step c).run m with
    | ok u m₁ =>
      rw [hstep] at hrun
      obtain ⟨n, m₀, hn, hreach, hlast⟩ := ih hrun
      refine ⟨n + 1, m₀, Nat.succ_lt_succ hn, ?_, hlast⟩
      rw [run, hstep]
      exact hreach
    | error e m₁ =>
      rw [hstep] at hrun
      cases hrun
      exact ⟨0, m, Nat.succ_pos _, rfl, hstep⟩

/-! ### Sensible runs -/

theorem restart_sensible (m : Machine) (wrote : Call → List String → Prop) :
    m.restart.Sensible c wrote :=
  ⟨⟨Heap.empty_tidy, nofun, nofun, .inr rfl⟩, rfl⟩

/-- The state before this one was at a call statement's call that writes. -/
def WroteBefore (c : Catalog) (m : Machine) (bound : Nat) (call : Call) (targets : List String) : Prop :=
  ∃ n m₀, bound = n + 1 ∧ m.restart.run c n = (m₀, none) ∧ m₀.Writes c call targets

/-- Every state that a run reaches is sensible. -/
theorem run_sensible (hc : c.Regular) {bound : Nat} (h : m.restart.run c bound = (m', none)) :
    m'.Sensible c (m.WroteBefore c bound) := by
  induction bound generalizing m' with
  | zero =>
    cases h
    exact restart_sensible m _
  | succ bound ih =>
    obtain ⟨m₀, hreach, hstep⟩ := run_succ_eq_none.mp h
    have hmeets := Exec.step_meets hc (ih hreach)
    rw [Exec.Meets, hstep] at hmeets
    exact hmeets.sensible.imp fun call targets hwrites => ⟨bound, m₀, rfl, hreach, hwrites⟩

/-! ### What is there -/

/-- What the machine is about to use is there. `wrote` holds of the call statement that the machine is
at if its call wrote. -/
structure Provided (wrote : Call → List String → Prop) (m : Machine) : Prop where
  /-- At the end of a method, the variables that it returns. -/
  returns : ∀ returns caller span rest, m.task = .run [] → m.stack = .leave returns caller span :: rest →
    ∃ slots, (Exec.lookupEach returns).run m = .ok slots m ∧ slots.length = returns.length
  /-- In a loop over an iterator, what the iterator was asked for: whether there is an item, and the
  item. -/
  items : ∀ slots loop iterator cls getNext rest, m.task = .values slots →
    m.stack = .item loop iterator cls getNext :: rest → slots.length = 2
  /-- A place for an item, if the loop's variable holds the iterator itself. -/
  place : ∀ more item loop iterator cls getNext rest, m.task = .values [more, item] →
    m.stack = .item loop iterator cls getNext :: rest →
    (Exec.lookup loop.name).run m = .ok iterator m →
    ∃ m', (Exec.storeItem loop.name iterator item).run m = .ok () m'
  /-- A return for each variable of a call statement, unless its call wrote. -/
  received : ∀ slots call targets span rest, m.task = .values slots →
    m.stack = .receive call targets span :: rest → slots.length < targets.length →
    wrote call targets

end Machine

namespace Exec
variable {c : Catalog} {m : Machine}

/-- Variables that there are can be looked up. -/
theorem lookupEach_of_contains (hm : m.Based c) {decls : List Decl}
    (hdecls : ∀ d ∈ decls, m.frame.locals.contains d.name = true) :
    ∃ slots, (lookupEach decls).run m = .ok slots m ∧ slots.length = decls.length := by
  obtain ⟨slots, hon⟩ := lookupEach_on (w := m.world) hdecls
  have hrun : (lookupEach decls).run m = .ok slots m := by
    have huniform := (lookupEach_local decls).uniform m.world m.here m.task m.stack
    rwa [hon] at huniform
  have hmeets := lookupEach_meets hm decls
  rw [Meets, hrun] at hmeets
  exact ⟨slots, hrun, hmeets.2.1⟩

/-- An item goes into a variable that holds the iterator, whatever the item is. -/
theorem storeItem_of_iterator (hc : c.Regular) (hm : m.Based c) {name : String} {iterator item : Nat}
    (hitem : item < m.heap.size) (hlookup : (lookup name).run m = .ok iterator m) :
    ∃ m', (storeItem name iterator item).run m = .ok () m' := by
  have hmeets := lookup_meets hm name
  rw [Meets, hlookup] at hmeets
  obtain ⟨m', hrun, -⟩ := rebind_copy hc hm hitem hmeets.2.2
  refine ⟨m', ?_⟩
  rw [storeItem, run_bind, hlookup]
  show (if iterator = iterator then copy item >>= rebind name else assign iterator item).run m = _
  rw [if_pos rfl, hrun]

end Exec

theorem Machine.Sensible.provided {c : Catalog} {wrote : Call → List String → Prop} {m : Machine}
    (hc : c.Regular) (hm : m.Sensible c wrote) : m.Provided wrote := by
  obtain ⟨hbased, hfits⟩ := hm
  refine ⟨?_, ?_, ?_, ?_⟩
  · intro returns caller span rest htask hstack
    rw [htask, hstack] at hfits
    cases hfits with
    | leave hreturns => exact Exec.lookupEach_of_contains hbased hreturns
  · intro slots loop iterator cls getNext rest htask hstack
    rw [htask, hstack] at hfits
    obtain ⟨-, count, hk, hcount⟩ := hfits
    cases hk with
    | item =>
      rcases hcount with hcount | ⟨hnone, -⟩
      · exact (Option.some.inj hcount).symm
      · cases hnone
  · intro more item loop iterator cls getNext rest htask hstack hlookup
    rw [htask] at hfits
    have hitem := hfits.1 item (List.mem_cons_of_mem _ List.mem_cons_self)
    exact Exec.storeItem_of_iterator hc hbased hitem hlookup
  · intro slots call targets span rest htask hstack hfew
    rw [htask, hstack] at hfits
    obtain ⟨-, count, hk, hcount⟩ := hfits
    cases hk with
    | receive henough =>
      rcases hcount with rfl | ⟨-, -, hwrote⟩
      · rcases henough with hnone | rfl | heq
        · cases hnone
        · exact absurd hfew (Nat.not_lt_zero _)
        · exact absurd (Option.some.inj heq) (Nat.ne_of_lt hfew)
      · exact hwrote call targets span rest rfl

/-! ### Reasons to halt -/

/-- The kinds of faults that a program can be blamed for. -/
def Fault.kinds : List String :=
  ["unresolved method", "unresolved class", "unresolved type", "unresolved variable", "return count",
    "type mismatch", "division by zero", "malformed iterator", "non-boolean condition",
    "missing entry point"]

theorem Fault.Proper.kind_mem {c : Catalog} {f : Fault} (hf : f.Proper c) : f.kind ∈ kinds := by
  cases f with
  | argumentCount expected got => exact absurd hf id
  | _ => simp [Fault.kind, kinds]

/-- Nothing is missing in any state that a run of a program reaches: the variables that a method
returns can be looked up at its end, an iterator's method returned two values, an item has a place, and
a call returned enough for its variables, unless it is one that reaches the console. A run that halts
is over, or is so for a fault of one of the ten kinds of a program. -/
theorem run_lacks_nothing (p : Program) (m : Machine) (bound : Nat) :
    (∀ m', m.restart.run (.ofProgram p) bound = (m', none) →
      m'.Provided (m.WroteBefore (.ofProgram p) bound)) ∧
    ∀ m' h, m.restart.run (.ofProgram p) bound = (m', some h) →
      h = .finished ∨ ∃ f, h = .fault f ∧ f.kind ∈ Fault.kinds := by
  have hc := Catalog.ofProgram_regular p
  refine ⟨fun m' hrun => (Machine.run_sensible hc hrun).provided hc, fun m' h hrun => ?_⟩
  obtain ⟨n, m₀, -, hreach, hlast⟩ := Machine.exists_last_step hrun
  have hmeets := Exec.step_meets hc (Machine.run_sensible hc hreach)
  rw [Exec.Meets, hlast] at hmeets
  cases h with
  | finished => exact .inl rfl
  | fault f => exact .inr ⟨f, rfl, hmeets.kind_mem⟩
  | stuck => exact absurd hmeets id

/-- A class whose entry method wants a value from the console. -/
def Program.expectant : Program :=
  let place : Span := .single ⟨1, 1, "f"⟩
  let start : MethodDecl :=
    ⟨⟨"start", [], []⟩, false, true, [⟨"number", "n"⟩],
    [.call ⟨some "console", "write", []⟩ ["n"] place], place⟩
  ⟨[], [⟨"main", [], [], [], [start], place⟩]⟩

-- The console does return too little.
example : ∃ m' span rest, (Machine.start .error).restart.run (.ofProgram .expectant) 2 = (m', none) ∧
    m'.task = .values [] ∧ m'.stack = .receive ⟨some "console", "write", []⟩ ["n"] span :: rest :=
  ⟨_, _, _, rfl, rfl, rfl⟩

end Offside
