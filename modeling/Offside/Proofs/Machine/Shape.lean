import Offside.Proofs.Machine.Safety

/-! The shape of objects throughout a run.

An object has no fields, or one for each member of its class, with a value of the member's type, as
long as no loop over an iterator has given a field another slot. What a slot holds stays of one kind,
and an object of one class, whatever happens. -/
namespace Offside

/-- The fields of an object of a class: one for each name among its members and no others, and each
has a value of the type that the name is declared with last. -/
structure Heap.Shaped (c : Catalog) (h : Heap) (cls : Class) (fields : Bindings) : Prop where
  names : ∀ name, name ∈ fields.entries.map Prod.fst ↔ name ∈ cls.fields.map Decl.name
  types : ∀ name s, (name, s) ∈ fields.entries →
    ∃ type form, lastType? cls.fields name = some type ∧ c.Gives type form ∧ h.form? s = some form

/-- Objects of classes of the catalog have no fields or those of their class. -/
def Catalog.shapes (c : Catalog) : Law := fun cls parts =>
  cls ∈ c.classes ∧ (parts = [] ∨ c.Conforms cls.fields parts)

section
variable {c : Catalog} {h : Heap}

theorem Catalog.shapes_upheld : c.Upholds False c.shapes :=
  ⟨And.left, fun hcls => ⟨hcls, .inl rfl⟩, fun hcls hparts => ⟨hcls, .inr hparts⟩, nofun⟩

theorem Heap.Makeup.names {entries : List (String × Slot)} {parts : List (String × Form)}
    (hm : h.Makeup entries parts) : entries.map Prod.fst = parts.map Prod.fst := by
  induction hm with
  | nil => rfl
  | cons hfirst _ ih => rw [List.map_cons, List.map_cons, hfirst.1, ih]

theorem Heap.Makeup.form {entries : List (String × Slot)} {parts : List (String × Form)} {name : String}
    {s : Slot} (hm : h.Makeup entries parts) (hs : (name, s) ∈ entries) :
    ∃ form, (name, form) ∈ parts ∧ h.form? s = some form := by
  induction hm with
  | nil => cases hs
  | @cons entry part _ _ hfirst _ ih =>
    rcases List.mem_cons.mp hs with rfl | hs
    · obtain ⟨other, form⟩ := part
      obtain rfl : name = other := hfirst.1
      exact ⟨form, List.mem_cons_self, hfirst.2⟩
    · obtain ⟨form, hmem, hform⟩ := ih hs
      exact ⟨form, List.mem_cons_of_mem _ hmem, hform⟩

theorem Catalog.Conforms.shaped {cls : Class} {fields : Bindings} {parts : List (String × Form)}
    (hparts : c.Conforms cls.fields parts) (hm : h.Makeup fields.entries parts) :
    h.Shaped c cls fields := by
  refine ⟨fun name => ?_, fun name s hs => ?_⟩
  · rw [hm.names]
    exact hparts.names name
  · obtain ⟨form, hmem, hform⟩ := hm.form hs
    obtain ⟨type, htype, hgives⟩ := hparts.types name form hmem
    exact ⟨type, form, htype, hgives, hform⟩

theorem Heap.Lawful.shaped (hl : h.Lawful c.shapes) {s : Slot} {cls : Class} {fields : Bindings}
    (hs : h.cell? s = some (.object cls fields)) :
    cls ∈ c.classes ∧ (fields.entries = [] ∨ h.Shaped c cls fields) := by
  obtain ⟨parts, hm, hcls, hparts⟩ := hl s _ hs
  refine ⟨hcls, hparts.imp (fun hnone => ?_) fun hparts => hparts.shaped hm⟩
  rw [hnone] at hm
  exact List.forall₂_nil_right_iff.mp hm

end

namespace Machine
variable {c : Catalog} {m m' : Machine}

/-- No state that a run went through in so many steps was about to give a field another slot. -/
def KeepsFields (c : Catalog) (m : Machine) (bound : Nat) : Prop :=
  ∀ n m₀, n < bound → m.restart.run c n = (m₀, none) → ¬ m₀.RebindsField

/-- As long as fields keep their slots, objects keep their shapes. -/
theorem run_lawful (hc : c.Regular) {bound : Nat} (h : m.restart.run c bound = (m', none))
    (hkeeps : m.KeepsFields c bound) : m'.heap.Lawful c.shapes := by
  induction bound generalizing m' with
  | zero =>
    cases h
    exact Heap.empty_lawful
  | succ bound ih =>
    obtain ⟨m₀, hreach, hstep⟩ := run_succ_eq_none.mp h
    have hlawful := ih hreach fun n m₁ hn => hkeeps n m₁ (Nat.lt_succ_of_lt hn)
    have hmeets := Exec.step_meets hc (run_sensible hc hreach)
    rw [Exec.Meets, hstep] at hmeets
    -- The step may give a field another slot only where the run does not come.
    refine hlawful.changes hc Catalog.shapes_upheld (hmeets.changes.imp ?_)
    exact hkeeps bound m₀ (Nat.lt_succ_self _) hreach

theorem run_keepsForms {n bound : Nat} (hn : n ≤ bound) :
    (m.run c n).1.heap.Keeps (m.run c bound).1.heap := by
  induction n generalizing m bound with
  | zero => exact (run_edits c bound m).keepsForms
  | succ n ih =>
    obtain ⟨bound, rfl⟩ := Nat.exists_eq_add_of_le' hn
    rw [run, ← Nat.add_assoc, run]
    cases (Exec.step c).run m with
    | ok u m₁ => exact ih (Nat.le_add_left n bound)
    | error h m₁ => exact .refl

end Machine

/-- In every state of a run of a program in which no loop over an iterator has given a field another
slot so far, an object has no fields or those that its class declares, with values of their types. And
in every run what a slot holds stays of its kind, and an object of its class, to the end. -/
theorem run_shapes (p : Program) (m : Machine) (bound : Nat) :
    (∀ m', m.restart.run (.ofProgram p) bound = (m', none) → m.KeepsFields (.ofProgram p) bound →
      ∀ s cls fields, m'.heap.cell? s = some (.object cls fields) →
        cls ∈ (Catalog.ofProgram p).classes ∧
          (fields.entries = [] ∨ m'.heap.Shaped (.ofProgram p) cls fields)) ∧
    ∀ n s form, n ≤ bound → (m.restart.run (.ofProgram p) n).1.heap.form? s = some form →
      (m.restart.run (.ofProgram p) bound).1.heap.form? s = some form := by
  have hc := Catalog.ofProgram_regular p
  refine ⟨fun m' hrun hkeeps s cls fields hs => ?_, fun n s form hn hs => ?_⟩
  · exact (Machine.run_lawful hc hrun hkeeps).shaped hs
  · exact Machine.run_keepsForms hn s form hs

end Offside
