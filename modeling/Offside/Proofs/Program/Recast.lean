import Mathlib.Data.List.Forall2
import Offside.Proofs.Machine.Erasure

/-! What of a program no run ever reads.

A declaration is *recast* by replacing what a run has no use for: the headers in an interface, the
bodies of accessors and mutators, and the span of anything but a statement. All of it is in the catalog
that a run works with, and in the classes that its objects and its scopes belong to; but it is what
erasure takes away, so the run of the recast program goes through the same states up to erasure, and
its outcome shows nothing of what is erased. -/
namespace Offside

/-! ### Recasting declarations -/

/-- Another interface with the same name. -/
def InterfaceDecl.Recast (d d' : InterfaceDecl) : Prop :=
  d' = { d with methods := d'.methods, span := d'.span }

/-- The same field with other bodies. -/
def Member.Recast (m m' : Member) : Prop :=
  m' = { m with accessor := m'.accessor, mutator := m'.mutator }

def ConstructorDecl.Recast (k k' : ConstructorDecl) : Prop := k' = { k with span := k'.span }

def MethodDecl.Recast (m m' : MethodDecl) : Prop := m' = { m with span := m'.span }

/-- Every part of a class is recast, and the span may be another. -/
structure ClassDecl.Recast (d d' : ClassDecl) : Prop where
  name : d'.name = d.name
  interfaces : d'.interfaces = d.interfaces
  members : List.Forall₂ Member.Recast d.members d'.members
  constructors : List.Forall₂ ConstructorDecl.Recast d.constructors d'.constructors
  methods : List.Forall₂ MethodDecl.Recast d.methods d'.methods

/-- Every interface and every class is recast. -/
structure Program.Recast (p p' : Program) : Prop where
  interfaces : List.Forall₂ InterfaceDecl.Recast p.interfaces p'.interfaces
  classes : List.Forall₂ ClassDecl.Recast p.classes p'.classes

/-! ### The catalog -/

/-- What related items have in common is the same of both lists. -/
theorem map_of_forall₂ {α β : Type} {R : α → α → Prop} (f : α → β)
    (hf : ∀ {a a'}, R a a' → f a' = f a) {as as' : List α} (h : List.Forall₂ R as as') :
    as'.map f = as.map f := by
  induction h with
  | nil => rfl
  | cons hfirst _ ih => rw [List.map_cons, List.map_cons, hf hfirst, ih]

theorem InterfaceDecl.Recast.erase {d d' : InterfaceDecl} (h : d.Recast d') : d'.erase = d.erase := by
  rw [h]
  rfl

theorem Member.Recast.erase {m m' : Member} (h : m.Recast m') : m'.erase = m.erase := by
  rw [h]
  rfl

theorem ConstructorDecl.Recast.erase {k k' : ConstructorDecl} (h : k.Recast k') : k'.erase = k.erase := by
  rw [h]
  rfl

theorem MethodDecl.Recast.erase {m m' : MethodDecl} (h : m.Recast m') :
    (Method.ofDecl m').erase = (Method.ofDecl m).erase := by
  rw [h]
  rfl

theorem ClassDecl.Recast.erase {d d' : ClassDecl} (h : d.Recast d') :
    (Class.ofDecl d').erase = (Class.ofDecl d).erase := by
  have hmembers : d'.members.map Member.erase = d.members.map Member.erase :=
    map_of_forall₂ Member.erase Member.Recast.erase h.members
  have hconstructors : d'.constructors.map ConstructorDecl.erase = d.constructors.map ConstructorDecl.erase :=
    map_of_forall₂ ConstructorDecl.erase ConstructorDecl.Recast.erase h.constructors
  have hmethods : d'.methods.map (fun m => (Method.ofDecl m).erase) =
      d.methods.map (fun m => (Method.ofDecl m).erase) :=
    map_of_forall₂ (fun m => (Method.ofDecl m).erase) MethodDecl.Recast.erase h.methods
  simp only [Class.ofDecl, Class.erase, List.map_map, Function.comp_def, h.name, h.interfaces, hmembers,
    hconstructors, hmethods]

namespace Catalog
variable {p p' : Program}

/-- Classes are kept and dropped by their names. -/
theorem keepFirst_erase (taken : List String) (classes : List Class) :
    keepFirst taken (classes.map Class.erase) =
      ((keepFirst taken classes).1.map Class.erase, (keepFirst taken classes).2) := by
  induction classes generalizing taken with
  | nil => rfl
  | cons cls rest ih =>
    have hname : cls.erase.name = cls.name := rfl
    rw [List.map_cons, keepFirst, keepFirst, hname, ih, ih]
    by_cases htaken : cls.name ∈ taken
    · rw [if_pos htaken, if_pos htaken]
    · rw [if_neg htaken, if_neg htaken]
      rfl

theorem declared_recast (h : p.Recast p') : (declared p').map Class.erase = (declared p).map Class.erase := by
  have hclasses : p'.classes.map (fun d => (Class.ofDecl d).erase) = p.classes.map fun d => (Class.ofDecl d).erase :=
    map_of_forall₂ (fun d => (Class.ofDecl d).erase) ClassDecl.Recast.erase h.classes
  simp only [declared, List.map_append, List.map_map, Function.comp_def, hclasses]

theorem keepFirst_recast (h : p.Recast p') :
    (keepFirst [] (declared p')).1.map Class.erase = (keepFirst [] (declared p)).1.map Class.erase ∧
      (keepFirst [] (declared p')).2 = (keepFirst [] (declared p)).2 := by
  have hkept := keepFirst_erase [] (declared p')
  rw [declared_recast h, keepFirst_erase] at hkept
  exact ⟨(congrArg Prod.fst hkept).symm, (congrArg Prod.snd hkept).symm⟩

theorem ofProgram_recast (h : p.Recast p') : (ofProgram p').erase = (ofProgram p).erase := by
  have hinterfaces : p'.interfaces.map InterfaceDecl.erase = p.interfaces.map InterfaceDecl.erase :=
    map_of_forall₂ InterfaceDecl.erase InterfaceDecl.Recast.erase h.interfaces
  rw [ofProgram, ofProgram, Catalog.erase, Catalog.erase, hinterfaces, (keepFirst_recast h).1]

theorem warnings_recast (h : p.Recast p') : warnings p' = warnings p := by
  rw [warnings, warnings, repeated, repeated, (keepFirst_recast h).2]

end Catalog

/-! ### Runs -/

/-- **Recasting changes no outcome**: not what is written, not the error and its place, not the log,
and not whether the run ends at all. -/
theorem run_recast (p p' : Program) (h : p.Recast p') (threshold : Level) (bound times : Nat) :
    p'.run threshold bound times = p.run threshold bound times := by
  -- The runs before leave two machines that are the same but for what is erased.
  suffices hgo : ∀ error m m', m'.erase = m.erase →
      Program.run.go p' bound times error m' = Program.run.go p bound times error m from
    hgo none _ _ rfl
  induction times with
  | zero =>
    intro error m m' hm
    have hrecords : m'.records = m.records := (congrArg Machine.records hm :)
    have hlog : m'.log = m.log := (congrArg Machine.log hm :)
    rw [Program.run.go, Program.run.go, Catalog.warnings_recast h, hrecords, hlog]
  | succ times ih =>
    intro error m m' hm
    have hrestart : m'.restart.erase = m.restart.erase := by
      rw [← Machine.restart_erase, ← Machine.restart_erase, hm]
    obtain ⟨hend, hhalt⟩ := Machine.run_eq_of_erase (Catalog.ofProgram_recast h) hrestart bound
    rw [Program.run.go, Program.run.go]
    generalize m'.restart.run (.ofProgram p') bound = r' at hend hhalt
    generalize m.restart.run (.ofProgram p) bound = r at hend hhalt
    obtain ⟨m₁', halt'⟩ := r'
    obtain ⟨m₁, halt⟩ := r
    obtain rfl : halt' = halt := hhalt
    cases halt' with
    | none => rfl
    | some halt =>
      have herror : m₁'.error? halt = m₁.error? halt := by
        rw [← Machine.error?_erase, hend, Machine.error?_erase]
      dsimp only
      rw [herror]
      exact ih _ m₁ m₁' hend

/-- An object writes its one field and then fails to set it. Everything that may be recast is an
argument. -/
def Program.gauge (header : Header) (accessor mutator : List Stmt) (place : Span) : Program :=
  let here : Span := .single ⟨9, 1, "f"⟩
  let start : MethodDecl :=
    ⟨⟨"start", [], []⟩, false, true, [⟨"gauge", "g"⟩],
      [.assign "g" (.create "gauge" []) here, .call ⟨some "g", "show", []⟩ [] here], place⟩
  let shown : MethodDecl :=
    ⟨⟨"show", [], []⟩, false, false, [],
      [.assign "level" (.text "low") here, .call ⟨some "console", "write", [.variable "level"]⟩ [] here,
        .assign "level" (.truth true) here], place⟩
  ⟨[⟨"shown", [header], place⟩],
    [⟨"gauge", ["shown"], [⟨⟨"string", "level"⟩, accessor, mutator⟩], [⟨[], [], [], place⟩],
      [start, shown], place⟩]⟩

theorem Program.gauge_recast (header header' : Header) (accessor accessor' mutator mutator' : List Stmt)
    (place place' : Span) :
    Program.Recast (.gauge header accessor mutator place) (.gauge header' accessor' mutator' place') := by
  refine ⟨.cons rfl .nil, .cons ?_ .nil⟩
  exact ⟨rfl, rfl, .cons rfl .nil, .cons rfl .nil, .cons rfl (.cons rfl .nil)⟩

/-- Of two bodies for the field one would write and one would never end, if a run came to them. -/
theorem run_recast_gauge :
    let place : Span := .single ⟨1, 1, "f"⟩
    let other : Span := ⟨⟨3, 2, "f"⟩, ⟨3, 7, "f"⟩⟩
    let p : Program := .gauge ⟨"show", [], []⟩ [] [] place
    let p' : Program := .gauge ⟨"hide", [⟨"number", "n"⟩], [⟨"string", "t"⟩]⟩
      [.call ⟨some "console", "write", [.text "read"]⟩ [] other] [.loop none (.truth true) [] other] other
    p.Recast p' ∧
      (p.run .error 60 1).map (fun o => (o.records, o.error.map RuntimeError.text)) =
        some (["low"], some "type mismatch: cannot assign a boolean to a string. f:9:1-9:1") ∧
      ∀ threshold bound times, p'.run threshold bound times = p.run threshold bound times :=
  ⟨Program.gauge_recast .., by decide +kernel, run_recast _ _ (Program.gauge_recast ..)⟩

end Offside
