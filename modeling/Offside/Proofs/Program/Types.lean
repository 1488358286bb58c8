import Offside.Proofs.Machine.Safety
import Offside.Proofs.Program.References

/-! Which types a run finds missing.

Two parts of a run ask what the name of a type stands for. A parameter takes arguments by it, and then
the name of an interface is as good as that of a class; any other variable gets its first value by it,
and an interface has no values of its own. So in a program that uses only names of types there are, a
type is found missing only where an interface is the type of a member, of a local variable or of a
return. -/
namespace Offside

/-! ### Declarations -/

/-- The parameters that a class declares. -/
def ClassDecl.parameters (d : ClassDecl) : List Decl :=
  d.constructors.flatMap ConstructorDecl.parameters ++ d.methods.flatMap (·.header.parameters)

/-- The members, local variables and returns that a class declares. -/
def ClassDecl.variables (d : ClassDecl) : List Decl :=
  d.members.map Member.decl ++ d.constructors.flatMap ConstructorDecl.locals ++
    d.methods.flatMap fun m => m.locals ++ m.header.returns

theorem Class.parameters_ofDecl (d : ClassDecl) : (Class.ofDecl d).parameters = d.parameters := by
  simp only [Class.parameters, Class.ofDecl, ClassDecl.parameters, List.flatMap_map]
  rfl

theorem Class.variables_ofDecl (d : ClassDecl) : (Class.ofDecl d).variables = d.variables := by
  simp only [Class.variables, Class.ofDecl, ClassDecl.variables, List.flatMap_map]
  rfl

/-! ### Names of types -/

/-- The types that are no classes. -/
def primitiveTypes : List String := ["number", "string", "boolean", "character"]

/-- A variable of the type can be given a first value: the type is primitive, or it is a class of the
program or the console's. -/
def Program.HasValues (p : Program) (type : String) : Prop :=
  type ∈ primitiveTypes ∨ type = "console" ∨ type ∈ p.classes.map ClassDecl.name

/-- The name is that of a type with values or of an interface of the program. -/
def Program.Knows (p : Program) (type : String) : Prop :=
  p.HasValues type ∨ type ∈ p.interfaces.map InterfaceDecl.name

/-- Every type in the declarations of the program's classes is one that there is. -/
def Program.KnowsTypes (p : Program) : Prop :=
  ∀ cls ∈ p.classes, ∀ d ∈ cls.parameters ++ cls.variables, p.Knows d.type

instance (p : Program) (type : String) : Decidable (p.HasValues type) :=
  inferInstanceAs (Decidable (_ ∨ _ ∨ _))

instance (p : Program) (type : String) : Decidable (p.Knows type) :=
  inferInstanceAs (Decidable (_ ∨ _))

instance (p : Program) : Decidable p.KnowsTypes :=
  inferInstanceAs (Decidable (∀ cls ∈ p.classes, ∀ d ∈ cls.parameters ++ cls.variables, p.Knows d.type))

namespace Catalog
variable {c : Catalog} {p : Program} {type : String}

/-- A class that is declared can be looked up by its name. -/
theorem class?_ofProgram_ne_none (htype : type = "console" ∨ type ∈ p.classes.map ClassDecl.name) :
    (ofProgram p).class? type ≠ none := by
  obtain ⟨cls, hcls, hname⟩ : ∃ cls ∈ declared p, cls.name = type := by
    rcases htype with rfl | htype
    · exact ⟨.console, List.mem_append_right _ List.mem_cons_self, rfl⟩
    · obtain ⟨d, hd, rfl⟩ := List.mem_map.mp htype
      exact ⟨.ofDecl d, List.mem_append_left _ (List.mem_map_of_mem hd), rfl⟩
  have hkept : (ofProgram p).class? type = (declared p).find? (·.name = type) :=
    find?_keepFirst List.not_mem_nil _
  rw [hkept]
  intro hnone
  exact absurd (List.find?_eq_none.mp hnone cls hcls) (by simpa using hname)

/-- A type without a first value is no primitive one and no class. -/
theorem initial_error_cases {f : Fault} (h : c.initial type = .error f) :
    type ∉ primitiveTypes ∧ c.class? type = none := by
  constructor
  · intro hprimitive
    simp only [primitiveTypes, List.mem_cons, List.not_mem_nil, or_false] at hprimitive
    rcases hprimitive with rfl | rfl | rfl | rfl <;> cases h
  · unfold initial at h
    split at h
    case h_5 =>
      cases hclass : c.class? type with
      | none => rfl
      | some cls =>
        rw [hclass] at h
        cases h
    all_goals cases h

/-- A type that takes no arguments is no interface either. -/
theorem accepts_error_cases {v : Cell} {f : Fault} (h : c.accepts type v = .error f) :
    type ∉ primitiveTypes ∧ c.class? type = none ∧ c.interface? type = none := by
  constructor
  · intro hprimitive
    simp only [primitiveTypes, List.mem_cons, List.not_mem_nil, or_false] at hprimitive
    rcases hprimitive with rfl | rfl | rfl | rfl <;> cases v <;> cases h
  · unfold accepts at h
    split at h
    case h_10 =>
      split at h
      · split at h <;> cases h
      · rename_i hclass
        split at h
        · split at h <;> cases h
        · exact ⟨Option.not_isSome_iff_eq_none.mp hclass, Option.not_isSome_iff_eq_none.mp ‹_›⟩
    all_goals cases h

theorem not_hasValues (hprimitive : type ∉ primitiveTypes) (hclass : (ofProgram p).class? type = none) :
    ¬ p.HasValues type := by
  rintro (htype | htype)
  · exact hprimitive htype
  · exact class?_ofProgram_ne_none htype hclass

/-- Whatever class of the catalog declares something, a class of the program does, or the console,
which declares nothing. -/
theorem mem_classes_ofProgram {cls : Class} (hcls : cls ∈ (ofProgram p).classes) :
    (∃ d ∈ p.classes, cls = .ofDecl d) ∨ cls = .console := by
  rcases List.mem_append.mp ((keepFirst_names [] (declared p)).2 cls hcls).1 with hmem | hmem
  · obtain ⟨d, hd, rfl⟩ := List.mem_map.mp hmem
    exact .inl ⟨d, hd, rfl⟩
  · exact .inr (List.mem_singleton.mp hmem)

/-- A type that is found missing is that of a parameter and not known, or that of another variable and
without values. -/
theorem Lacks.declared (h : (ofProgram p).Lacks type) :
    ∃ cls ∈ p.classes, (∃ d ∈ cls.parameters, d.type = type ∧ ¬ p.Knows type) ∨
      ∃ d ∈ cls.variables, d.type = type ∧ ¬ p.HasValues type := by
  obtain ⟨cls, hcls, hlacks⟩ := h
  rcases mem_classes_ofProgram hcls with ⟨decl, hdecl, rfl⟩ | rfl
  · rw [Class.parameters_ofDecl, Class.variables_ofDecl] at hlacks
    refine ⟨decl, hdecl, hlacks.imp ?_ ?_⟩
    · rintro ⟨d, hd, rfl, v, f, hv⟩
      obtain ⟨hprimitive, hclass, hinterface⟩ := accepts_error_cases hv
      refine ⟨d, hd, rfl, fun hknows => ?_⟩
      rcases hknows with hvalues | hmem
      · exact not_hasValues hprimitive hclass hvalues
      · obtain ⟨i, hi, hname⟩ := List.mem_map.mp hmem
        exact absurd (List.find?_eq_none.mp hinterface i hi) (by simpa using hname)
    · rintro ⟨d, hd, rfl, f, hf⟩
      obtain ⟨hprimitive, hclass⟩ := initial_error_cases hf
      exact ⟨d, hd, rfl, not_hasValues hprimitive hclass⟩
  · rcases hlacks with ⟨d, hd, -⟩ | ⟨d, hd, -⟩ <;> cases hd

end Catalog

/-! ### Runs -/

/-- A run halts for no fault that its program is not to blame for. -/
theorem Machine.run_fault_proper {p : Program} {m m' : Machine} {bound : Nat} {f : Fault}
    (hrun : m.restart.run (.ofProgram p) bound = (m', some (.fault f))) : f.Proper (.ofProgram p) := by
  have hc := Catalog.ofProgram_regular p
  obtain ⟨n, m₀, -, hreach, hlast⟩ := Machine.exists_last_step hrun
  have hmeets := Exec.step_meets hc (Machine.run_sensible hc hreach)
  rwa [Exec.Meets, hlast] at hmeets

theorem Fault.eq_noType {f : Fault} (hkind : f.kind = "unresolved type") : ∃ type, f = .noType type := by
  cases f with
  | noType type => exact ⟨type, rfl⟩
  | _ => simp [Fault.kind] at hkind

/-- Where every type in a program's declarations is a primitive one, the console's class, or a class or
an interface of the program, no run finds a type missing, but for an interface that is not also the
name of a class and is the type of a member, of a local variable or of a return. -/
theorem run_finds_types (p : Program) (hknows : p.KnowsTypes) (m m' : Machine) (bound : Nat) (f : Fault)
    (hrun : m.restart.run (.ofProgram p) bound = (m', some (.fault f)))
    (hkind : f.kind = "unresolved type") :
    ∃ cls ∈ p.classes, ∃ d ∈ cls.variables, f = .noType d.type ∧
      d.type ∈ p.interfaces.map InterfaceDecl.name ∧ ¬ p.HasValues d.type := by
  obtain ⟨type, rfl⟩ := f.eq_noType hkind
  obtain ⟨cls, hcls, hlacks⟩ := Catalog.Lacks.declared (Machine.run_fault_proper hrun)
  rcases hlacks with ⟨d, hd, rfl, hunknown⟩ | ⟨d, hd, rfl, hnone⟩
  · exact absurd (hknows cls hcls d (List.mem_append_left _ hd)) hunknown
  · have hknown := hknows cls hcls d (List.mem_append_right _ hd)
    exact ⟨cls, hcls, d, hd, rfl, hknown.resolve_left hnone, hnone⟩

/-- An interface is the type of a parameter, and of a local variable of the method that a run starts
with. -/
def Program.faceless : Program :=
  let place : Span := .single ⟨1, 1, "f"⟩
  let start : MethodDecl :=
    ⟨⟨"start", [], []⟩, false, true, [⟨"shape", "s"⟩],
      [.call ⟨some "console", "write", [.text "drawn"]⟩ [] place], place⟩
  let measure : MethodDecl :=
    ⟨⟨"measure", [⟨"shape", "s"⟩], [⟨"number", "a"⟩]⟩, false, true, [], [], place⟩
  ⟨[⟨"shape", [⟨"area", [], [⟨"number", "a"⟩]⟩], place⟩],
    [⟨"main", [], [], [], [start, measure], place⟩]⟩

theorem run_finds_types_faceless :
    Program.faceless.KnowsTypes ∧
      ∃ m', (Machine.start .error).restart.run (.ofProgram .faceless) 1 =
          (m', some (.fault (.noType "shape"))) ∧
        ∃ cls ∈ Program.faceless.classes, ∃ d ∈ cls.variables,
          Fault.noType "shape" = .noType d.type ∧
            d.type ∈ Program.faceless.interfaces.map InterfaceDecl.name ∧
            ¬ Program.faceless.HasValues d.type :=
  ⟨by decide, _, rfl, run_finds_types .faceless (by decide) (.start .error) _ 1 _ rfl rfl⟩

/-- A run can find a type missing that is an interface of its program, before it executes anything. -/
theorem interface_found_missing :
    Program.faceless.KnowsTypes ∧
      (Program.faceless.run .error 1 1).map (fun o => (o.records, o.error.map RuntimeError.text)) =
        some ([], some "unresolved type: unknown type shape") :=
  ⟨by decide, by decide +kernel⟩

end Offside
