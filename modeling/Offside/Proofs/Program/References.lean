import Offside.Proofs.Program.Catalog

/-! The names by which a program's classes refer to classes, and catalogs that differ in a class that
nothing refers to.

Code refers to classes by the types of what it declares, by the qualifiers of its calls, which may be
variables too, and by the classes of new objects. Two catalogs that differ in one name only give the
same for all others. -/
namespace Offside

/-! ### References -/

mutual

def Expr.references : Expr → List String
  | .number _ | .text _ | .truth _ | .character _ | .variable _ => []
  | .not operand => operand.references
  | .binary _ left right => left.references ++ right.references
  | .call object _ arguments => object.toList ++ Expr.referencesEach arguments
  | .create cls arguments => cls :: Expr.referencesEach arguments

def Expr.referencesEach : List Expr → List String
  | [] => []
  | e :: rest => e.references ++ Expr.referencesEach rest

end

mutual

def Stmt.references : Stmt → List String
  | .assign _ value _ => value.references
  | .call c _ _ => c.toExpr.references
  | .loop _ source body _ => source.references ++ Stmt.referencesEach body
  | .branch condition yes no _ =>
    condition.references ++ Stmt.referencesEach yes ++ Stmt.referencesElse no

def Stmt.referencesEach : List Stmt → List String
  | [] => []
  | s :: rest => s.references ++ Stmt.referencesEach rest

def Stmt.referencesElse : Option (List Stmt) → List String
  | none => []
  | some no => Stmt.referencesEach no

end

theorem Stmt.referencesElse_eq (no : Option (List Stmt)) :
    Stmt.referencesElse no = Stmt.referencesEach (no.getD []) := by
  cases no with
  | none => rfl
  | some no => rfl

/-- The statements of a method. -/
def Method.body (m : Method) : List Stmt :=
  match m.action with
  | .run _ body => body
  | .write => []

def Class.references (cls : Class) : List String :=
  (cls.parameters ++ cls.variables).map Decl.type ++
    cls.constructors.flatMap (fun k => Stmt.referencesEach k.body) ++
    cls.methods.flatMap fun m => Stmt.referencesEach m.body

def Program.references (p : Program) : List String :=
  p.classes.flatMap fun d => (Class.ofDecl d).references

namespace Class
variable {cls : Class} {name : String}

theorem type_ne {d : Decl} (h : name ∉ cls.references) (hd : d ∈ cls.parameters ++ cls.variables) :
    d.type ≠ name := by
  rintro rfl
  exact h (List.mem_append_left _ (List.mem_append_left _ (List.mem_map_of_mem hd)))

theorem constructor_not_mem {k : ConstructorDecl} (h : name ∉ cls.references) (hk : k ∈ cls.constructors) :
    name ∉ Stmt.referencesEach k.body :=
  fun hmem => h (List.mem_append_left _ (List.mem_append_right _ (List.mem_flatMap.mpr ⟨k, hk, hmem⟩)))

theorem method_not_mem {m : Method} (h : name ∉ cls.references) (hm : m ∈ cls.methods) :
    name ∉ Stmt.referencesEach m.body :=
  fun hmem => h (List.mem_append_right _ (List.mem_flatMap.mpr ⟨m, hm, hmem⟩))

end Class

/-! ### Catalogs that differ in one name -/

/-- The catalogs differ in nothing but what the name stands for, and nothing in the first one refers
to it. -/
structure Catalog.AlikeBut (name : String) (c c' : Catalog) : Prop where
  interfaces : c'.interfaces = c.interfaces
  class? : ∀ other, other ≠ name → c'.class? other = c.class? other
  entry? : c'.entry? = c.entry?
  unused : ∀ cls ∈ c.classes, name ∉ cls.references

namespace Catalog
variable {name : String} {c c' : Catalog}

theorem initial_alike (ha : c.AlikeBut name c') {type : String} (htype : type ≠ name) :
    c'.initial type = c.initial type := by
  unfold initial
  split
  case h_5 => rw [ha.class? type htype]
  all_goals rfl

theorem accepts_alike (ha : c.AlikeBut name c') {type : String} (htype : type ≠ name) (v : Cell) :
    c'.accepts type v = c.accepts type v := by
  unfold accepts
  split
  case h_10 => rw [ha.class? type htype, interface?, interface?, ha.interfaces]
  all_goals rfl

theorem acceptsAll_alike (ha : c.AlikeBut name c') {params : List Decl}
    (hparams : ∀ d ∈ params, d.type ≠ name) (values : List Cell) :
    c'.acceptsAll params values = c.acceptsAll params values := by
  have heach : c'.acceptsEach params values = c.acceptsEach params values := by
    induction params generalizing values with
    | nil => cases values <;> rfl
    | cons d params ih =>
      obtain ⟨hd, hparams⟩ := List.forall_mem_cons.mp hparams
      cases values with
      | nil => rfl
      | cons v values => rw [acceptsEach, acceptsEach, accepts_alike ha hd, ih hparams]
  rw [acceptsAll, acceptsAll, heach]

theorem findMethod_alike (ha : c.AlikeBut name c') {methods : List Method}
    (hmethods : ∀ m ∈ methods, ∀ d ∈ m.header.parameters, d.type ≠ name) (called : String)
    (values : List Cell) (targets : Nat) (sharedOnly : Bool) :
    c'.findMethod called values targets sharedOnly methods =
      c.findMethod called values targets sharedOnly methods := by
  induction methods with
  | nil => rfl
  | cons m rest ih =>
    obtain ⟨hm, hrest⟩ := List.forall_mem_cons.mp hmethods
    have hserves : c'.serves m called values targets = c.serves m called values targets := by
      rw [serves, serves, acceptsAll_alike ha hm]
    rw [findMethod, findMethod, hserves, ih hrest]

theorem findConstructor_alike (ha : c.AlikeBut name c') {constructors : List ConstructorDecl}
    (hconstructors : ∀ k ∈ constructors, ∀ d ∈ k.parameters, d.type ≠ name) (values : List Cell) :
    c'.findConstructor values constructors = c.findConstructor values constructors := by
  induction constructors with
  | nil => rfl
  | cons k rest ih =>
    obtain ⟨hk, hrest⟩ := List.forall_mem_cons.mp hconstructors
    rw [findConstructor, findConstructor, acceptsAll_alike ha hk, ih hrest]

/-! ### One more class -/

/-- The classes that are kept of a longer list are those kept of the shorter one, and more. -/
theorem exists_keepFirst_append (taken : List String) (classes : List Class) :
    ∃ taken', (∀ name, name ∈ taken' ↔ name ∈ taken ∨ name ∈ classes.map Class.name) ∧
      ∀ more, (keepFirst taken (classes ++ more)).1 =
        (keepFirst taken classes).1 ++ (keepFirst taken' more).1 := by
  induction classes generalizing taken with
  | nil => exact ⟨taken, by simp, fun more => rfl⟩
  | cons cls rest ih =>
    by_cases htaken : cls.name ∈ taken
    · obtain ⟨taken', hmem, happend⟩ := ih taken
      refine ⟨taken', fun name => ?_, fun more => ?_⟩
      · rw [hmem, List.map_cons, List.mem_cons]
        constructor
        · exact Or.imp_right .inr
        · rintro (h | rfl | h)
          · exact .inl h
          · exact .inl htaken
          · exact .inr h
      · simp only [List.cons_append, keepFirst, if_pos htaken, happend]
    · obtain ⟨taken', hmem, happend⟩ := ih (cls.name :: taken)
      refine ⟨taken', fun name => ?_, fun more => ?_⟩
      · rw [hmem, List.mem_cons, List.map_cons, List.mem_cons, or_left_comm, or_assoc]
      · simp only [List.cons_append, keepFirst, if_neg htaken, happend]

/-- Dropping repeated classes loses no name. -/
theorem find?_keepFirst {taken : List String} {name : String} (hname : name ∉ taken)
    (classes : List Class) :
    (keepFirst taken classes).1.find? (·.name = name) = classes.find? (·.name = name) := by
  induction classes generalizing taken with
  | nil => rfl
  | cons cls rest ih =>
    by_cases htaken : cls.name ∈ taken
    · have hne : cls.name ≠ name := fun heq => hname (heq ▸ htaken)
      simp only [keepFirst, if_pos htaken, List.find?_cons, hne, decide_false]
      exact ih hname
    · simp only [keepFirst, if_neg htaken, List.find?_cons]
      by_cases hsame : cls.name = name
      · simp [hsame]
      · simp only [hsame, decide_false]
        exact ih (List.not_mem_cons_of_ne_of_not_mem (Ne.symm hsame) hname)

end Catalog

/-- One of the classes has a method to start with. -/
def Program.starts (p : Program) : Bool := Option.isSome <| Catalog.entry? (.ofProgram p)

/-- The program with another class after its last one. -/
def Program.addClass (p : Program) (d : ClassDecl) : Program := { p with classes := p.classes ++ [d] }

namespace Catalog
variable {p : Program} {d : ClassDecl}

theorem declared_addClass : declared (p.addClass d) = p.classes.map Class.ofDecl ++ [.ofDecl d, .console] := by
  simp [declared, Program.addClass]

/-- A class whose name is taken is left out. -/
theorem ofProgram_addClass (htaken : d.name ∈ p.classes.map ClassDecl.name) :
    ofProgram (p.addClass d) = ofProgram p := by
  obtain ⟨taken, hmem, happend⟩ := exists_keepFirst_append [] (p.classes.map Class.ofDecl)
  have hd : (Class.ofDecl d).name ∈ taken := by
    refine (hmem _).mpr (.inr ?_)
    rw [List.map_map]
    exact htaken
  rw [ofProgram, ofProgram, declared_addClass, declared, happend, happend, keepFirst, if_pos hd]
  rfl

theorem entry?_append {interfaces : List InterfaceDecl} {classes others : List Class} :
    entry? ⟨interfaces, classes ++ others⟩ =
      (Catalog.entry? ⟨interfaces, classes⟩).or (Catalog.entry? ⟨interfaces, others⟩) :=
  List.findSome?_append

/-- The console is no place to start. -/
theorem entry?_console {interfaces : List InterfaceDecl} {taken : List String} :
    entry? ⟨interfaces, (keepFirst taken [Class.console]).1⟩ = none := by
  refine List.findSome?_eq_none_iff.mpr fun cls hcls => ?_
  rw [List.mem_singleton.mp ((keepFirst_names taken _).2 cls hcls).1]
  decide

/-- A class of a new name that nothing refers to makes no other difference. -/
theorem addClass_alikeBut (hstarts : p.starts) (hname : d.name ∉ p.references) :
    (ofProgram p).AlikeBut d.name (ofProgram (p.addClass d)) := by
  refine ⟨rfl, fun other hother => ?_, ?_, fun cls hcls => ?_⟩
  · have hne : (Class.ofDecl d).name ≠ other := Ne.symm hother
    unfold class? ofProgram
    rw [find?_keepFirst List.not_mem_nil, find?_keepFirst List.not_mem_nil, declared_addClass, declared,
      List.find?_append, List.find?_append, List.find?_cons_of_neg (by simpa using hne)]
  · obtain ⟨taken, -, happend⟩ := exists_keepFirst_append [] (p.classes.map Class.ofDecl)
    -- The entry is found before the new class, since the console has none.
    have hbefore : Catalog.entry? (ofProgram p) =
        entry? ⟨p.interfaces, (keepFirst [] (p.classes.map Class.ofDecl)).1⟩ := by
      rw [ofProgram, declared, happend, entry?_append, entry?_console, Option.or_none]
    unfold Program.starts at hstarts
    rw [hbefore] at hstarts ⊢
    rw [ofProgram, declared_addClass, happend, entry?_append]
    exact Option.or_of_isSome hstarts
  · rcases List.mem_append.mp ((keepFirst_names [] _).2 cls hcls).1 with hdeclared | hconsole
    · obtain ⟨decl, hdecl, rfl⟩ := List.mem_map.mp hdeclared
      exact fun hmem => hname (List.mem_flatMap.mpr ⟨decl, hdecl, hmem⟩)
    · rw [List.mem_singleton.mp hconsole]
      exact List.not_mem_nil

end Catalog

end Offside
