import Mathlib.Data.List.Nodup
import Offside.Machine.Resolve

/-! What looking something up in a catalog gives.

In the catalog of a program every name stands for at most one class, and the only method that writes
is the console's. A method that serves a call takes as many arguments as there are, and returns as
much as is asked for, unless it writes or nothing is kept. -/
namespace Offside

/-! ### Classes -/

/-- A name stands for one class, and only the console writes. -/
structure Catalog.Regular (c : Catalog) : Prop where
  names : (c.classes.map Class.name).Nodup
  writes : ∀ cls ∈ c.classes, ∀ m ∈ cls.methods, m.action = .write → cls = Class.console

/-- The parameters of a class's methods and constructors. -/
def Class.parameters (cls : Class) : List Decl :=
  cls.constructors.flatMap ConstructorDecl.parameters ++ cls.methods.flatMap (·.header.parameters)

/-- The variables of a method, its parameters apart. -/
def Method.variables (m : Method) : List Decl :=
  match m.action with
  | .run locals _ => locals ++ m.header.returns
  | .write => m.header.returns

/-- The variables that a class and its code declare, parameters apart. -/
def Class.variables (cls : Class) : List Decl :=
  cls.fields ++ cls.constructors.flatMap ConstructorDecl.locals ++ cls.methods.flatMap Method.variables

namespace Catalog
variable {c : Catalog}

theorem class?_eq_some {name : String} {cls : Class} (h : c.class? name = some cls) :
    cls ∈ c.classes ∧ cls.name = name :=
  ⟨List.mem_of_find?_eq_some h, by simpa using List.find?_some h⟩

theorem Regular.eq_of_name (hc : c.Regular) {cls other : Class} (hcls : cls ∈ c.classes)
    (hother : other ∈ c.classes) (hname : cls.name = other.name) : cls = other :=
  List.inj_on_of_nodup_map hc.names hcls hother hname

theorem keepFirst_names (taken : List String) (classes : List Class) :
    ((keepFirst taken classes).1.map Class.name).Nodup ∧
      ∀ cls ∈ (keepFirst taken classes).1, cls ∈ classes ∧ cls.name ∉ taken := by
  induction classes generalizing taken with
  | nil => exact ⟨.nil, nofun⟩
  | cons first rest ih =>
    by_cases htaken : first.name ∈ taken
    · obtain ⟨hnodup, hmem⟩ := ih taken
      simp only [keepFirst, if_pos htaken]
      exact ⟨hnodup, fun cls hcls => ⟨List.mem_cons_of_mem _ (hmem cls hcls).1, (hmem cls hcls).2⟩⟩
    · obtain ⟨hnodup, hmem⟩ := ih (first.name :: taken)
      simp only [keepFirst, if_neg htaken, List.map_cons, List.nodup_cons, List.mem_map]
      refine ⟨⟨?_, hnodup⟩, fun cls hcls => ?_⟩
      · rintro ⟨cls, hcls, hname⟩
        exact (hmem cls hcls).2 (hname ▸ List.mem_cons_self)
      · rcases List.mem_cons.mp hcls with rfl | hcls
        · exact ⟨List.mem_cons_self, htaken⟩
        · obtain ⟨hold, hnew⟩ := hmem cls hcls
          exact ⟨List.mem_cons_of_mem _ hold, fun h => hnew (List.mem_cons_of_mem _ h)⟩

/-- The catalog of a program is regular. -/
theorem ofProgram_regular (p : Program) : (ofProgram p).Regular := by
  obtain ⟨hnames, hmem⟩ := keepFirst_names [] (declared p)
  refine ⟨hnames, fun cls hcls m hm hwrite => ?_⟩
  rcases List.mem_append.mp (hmem cls hcls).1 with hdeclared | hconsole
  · obtain ⟨decl, -, rfl⟩ := List.mem_map.mp hdeclared
    obtain ⟨method, -, rfl⟩ := List.mem_map.mp hm
    cases hwrite
  · exact List.mem_singleton.mp hconsole

/-- The method that an iterator is asked with runs statements. -/
theorem Regular.getNext? (hc : c.Regular) {cls : Class} (hcls : cls ∈ c.classes) {m : Method}
    (hm : cls.getNext? = some m) :
    m ∈ cls.methods ∧ m.header.parameters = [] ∧ m.header.returns.length = 2 ∧ m.action ≠ .write := by
  have hmem : m ∈ cls.methods := List.mem_of_find?_eq_some hm
  have hshape := List.find?_some hm
  simp only [List.isEmpty_iff, Bool.decide_and, Bool.and_eq_true, decide_eq_true_eq] at hshape
  refine ⟨hmem, hshape.2.1, hshape.2.2, fun hwrite => ?_⟩
  rw [hc.writes cls hcls m hmem hwrite] at hmem
  rw [List.mem_singleton.mp hmem] at hshape
  exact absurd hshape.2.2 (by decide)

theorem entry?_eq_some {cls : Class} {m : Method} (h : c.entry? = some (cls, m)) :
    cls ∈ c.classes ∧ m ∈ cls.methods ∧ m.header.parameters = [] := by
  obtain ⟨cls', hcls, hfound⟩ := List.exists_of_findSome?_eq_some h
  obtain ⟨m', hm, heq⟩ := Option.map_eq_some_iff.mp hfound
  cases heq
  have hentry := List.find?_some hm
  simp only [Method.isEntry, Bool.and_eq_true, List.isEmpty_iff] at hentry
  exact ⟨hcls, List.mem_of_find?_eq_some hm, hentry.2⟩

/-! ### Methods and constructors -/

/-- What a call may be served by. -/
def Serves (m : Method) (arguments targets : Nat) : Prop :=
  m.action = .write ∨
    (m.header.parameters.length = arguments ∧ (targets = 0 ∨ targets = m.header.returns.length))

theorem acceptsEach_error {params : List Decl} {values : List Cell} {f : Fault}
    (h : c.acceptsEach params values = .error f) :
    ∃ d ∈ params, ∃ v, c.accepts d.type v = .error f := by
  induction params generalizing values with
  | nil => cases values <;> cases h
  | cons d params ih =>
    cases values with
    | nil => cases h
    | cons v values =>
      cases haccepts : c.accepts d.type v with
      | error f' =>
        rw [acceptsEach, haccepts] at h
        cases h
        exact ⟨d, List.mem_cons_self, v, haccepts⟩
      | ok accepted =>
        rw [acceptsEach, haccepts] at h
        cases accepted with
        | false => cases h
        | true =>
          obtain ⟨d', hd', hv'⟩ := ih h
          exact ⟨d', List.mem_cons_of_mem _ hd', hv'⟩

theorem acceptsAll_error {params : List Decl} {values : List Cell} {f : Fault}
    (h : c.acceptsAll params values = .error f) : ∃ d ∈ params, ∃ v, c.accepts d.type v = .error f := by
  unfold acceptsAll at h
  split at h
  · exact acceptsEach_error h
  · cases h

theorem acceptsAll_true {params : List Decl} {values : List Cell}
    (h : c.acceptsAll params values = .ok true) : params.length = values.length := by
  unfold acceptsAll at h
  split at h
  · assumption
  · cases h

theorem serves_true {m : Method} {name : String} {values : List Cell} {targets : Nat}
    (h : c.serves m name values targets = .ok true) : m.header.name = name ∧ Serves m values.length targets := by
  unfold serves at h
  split at h
  · cases h
  · refine ⟨Decidable.of_not_not ‹_›, ?_⟩
    cases haction : m.action with
    | write => exact .inl haction
    | run locals body =>
      rw [haction] at h
      cases haccepts : c.acceptsAll m.header.parameters values with
      | error f =>
        rw [haccepts] at h
        cases h
      | ok accepted =>
        rw [haccepts] at h
        cases accepted with
        | false => cases h
        | true =>
          refine .inr ⟨acceptsAll_true haccepts, ?_⟩
          change Except.ok (decide (targets = 0 ∨ targets = m.header.returns.length)) = .ok true at h
          simpa using h

theorem serves_error {m : Method} {name : String} {values : List Cell} {targets : Nat} {f : Fault}
    (h : c.serves m name values targets = .error f) :
    ∃ d ∈ m.header.parameters, ∃ v, c.accepts d.type v = .error f := by
  unfold serves at h
  split at h
  · cases h
  · split at h
    · cases h
    · cases haccepts : c.acceptsAll m.header.parameters values with
      | error f' =>
        rw [haccepts] at h
        cases h
        exact acceptsAll_error haccepts
      | ok accepted =>
        rw [haccepts] at h
        cases accepted <;> cases h

/-- A method that is found is one of those looked at, has the name, and serves the call. -/
theorem findMethod_some {name : String} {values : List Cell} {targets : Nat} {sharedOnly : Bool}
    {methods : List Method} {m : Method}
    (h : c.findMethod name values targets sharedOnly methods = .ok (some m)) :
    m ∈ methods ∧ m.header.name = name ∧ Serves m values.length targets := by
  induction methods with
  | nil => cases h
  | cons first rest ih =>
    unfold findMethod at h
    split at h
    · exact ⟨List.mem_cons_of_mem _ (ih h).1, (ih h).2⟩
    · cases hserves : c.serves first name values targets with
      | error f =>
        rw [hserves] at h
        cases h
      | ok served =>
        rw [hserves] at h
        cases served with
        | false => exact ⟨List.mem_cons_of_mem _ (ih h).1, (ih h).2⟩
        | true =>
          cases h
          exact ⟨List.mem_cons_self, serves_true hserves⟩

theorem findMethod_error {name : String} {values : List Cell} {targets : Nat} {sharedOnly : Bool}
    {methods : List Method} {f : Fault}
    (h : c.findMethod name values targets sharedOnly methods = .error f) :
    ∃ m ∈ methods, ∃ d ∈ m.header.parameters, ∃ v, c.accepts d.type v = .error f := by
  induction methods with
  | nil => cases h
  | cons first rest ih =>
    have hlater : c.findMethod name values targets sharedOnly rest = .error f →
        ∃ m ∈ first :: rest, ∃ d ∈ m.header.parameters, ∃ v, c.accepts d.type v = .error f := by
      intro hrest
      obtain ⟨m, hm, hd⟩ := ih hrest
      exact ⟨m, List.mem_cons_of_mem _ hm, hd⟩
    unfold findMethod at h
    split at h
    · exact hlater h
    · cases hserves : c.serves first name values targets with
      | error f' =>
        rw [hserves] at h
        cases h
        exact ⟨first, List.mem_cons_self, serves_error hserves⟩
      | ok served =>
        rw [hserves] at h
        cases served with
        | false => exact hlater h
        | true => cases h

theorem findConstructor_some {values : List Cell} {constructors : List ConstructorDecl} {k : ConstructorDecl}
    (h : c.findConstructor values constructors = .ok (some k)) :
    k ∈ constructors ∧ k.parameters.length = values.length := by
  induction constructors with
  | nil => cases h
  | cons first rest ih =>
    cases haccepts : c.acceptsAll first.parameters values with
    | error f =>
      rw [findConstructor, haccepts] at h
      cases h
    | ok accepted =>
      rw [findConstructor, haccepts] at h
      cases accepted with
      | false => exact ⟨List.mem_cons_of_mem _ (ih h).1, (ih h).2⟩
      | true =>
        cases h
        exact ⟨List.mem_cons_self, acceptsAll_true haccepts⟩

theorem findConstructor_error {values : List Cell} {constructors : List ConstructorDecl} {f : Fault}
    (h : c.findConstructor values constructors = .error f) :
    ∃ k ∈ constructors, ∃ d ∈ k.parameters, ∃ v, c.accepts d.type v = .error f := by
  induction constructors with
  | nil => cases h
  | cons first rest ih =>
    cases haccepts : c.acceptsAll first.parameters values with
    | error f' =>
      rw [findConstructor, haccepts] at h
      cases h
      exact ⟨first, List.mem_cons_self, acceptsAll_error haccepts⟩
    | ok accepted =>
      rw [findConstructor, haccepts] at h
      cases accepted with
      | false =>
        obtain ⟨k, hk, hd⟩ := ih h
        exact ⟨k, List.mem_cons_of_mem _ hk, hd⟩
      | true => cases h

/-! ### Types -/

/-- Only an unknown type is refused. -/
theorem accepts_error {type : String} {v : Cell} {f : Fault} (h : c.accepts type v = .error f) :
    f = .noType type := by
  unfold accepts at h
  split at h
  case h_10 =>
    split at h
    · split at h <;> cases h
    · split at h
      · split at h <;> cases h
      · cases h
        rfl
  all_goals cases h

theorem initial_error {type : String} {f : Fault} (h : c.initial type = .error f) : f = .noType type := by
  unfold initial at h
  split at h
  case h_5 =>
    split at h
    · cases h
    · cases h
      rfl
  all_goals cases h

end Catalog

end Offside
