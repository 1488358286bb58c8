import Offside.Proofs.Machine.Sense

/-! What calls come to on a heap and in a scope that make sense.

Looking for a method or a constructor gives one of a class of the catalog that takes the arguments
there are; so calling it opens a scope that makes sense again, in which the method's returns are
variables. -/
namespace Offside.Exec

variable {c : Catalog} {m : Machine}

/-! ### Items of iterators -/

theorem Bindings.contains_eq_true {b : Bindings} {name : String} {s : Slot} (hb : b.get? name = some s) :
    b.contains name = true := by
  rw [Bindings.contains, hb]
  rfl

theorem rebind_run (name : String) (s : Slot) :
    (rebind name s).run m = (if m.frame.locals.contains name then setLocal name s
      else orStuck m.frame.object >>= fun object => setField object name s).run m := rfl

theorem rebind_local_run {name : String} {s : Slot} (hlocal : m.frame.locals.contains name = true) :
    (rebind name s).run m =
      .ok () { m with frame := { m.frame with locals := m.frame.locals.insert name s } } := by
  rw [rebind_run, if_pos hlocal]
  rfl

theorem rebind_field_run {name : String} {s object : Slot} {cls : Class} {fields : Bindings}
    (hnone : m.frame.locals.get? name = none) (hobject : m.frame.object = some object)
    (hcell : m.heap.cell? object = some (.object cls fields)) :
    (rebind name s).run m =
      .ok () { m with heap := m.heap.write object (.object cls (fields.insert name s)) } := by
  have hcontains : ¬ m.frame.locals.contains name = true := by
    rw [Bindings.contains, hnone]
    exact Bool.false_ne_true
  rw [rebind_run, if_neg hcontains, hobject]
  exact setField_run hcell

/-- A variable that there is can be given a slot of its own with a copy of a value. -/
theorem rebind_copy {name : String} {target item : Nat} (hc : c.Regular) (hm : m.Based c)
    (hitem : item < m.heap.size) (hfinds : m.Finds name target) :
    ∃ m', (copy item >>= rebind name).run m = .ok () m' ∧ m.Stays c (m.FindsField name target) m' := by
  obtain ⟨v, hv⟩ := Option.isSome_iff_exists.mp (hm.heap.owned.value?_isSome hitem)
  have hcopy : (copy item).run m = .ok (m.heap.store v).1 { m with heap := (m.heap.store v).2 } := by
    show (orStuck (m.heap.value? item) >>= fun v => onHeap (·.store v)).run m = _
    rw [hv]
    rfl
  have hstored := Heap.store_extends m.heap v
  rw [run_bind, hcopy]
  rcases hfinds with hlocal | ⟨hnone, object, fields, hobject, hcell, hget⟩
  · refine ⟨_, rebind_local_run (Bindings.contains_eq_true hlocal), ?_⟩
    have hch : m.heap.Changes c (m.FindsField name target) (m.heap.store v).2 := .single (.copy hv)
    have hcopied := Machine.Stays.of_changes hc hm hch
    exact hcopied.trans (.of_local _ hcopied.based name (hstored.range (List.mem_singleton_self _)).2)
  · have hcell' : (m.heap.store v).2.cell? object = some (.object m.frame.cls fields) := by
      rw [hstored.keeps (Heap.lt_size_of_cell? hcell), hcell]
    refine ⟨_, rebind_field_run hnone hobject hcell', ?_⟩
    have hfield : m.FindsField name target := ⟨hnone, object, fields, hobject, hcell, hget⟩
    exact .of_changes hc hm (.single (.rebind name hfield hcell hv))

/-- A loop gives its variable another slot only if it is a field that holds the iterator. -/
theorem storeItem_meets (hc : c.Regular) {name : String} {iterator item : Nat} (hm : m.Based c)
    (hitem : item < m.heap.size) :
    Meets c (storeItem name iterator item) m fun _ m' => m.Stays c (m.FindsField name iterator) m' := by
  refine (lookup_meets hm name).bind fun target m' htarget => ?_
  obtain ⟨rfl, hlt, hfinds⟩ := htarget
  by_cases hsame : target = iterator
  · rw [if_pos hsame]
    subst hsame
    obtain ⟨m'', hrun, hstays⟩ := rebind_copy hc hm hitem hfinds
    exact Meets.of_ok hrun hstays
  · rw [if_neg hsame]
    exact (assign_meets _ hc hm hlt hitem).imp fun _ m'' hm'' => hm''.1

/-! ### Looking for methods and constructors -/

theorem resolve_meets {cls : Class} {name : String} {values : List Cell} {targets : Nat}
    {sharedOnly : Bool} (hcls : cls ∈ c.classes ∨ cls.methods = []) :
    Meets c (resolve c cls name values targets sharedOnly) m fun found m' => m.Logs m' ∧
      ∀ method, found = some method →
        cls ∈ c.classes ∧ method ∈ cls.methods ∧ method.header.name = name ∧
          Catalog.Serves method values.length targets := by
  have hproper : ∀ f, c.findMethod name values targets sharedOnly cls.methods = .error f → f.Proper c := by
    intro f hf
    obtain ⟨method, hmethod, d, hd, v, hv⟩ := Catalog.findMethod_error hf
    have hknown : cls ∈ c.classes := by
      refine hcls.resolve_right fun hnone => ?_
      rw [hnone] at hmethod
      cases hmethod
    rw [Catalog.accepts_error hv]
    refine ⟨cls, hknown, .inl ⟨d, ?_, rfl, v, f, hv⟩⟩
    exact List.mem_append_right _ (List.mem_flatMap.mpr ⟨method, hmethod, hd⟩)
  refine (orFault_meets hproper).bind fun found m' hfound => ?_
  obtain ⟨rfl, hfound⟩ := hfound
  cases found with
  | none => exact pure_meets ⟨⟨_, rfl⟩, nofun⟩
  | some method =>
    refine (note_meets _ _).bind fun _ m'' hm'' => pure_meets ⟨hm'', fun method' heq => ?_⟩
    cases heq
    obtain ⟨hmethod, hname, hserves⟩ := Catalog.findMethod_some hfound
    refine ⟨hcls.resolve_right fun hnone => ?_, hmethod, hname, hserves⟩
    rw [hnone] at hmethod
    cases hmethod

/-- The method is one of a class of the catalog, its object is one of that class, and it serves a call
of the name with so many arguments for so many targets. -/
structure Served (c : Catalog) (h : Heap) (name : String) (arguments targets : Nat) (t : Callee) : Prop where
  cls : t.cls ∈ c.classes
  method : t.method ∈ t.cls.methods
  name : t.method.header.name = name
  object : ∀ s, t.object = some s → h.form? s = some (.object t.cls)
  serves : Catalog.Serves t.method arguments targets

theorem calleeOwn_meets {name : String} {targets : Nat} {slots : List Slot} (hm : m.Based c)
    (hs : ∀ s ∈ slots, s < m.heap.size) :
    Meets c (calleeOwn c name targets slots) m fun t m' =>
      m.Logs m' ∧ Served c m.heap name slots.length targets t := by
  refine Meets.bind_ok rfl ((cells_meets hs).bind fun values m' hvalues => ?_)
  obtain ⟨rfl, hlength⟩ := hvalues
  refine (resolve_meets hm.frame.cls).bind fun found m'' hfound => ?_
  cases found with
  | none => exact fault_meets trivial
  | some method =>
    obtain ⟨hcls, hmethod, hname, hserves⟩ := hfound.2 method rfl
    rw [hlength] at hserves
    exact pure_meets ⟨hfound.1, hcls, hmethod, hname, hm.frame.object, hserves⟩

theorem calleeVariable_meets {object name : String} {targets : Nat} {slots : List Slot} (hm : m.Based c)
    (hs : ∀ s ∈ slots, s < m.heap.size) :
    Meets c (calleeVariable c object name targets slots) m fun t m' =>
      m.Logs m' ∧ Served c m.heap name slots.length targets t := by
  refine (cells_meets hs).bind fun values m' hvalues => ?_
  obtain ⟨rfl, hlength⟩ := hvalues
  refine (find?_meets hm object).bind fun found m'' hfound => ?_
  obtain ⟨rfl, hfound⟩ := hfound
  cases found with
  | none => exact fault_meets trivial
  | some s =>
    refine (cell_meets (hfound s rfl).1).bind fun v m₁ hv => ?_
    obtain ⟨rfl, hv⟩ := hv
    cases v with
    | object cls fields =>
      have hform := Heap.form?_object.mpr ⟨fields, hv⟩
      refine (resolve_meets (.inl (hm.heap.cls_mem hform))).bind fun found m₂ hfound => ?_
      cases found with
      | none => exact fault_meets trivial
      | some method =>
        obtain ⟨hcls, hmethod, hname, hserves⟩ := hfound.2 method rfl
        rw [hlength] at hserves
        refine pure_meets ⟨hfound.1, hcls, hmethod, hname, fun t ht => ?_, hserves⟩
        cases ht
        exact hform
    | _ => exact fault_meets trivial

/-- The method that a call reaches serves it. -/
theorem callee_meets {object : Option String} {name : String} {targets : Nat} {slots : List Slot}
    (hm : m.Based c) (hs : ∀ s ∈ slots, s < m.heap.size) :
    Meets c (callee c object name targets slots) m fun t m' =>
      m.Logs m' ∧ Served c m.heap name slots.length targets t := by
  cases object with
  | none => exact calleeOwn_meets hm hs
  | some object =>
    show Meets c (calleeOn c object name targets slots) m _
    unfold calleeOn
    cases hclass : c.class? object with
    | none => exact calleeVariable_meets hm hs
    | some cls =>
      refine (cells_meets hs).bind fun values m' hvalues => ?_
      obtain ⟨rfl, hlength⟩ := hvalues
      refine (resolve_meets (.inl (Catalog.class?_eq_some hclass).1)).bind fun found m'' hfound => ?_
      obtain ⟨⟨log, rfl⟩, hfound⟩ := hfound
      cases found with
      | none =>
        have hlogged : ({ m' with log := log } : Machine).Based c := ⟨hm.heap, hm.frame⟩
        refine (calleeVariable_meets hlogged hs).imp fun t m₁ ht => ⟨?_, ht.2⟩
        exact Machine.Logs.trans ⟨log, rfl⟩ ht.1
      | some method =>
        obtain ⟨hcls, hmethod, hname, hserves⟩ := hfound method rfl
        rw [hlength] at hserves
        exact pure_meets ⟨⟨log, rfl⟩, hcls, hmethod, hname, nofun, hserves⟩

/-- A constructor takes the arguments there are; without one there are none. -/
theorem maker_meets {cls : Class} {slots : List Slot} (hcls : cls ∈ c.classes)
    (hs : ∀ s ∈ slots, s < m.heap.size) :
    Meets c (maker c cls slots) m fun k m' => m' = m ∧ (k = none → slots = []) ∧
      ∀ k', k = some k' → k' ∈ cls.constructors ∧ k'.parameters.length = slots.length := by
  refine (cells_meets hs).bind fun values m' hvalues => ?_
  obtain ⟨rfl, hlength⟩ := hvalues
  by_cases hnone : cls.constructors.isEmpty = true
  · rw [if_pos hnone]
    by_cases hslots : slots.isEmpty = true
    · rw [if_pos hslots]
      exact pure_meets ⟨rfl, fun _ => List.isEmpty_iff.mp hslots, nofun⟩
    · rw [if_neg hslots]
      exact fault_meets trivial
  · rw [if_neg hnone]
    have hproper : ∀ f, c.findConstructor values cls.constructors = .error f → f.Proper c := by
      intro f hf
      obtain ⟨k, hk, d, hd, v, hv⟩ := Catalog.findConstructor_error hf
      rw [Catalog.accepts_error hv]
      refine ⟨cls, hcls, .inl ⟨d, ?_, rfl, v, f, hv⟩⟩
      exact List.mem_append_left _ (List.mem_flatMap.mpr ⟨k, hk, hd⟩)
    refine (orFault_meets hproper).bind fun found m'' hfound => ?_
    obtain ⟨rfl, hfound⟩ := hfound
    cases found with
    | none => exact fault_meets trivial
    | some k =>
      refine pure_meets ⟨rfl, nofun, fun k' heq => ?_⟩
      cases heq
      rw [← hlength]
      exact Catalog.findConstructor_some hfound

/-! ### Calling -/

/-- A method was called: it has written already, or its body is what the machine has to do. -/
inductive Called (method : Method) (m m' : Machine) : Prop
  | wrote : method.action = .write → m'.frame = m.frame → m'.stack = m.stack → m'.task = .values [] →
      Called method m m'
  | entered {locals : List Decl} {body : List Stmt} : method.action = .run locals body →
      m'.stack = .leave method.header.returns m.frame m.here :: m.stack → m'.task = .run body →
      (∀ d ∈ method.header.returns, m'.frame.locals.contains d.name = true) → Called method m m'

theorem declared_variables {cls : Class} {method : Method} {decls : List Decl} (hcls : cls ∈ c.classes)
    (hmethod : method ∈ cls.methods) (hsub : decls ⊆ method.variables) : Declared c decls := by
  refine ⟨cls, hcls, fun d hd => ?_⟩
  exact List.mem_append_right _ (List.mem_flatMap.mpr ⟨method, hmethod, hsub hd⟩)

theorem invoke_meets (free : Prop) (hc : c.Regular) {cls : Class} {object : Option Slot} {method : Method}
    {slots : List Slot} (hm : m.Based c) (hcls : cls ∈ c.classes) (hmethod : method ∈ cls.methods)
    (hobject : ∀ s, object = some s → m.heap.form? s = some (.object cls))
    (hlength : method.action = .write ∨ method.header.parameters.length = slots.length)
    (hs : ∀ s ∈ slots, s < m.heap.size) :
    Meets c (invoke c cls object method slots) m fun _ m' =>
      m'.Based c ∧ m.heap.Changes c free m'.heap ∧ Called method m m' := by
  unfold invoke
  cases haction : method.action with
  | write =>
    refine (valuesOf_meets hm.heap hs).bind fun values m' hm' => ?_
    subst hm'
    exact Meets.of_ok rfl ⟨⟨hm.heap, hm.frame⟩, .refl, .wrote haction rfl rfl rfl⟩
  | run locals body =>
    have hvariables : method.variables = locals ++ method.header.returns := by
      unfold Method.variables
      rw [haction]
    refine (note_meets _ _).bind fun _ m₁ hm₁ => ?_
    obtain ⟨log, rfl⟩ := hm₁
    refine Meets.bind_ok rfl (Meets.bind_ok rfl (Meets.bind_ok rfl (Meets.bind_ok rfl ?_)))
    have hbased : ({ m with
        log, stack := .leave method.header.returns m.frame m.here :: m.stack,
        frame := ⟨.empty, object, cls⟩ } : Machine).Based c :=
      ⟨hm.heap, nofun, hobject, .inl hcls⟩
    have hparams : method.header.parameters.length = slots.length :=
      hlength.resolve_left (by rw [haction]; exact nofun)
    refine (bindAll_meets free hbased hparams hs).bind fun _ m₂ hm₂ => ?_
    have hlocals : Declared c locals := declared_variables hcls hmethod
      (hvariables ▸ List.subset_append_left _ _)
    refine (declare_meets free hc hlocals hm₂.1.based).bind fun _ m₃ hm₃ => ?_
    have hreturns : Declared c method.header.returns := declared_variables hcls hmethod
      (hvariables ▸ List.subset_append_right _ _)
    -- The returns are declared last: whatever shares a name with one, it is there from then on.
    refine (declare_meets free hc hreturns hm₃.1.based).bind fun _ m₄ hm₄ => ?_
    have hstays := (hm₂.1.trans hm₃.1).trans hm₄.1
    exact Meets.of_ok rfl ⟨⟨hstays.based.heap, hstays.based.frame⟩, hstays.changes,
      .entered haction hstays.stack rfl hm₄.2⟩

/-- An object was made: what its constructor does with it is what the machine has to do. -/
structure Made (cls : Class) (k : Option ConstructorDecl) (m m' : Machine) : Prop where
  stack : ∃ object, m'.stack = .built object m.frame m.here :: m.stack ∧
    m'.heap.form? object = some (.object cls)
  task : m'.task = .run (k.elim [] ConstructorDecl.body)

/-- The machine in the scope of a new object, which has no fields yet. -/
def opened (m : Machine) (cls : Class) (log : List LogEntry) : Machine :=
  { m with
    heap := (m.heap.alloc (.object cls .empty)).2, log
    stack := .built m.heap.size m.frame m.here :: m.stack
    frame := ⟨.empty, some m.heap.size, cls⟩ }

theorem opened_based (hc : c.Regular) {cls : Class} (hm : m.Based c) (hcls : cls ∈ c.classes)
    (log : List LogEntry) : (opened m cls log).Based c := by
  have hblank : c.Blank (.object cls .empty) := by
    refine ⟨rfl, fun cls' hform => ?_⟩
    cases hform
    exact hcls
  have hch : m.heap.Changes c False (m.heap.alloc (.object cls .empty)).2 := .single (.alloc hblank)
  refine ⟨hm.heap.changes hc hch, nofun, fun s hs => ?_, .inl hcls⟩
  cases hs
  exact Heap.form?_alloc _

/-- A new object gets its fields while there is nothing else new on the heap. -/
theorem populate_opened (free : Prop) (hc : c.Regular) {cls : Class} {log : List LogEntry} {m' : Machine}
    (hm : m.Based c) (hcls : cls ∈ c.classes) (hm' : (opened m cls log).Stays c free m')
    (hheap : m'.heap = (opened m cls log).heap) :
    Meets c (populate c m.heap.size cls.fields) m' fun _ m'' =>
      m''.Based c ∧ m.heap.Changes c free m''.heap ∧
        m''.stack = .built m.heap.size m.frame m.here :: m.stack ∧
        m''.heap.form? m.heap.size = some (.object cls) := by
  have hmembers : Declared c cls.fields :=
    ⟨cls, hcls, fun d hd => List.mem_append_left _ (List.mem_append_left _ hd)⟩
  have hobject : m'.heap.cell? m.heap.size = some (.object cls .empty) := by
    rw [hheap]
    exact (Heap.cell?_alloc _ _).trans (if_pos rfl)
  refine (populate_meets hmembers hobject).imp fun _ m'' hm'' => ?_
  obtain ⟨h, hfills, rfl⟩ := hm''
  have hkeeps := hfills.edits.keepsForms
  rw [hheap] at hfills
  have hch : m.heap.Changes c free h := .single (.create hcls hfills)
  exact ⟨⟨hm.heap.changes hc hch, hm'.based.frame.mono hkeeps⟩, hch, hm'.stack,
    hkeeps _ _ (Heap.form?_object.mpr ⟨_, hobject⟩)⟩

theorem construct_meets (free : Prop) (hc : c.Regular) {cls : Class} {k : Option ConstructorDecl}
    {slots : List Slot} (hm : m.Based c) (hcls : cls ∈ c.classes) (hnone : k = none → slots = [])
    (hsome : ∀ k', k = some k' → k' ∈ cls.constructors ∧ k'.parameters.length = slots.length)
    (hs : ∀ s ∈ slots, s < m.heap.size) :
    Meets c (construct c cls k slots) m fun _ m' =>
      m'.Based c ∧ m.heap.Changes c free m'.heap ∧ Made cls k m m' := by
  refine Meets.bind_ok rfl ((note_meets _ _).bind fun _ m₁ hm₁ => ?_)
  obtain ⟨log, rfl⟩ := hm₁
  refine Meets.bind_ok rfl (Meets.bind_ok rfl (Meets.bind_ok rfl (Meets.bind_ok rfl ?_)))
  show Meets c _ (opened m cls log) _
  have hbased := opened_based hc hm hcls log
  have hslots : ∀ s ∈ slots, s < (opened m cls log).heap.size :=
    fun s hmem => (Heap.alloc_keeps _).lt (hs s hmem)
  cases k with
  | none =>
    refine (bindAll_meets free hbased (by rw [hnone rfl]; rfl) hslots).bind fun _ m₂ hm₂ => ?_
    refine (populate_opened free hc hm hcls hm₂.1 hm₂.2).bind fun _ m₃ hm₃ => ?_
    obtain ⟨hbased₃, hch, hstack, hform⟩ := hm₃
    exact Meets.of_ok rfl ⟨⟨hbased₃.heap, hbased₃.frame⟩, hch, ⟨_, hstack, hform⟩, rfl⟩
  | some k =>
    obtain ⟨hk, hparams⟩ := hsome k rfl
    refine (bindAll_meets free hbased hparams hslots).bind fun _ m₂ hm₂ => ?_
    refine (populate_opened free hc hm hcls hm₂.1 hm₂.2).bind fun _ m₃ hm₃ => ?_
    obtain ⟨hbased₃, hch, hstack, hform⟩ := hm₃
    have hlocals : Declared c k.locals := by
      refine ⟨cls, hcls, fun d hd => List.mem_append_left _ (List.mem_append_right _ ?_)⟩
      exact List.mem_flatMap.mpr ⟨k, hk, hd⟩
    refine (declare_meets free hc hlocals hbased₃).bind fun _ m₄ hm₄ => ?_
    refine Meets.of_ok rfl ⟨⟨hm₄.1.based.heap, hm₄.1.based.frame⟩, hch.trans hm₄.1.changes,
      ⟨_, hm₄.1.stack.trans hstack, ?_⟩, rfl⟩
    exact hm₄.1.changes.keepsForms _ _ hform

end Offside.Exec
