import Offside.Proofs.Machine.Safety
import Offside.Proofs.Program.References

/-! A class that nothing refers to makes no difference to a run.

All code that a machine has to run is code of the program's classes, so the names that it looks up are
names that the program refers to. Hence the machine takes the same steps with two catalogs that differ
in another name only. `Alike` says that two actions come to the same from a machine, and what it is
like afterwards. -/
namespace Offside

/-! ### The code of a machine -/

def Loop.references (loop : Loop) : List String :=
  loop.source.references ++ Stmt.referencesEach loop.body

def Goal.references : Goal → List String
  | .call object _ _ => object.toList
  | .create _ => []

def Task.references : Task → List String
  | .run body => Stmt.referencesEach body
  | .eval e => e.references
  | _ => []

/-- The names that code which is still to be run refers to. What is there for messages only does not
count. -/
def Pending.references : Pending → List String
  | .rest body => Stmt.referencesEach body
  | .left _ _ operand => operand.references
  | .argument _ after goal => goal.references ++ Expr.referencesEach after
  | .choose _ yes no => Stmt.referencesEach yes ++ Stmt.referencesElse no
  | .test condition body _ | .again condition body _ =>
    condition.references ++ Stmt.referencesEach body
  | .source loop _ | .record loop _ | .recordAgain loop _ => loop.references
  | .item loop _ _ _ | .itemAgain loop _ _ _ => loop.references
  | _ => []

/-- No code that the machine has to run refers to the name. -/
structure Machine.Avoids (name : String) (m : Machine) : Prop where
  task : name ∉ m.task.references
  stack : ∀ p ∈ m.stack, name ∉ p.references

namespace Exec
variable {α β : Type} {name : String} {c c' : Catalog} {m : Machine}

/-! ### Actions that come to the same -/

/-- The actions come to the same from this machine; if they go on, it is like this afterwards. -/
structure Alike (x y : Exec α) (m : Machine) (post : α → Machine → Prop) : Prop where
  same : y.run m = x.run m
  ends : ∀ a m', x.run m = .ok a m' → post a m'

theorem Meets.alike {x y : Exec α} {post : α → Machine → Prop} (hx : Meets c x m post)
    (hsame : y.run m = x.run m) : Alike x y m post := by
  refine ⟨hsame, fun a m' hrun => ?_⟩
  rw [Meets, hrun] at hx
  exact hx

theorem Alike.of_ok {x : Exec α} {post : α → Machine → Prop} {a : α} {m' : Machine}
    (hx : x.run m = .ok a m') (hpost : post a m') : Alike x x m post := by
  refine ⟨rfl, fun b m'' hrun => ?_⟩
  rw [hx] at hrun
  cases hrun
  exact hpost

theorem Alike.refl {x : Exec α} : Alike x x m fun _ _ => True := ⟨rfl, fun _ _ _ => trivial⟩

theorem fault_alike {post : α → Machine → Prop} (f : Fault) : Alike (fault f : Exec α) (fault f) m post :=
  ⟨rfl, nofun⟩

theorem Alike.bind {x y : Exec α} {f g : α → Exec β} {mid : α → Machine → Prop}
    {post : β → Machine → Prop} (hx : Alike x y m mid)
    (hf : ∀ a m', mid a m' → Alike (f a) (g a) m' post) : Alike (x >>= f) (y >>= g) m post := by
  refine ⟨?_, fun b m'' hrun => ?_⟩
  · rw [run_bind, run_bind, hx.same]
    cases hrun : x.run m with
    | ok a m' => exact (hf a m' (hx.ends a m' hrun)).same
    | error h m' => rfl
  · obtain ⟨a, m', ha, hb⟩ := bind_run_eq_ok.mp hrun
    exact (hf a m' (hx.ends a m' ha)).ends b m'' hb

theorem Alike.bind_ok {x : Exec α} {f g : α → Exec β} {post : β → Machine → Prop} {a : α} {m' : Machine}
    (hx : x.run m = .ok a m') (hf : Alike (f a) (g a) m' post) : Alike (x >>= f) (x >>= g) m post := by
  refine ⟨?_, fun b m'' hrun => ?_⟩
  · rw [run_bind, run_bind, hx]
    exact hf.same
  · rw [run_bind, hx] at hrun
    exact hf.ends b m'' hrun

/-! ### Scopes -/

theorem declare_alike (ha : c.AlikeBut name c') {decls : List Decl} (hdecls : ∀ d ∈ decls, d.type ≠ name) :
    declare c' decls = declare c decls := by
  induction decls with
  | nil => rfl
  | cons d rest ih =>
    obtain ⟨hd, hrest⟩ := List.forall_mem_cons.mp hdecls
    rw [declare, declare, fresh, fresh, Catalog.initial_alike ha hd, ih hrest]

theorem populate_alike (ha : c.AlikeBut name c') {object : Slot} {decls : List Decl}
    (hdecls : ∀ d ∈ decls, d.type ≠ name) : populate c' object decls = populate c object decls := by
  induction decls with
  | nil => rfl
  | cons d rest ih =>
    obtain ⟨hd, hrest⟩ := List.forall_mem_cons.mp hdecls
    rw [populate, populate, fresh, fresh, Catalog.initial_alike ha hd, ih hrest]

theorem invoke_alike (ha : c.AlikeBut name c') {cls : Class} {method : Method} (hcls : cls ∈ c.classes)
    (hmethod : method ∈ cls.methods) (object : Option Slot) (slots : List Slot) :
    invoke c' cls object method slots = invoke c cls object method slots := by
  have hvariables : ∀ d ∈ method.variables, d.type ≠ name := by
    intro d hd
    refine Class.type_ne (ha.unused cls hcls) (List.mem_append_right _ (List.mem_append_right _ ?_))
    exact List.mem_flatMap.mpr ⟨method, hmethod, hd⟩
  unfold invoke
  cases haction : method.action with
  | write => rfl
  | run locals body =>
    rw [Method.variables, haction] at hvariables
    dsimp only
    rw [declare_alike ha fun d hd => hvariables d (List.mem_append_left _ hd),
      declare_alike ha fun d hd => hvariables d (List.mem_append_right _ hd)]

theorem construct_alike (ha : c.AlikeBut name c') {cls : Class} {k : Option ConstructorDecl}
    (hcls : cls ∈ c.classes) (hk : ∀ k', k = some k' → k' ∈ cls.constructors) (slots : List Slot) :
    construct c' cls k slots = construct c cls k slots := by
  have hvariables : ∀ d ∈ cls.variables, d.type ≠ name :=
    fun d hd => Class.type_ne (ha.unused cls hcls) (List.mem_append_right _ hd)
  have hpopulate : ∀ object, populate c' object cls.fields = populate c object cls.fields :=
    fun object => populate_alike ha fun d hd =>
      hvariables d (List.mem_append_left _ (List.mem_append_left _ hd))
  unfold construct
  cases k with
  | none => simp only [hpopulate]
  | some k =>
    have hlocals : declare c' k.locals = declare c k.locals := by
      refine declare_alike ha fun d hd => hvariables d ?_
      exact List.mem_append_left _ (List.mem_append_right _ (List.mem_flatMap.mpr ⟨k, hk k rfl, hd⟩))
    simp only [hpopulate, hlocals]

/-! ### Looking for methods and constructors -/

theorem resolve_alike (ha : c.AlikeBut name c') {cls : Class} (hcls : cls ∈ c.classes ∨ cls.methods = [])
    (called : String) (values : List Cell) (targets : Nat) (sharedOnly : Bool) :
    resolve c' cls called values targets sharedOnly = resolve c cls called values targets sharedOnly := by
  have hfind : c'.findMethod called values targets sharedOnly cls.methods =
      c.findMethod called values targets sharedOnly cls.methods := by
    refine Catalog.findMethod_alike ha (fun method hmethod d hd => ?_) ..
    rcases hcls with hcls | hnone
    · refine Class.type_ne (ha.unused cls hcls) (List.mem_append_left _ (List.mem_append_right _ ?_))
      exact List.mem_flatMap.mpr ⟨method, hmethod, hd⟩
    · rw [hnone] at hmethod
      cases hmethod
  rw [resolve, resolve, hfind]

theorem calleeOwn_alike (ha : c.AlikeBut name c') {called : String} {targets : Nat} {slots : List Slot}
    (hm : m.Based c) (hs : ∀ s ∈ slots, s < m.heap.size) :
    Alike (calleeOwn c called targets slots) (calleeOwn c' called targets slots) m fun _ _ => True := by
  refine Alike.bind_ok rfl (((cells_meets (c := c) hs).alike rfl).bind fun values m' hvalues => ?_)
  obtain ⟨rfl, -⟩ := hvalues
  rw [resolve_alike ha hm.frame.cls]
  exact .refl

theorem calleeVariable_alike (ha : c.AlikeBut name c') {object called : String} {targets : Nat}
    {slots : List Slot} (hm : m.Based c) (hs : ∀ s ∈ slots, s < m.heap.size) :
    Alike (calleeVariable c object called targets slots) (calleeVariable c' object called targets slots) m
      fun _ _ => True := by
  refine ((cells_meets (c := c) hs).alike rfl).bind fun values m' hvalues => ?_
  obtain ⟨rfl, -⟩ := hvalues
  refine ((find?_meets hm object).alike rfl).bind fun found m'' hfound => ?_
  obtain ⟨rfl, hfound⟩ := hfound
  cases found with
  | none => exact .refl
  | some s =>
    refine ((cell_meets (c := c) (hfound s rfl).1).alike rfl).bind fun v m₁ hv => ?_
    obtain ⟨rfl, hv⟩ := hv
    cases v with
    | object cls fields =>
      dsimp only
      rw [resolve_alike ha (.inl (hm.heap.cls_mem (Heap.form?_object.mpr ⟨fields, hv⟩)))]
      exact .refl
    | _ => exact .refl

/-- A call whose qualifier is another name reaches the same method. -/
theorem callee_alike (ha : c.AlikeBut name c') {object : Option String} {called : String} {targets : Nat}
    {slots : List Slot} (hm : m.Based c) (hobject : name ∉ object.toList)
    (hs : ∀ s ∈ slots, s < m.heap.size) :
    Alike (callee c object called targets slots) (callee c' object called targets slots) m fun t m' =>
      m.Logs m' ∧ Served c m.heap called slots.length targets t := by
  refine (callee_meets hm hs).alike ?_
  cases object with
  | none => exact (calleeOwn_alike ha hm hs).same
  | some object =>
    have hclass : c'.class? object = c.class? object :=
      ha.class? object fun heq => hobject (heq ▸ List.mem_singleton_self _)
    show (calleeOn c' object called targets slots).run m = (calleeOn c object called targets slots).run m
    unfold calleeOn
    rw [hclass]
    cases hfound : c.class? object with
    | none => exact (calleeVariable_alike ha hm hs).same
    | some cls =>
      have hcls := (Catalog.class?_eq_some hfound).1
      have hcells := (cells_meets (c := c) hs).alike rfl
      refine Alike.same (hcells.bind fun values m' hvalues => ?_ : Alike _ _ m fun _ _ => True)
      obtain ⟨rfl, -⟩ := hvalues
      rw [resolve_alike ha (.inl hcls)]
      refine ((resolve_meets (.inl hcls)).alike rfl).bind fun found m'' hfound => ?_
      obtain ⟨⟨log, rfl⟩, -⟩ := hfound
      cases found with
      | none => exact calleeVariable_alike ha ⟨hm.heap, hm.frame⟩ hs
      | some method => exact .refl

theorem maker_alike (ha : c.AlikeBut name c') {cls : Class} (hcls : cls ∈ c.classes) (slots : List Slot) :
    maker c' cls slots = maker c cls slots := by
  have hfind : ∀ values, c'.findConstructor values cls.constructors =
      c.findConstructor values cls.constructors := by
    refine Catalog.findConstructor_alike ha fun k hk d hd => ?_
    refine Class.type_ne (ha.unused cls hcls) (List.mem_append_left _ (List.mem_append_left _ ?_))
    exact List.mem_flatMap.mpr ⟨k, hk, hd⟩
  unfold maker
  simp only [hfind]

/-! ### Calls -/

theorem Called.avoids {method : Method} {m' : Machine} (hcalled : Called method m m')
    (hm : ∀ p ∈ m.stack, name ∉ p.references) (hmethod : name ∉ Stmt.referencesEach method.body) :
    m'.Avoids name := by
  cases hcalled with
  | wrote haction hframe hstack htask =>
    refine ⟨?_, ?_⟩
    · rw [htask]
      exact List.not_mem_nil
    · rw [hstack]
      exact hm
  | entered haction hstack htask hreturns =>
    rw [Method.body, haction] at hmethod
    refine ⟨?_, ?_⟩
    · rw [htask]
      exact hmethod
    · rw [hstack]
      exact List.forall_mem_cons.mpr ⟨List.not_mem_nil, hm⟩

theorem reach_alike (hc : c.Regular) (ha : c.AlikeBut name c') {goal : Goal} {slots : List Slot}
    (hm : m.Based c) (hs : ∀ s ∈ slots, s < m.heap.size) (hgoal : goal.Fits c m.stack)
    (hnames : name ∉ goal.references) (hstack : ∀ p ∈ m.stack, name ∉ p.references) :
    Alike (reach c slots goal) (reach c' slots goal) m fun _ m' => m'.Avoids name := by
  cases goal with
  | call object called targets =>
    rw [reach_call_eq, reach_call_eq]
    refine (callee_alike ha hm hnames hs).bind fun t m₁ ht => ?_
    obtain ⟨⟨log, rfl⟩, hserved⟩ := ht
    unfold invokeCallee
    rw [invoke_alike ha hserved.cls hserved.method]
    have hlength : t.method.action = .write ∨ t.method.header.parameters.length = slots.length :=
      hserved.serves.imp_right And.left
    have hlogged : ({ m with log } : Machine).Based c := ⟨hm.heap, hm.frame⟩
    refine ((invoke_meets True hc hlogged hserved.cls hserved.method hserved.object hlength hs).imp
      fun _ m' hm' => ?_).alike rfl
    exact hm'.2.2.avoids hstack (Class.method_not_mem (ha.unused _ hserved.cls) hserved.method)
  | create cls =>
    have hcls := hgoal.cls cls rfl
    rw [reach_create_eq, reach_create_eq, maker_alike ha hcls]
    refine ((maker_meets hcls hs).alike rfl).bind fun k m₁ hmaker => ?_
    obtain ⟨rfl, hnone, hsome⟩ := hmaker
    rw [construct_alike ha hcls fun k' hk' => (hsome k' hk').1]
    refine ((construct_meets True hc hm hcls hnone hsome hs).imp fun _ m' hm' => ?_).alike rfl
    obtain ⟨-, -, ⟨object, hstack', -⟩, htask⟩ := hm'
    refine ⟨?_, ?_⟩
    · rw [htask]
      cases k with
      | none => exact List.not_mem_nil
      | some k => exact Class.constructor_not_mem (ha.unused cls hcls) (hsome k rfl).1
    · rw [hstack']
      exact List.forall_mem_cons.mpr ⟨List.not_mem_nil, hstack⟩

theorem supply_alike (hc : c.Regular) (ha : c.AlikeBut name c') {goal : Goal} {before : List Slot}
    {after : List Expr} (hm : m.Based c) (hs : ∀ s ∈ before, s < m.heap.size)
    (hgoal : goal.Fits c m.stack) (hnames : name ∉ goal.references)
    (hafter : name ∉ Expr.referencesEach after) (hstack : ∀ p ∈ m.stack, name ∉ p.references) :
    Alike (supply c before goal after) (supply c' before goal after) m fun _ m' => m'.Avoids name := by
  cases after with
  | nil => exact reach_alike hc ha hm (fun s hmem => hs s (List.mem_reverse.mp hmem)) hgoal hnames hstack
  | cons e after =>
    obtain ⟨he, hafter⟩ := not_or.mp (mt List.mem_append.mpr hafter)
    refine Alike.of_ok rfl ⟨he, List.forall_mem_cons.mpr ⟨fun hmem => ?_, hstack⟩⟩
    exact (List.mem_append.mp hmem).elim hnames hafter

/-! ### Loops over iterators -/

theorem askNext_alike (hc : c.Regular) (ha : c.AlikeBut name c') {loop : Loop} {iterator : Slot}
    {cls : Class} {getNext : Method} (hm : m.Based c) (hi : Iterates c m.heap iterator cls getNext)
    (hloop : name ∉ loop.references) (hstack : ∀ p ∈ m.stack, name ∉ p.references) :
    Alike (askNext c loop iterator cls getNext) (askNext c' loop iterator cls getNext) m
      fun _ m' => m'.Avoids name := by
  have hcls := hm.heap.cls_mem hi.object
  unfold askNext
  rw [invoke_alike ha hcls hi.method]
  have hpushed : ({ m with stack := .item loop iterator cls getNext :: m.stack } : Machine).Based c :=
    ⟨hm.heap, hm.frame⟩
  refine Alike.bind_ok rfl (((invoke_meets True hc hpushed hcls hi.method ?_
    (.inr (by rw [hi.parameters]; rfl)) (List.forall_mem_nil _)).imp fun _ m' hm' => ?_).alike rfl)
  · intro s hs
    cases hs
    exact hi.object
  · exact hm'.2.2.avoids (List.forall_mem_cons.mpr ⟨hloop, hstack⟩)
      (Class.method_not_mem (ha.unused cls hcls) hi.method)

theorem iterate_alike (hc : c.Regular) (ha : c.AlikeBut name c') {loop : Loop} {iterator : Slot}
    {cls : Class} (hm : m.Based c) (hi : m.heap.form? iterator = some (.object cls))
    (hloop : name ∉ loop.references) (hstack : ∀ p ∈ m.stack, name ∉ p.references) :
    Alike (iterate c loop iterator cls) (iterate c' loop iterator cls) m fun _ m' => m'.Avoids name := by
  unfold iterate
  cases cls.implements "iterator" with
  | false => exact fault_alike _
  | true =>
    simp only [Bool.not_true, Bool.false_eq_true, if_false]
    cases hnext : cls.getNext? with
    | none => exact fault_alike _
    | some getNext =>
      obtain ⟨hmethod, hparams, hreturns, hruns⟩ := hc.getNext? (hm.heap.cls_mem hi) hnext
      exact askNext_alike hc ha hm ⟨hi, hmethod, hparams, hreturns, hruns⟩ hloop hstack

theorem recordCondition_alike (hc : c.Regular) {loop : Loop} {target s : Nat} (hm : m.Based c)
    (htarget : target < m.heap.size) (hs : s < m.heap.size) (hloop : name ∉ loop.references)
    (hstack : ∀ p ∈ m.stack, name ∉ p.references) :
    Alike (recordCondition loop target s) (recordCondition loop target s) m fun _ m' => m'.Avoids name := by
  refine ((cell_meets (c := c) hs).alike rfl).bind fun v m' hv => ?_
  obtain ⟨rfl, hv⟩ := hv
  cases v with
  | truth value =>
    refine ((assign_meets True hc hm htarget hs).alike rfl).bind fun _ m₁ hm₁ => ?_
    have hstack₁ : ∀ p ∈ m₁.stack, name ∉ p.references := by
      rw [hm₁.1.stack]
      exact hstack
    cases value with
    | true =>
      refine Alike.of_ok rfl ⟨fun hmem => hloop (List.mem_append_right _ hmem), ?_⟩
      exact List.forall_mem_cons.mpr ⟨hloop, hstack₁⟩
    | false => exact Alike.of_ok rfl ⟨List.not_mem_nil, hstack₁⟩
  | _ => exact fault_alike _

/-! ### Statements and expressions -/

theorem execute_alike (hc : c.Regular) (ha : c.AlikeBut name c') {s : Stmt} (hm : m.Based c)
    (hs : name ∉ s.references) (hstack : ∀ p ∈ m.stack, name ∉ p.references) :
    Alike (execute c s) (execute c' s) m fun _ m' => m'.Avoids name := by
  cases s with
  | assign target e span =>
    have hmoved : ({ m with here := some span } : Machine).Based c := ⟨hm.heap, hm.frame⟩
    refine Alike.bind_ok rfl (((lookup_meets hmoved target).alike rfl).bind fun t m' ht => ?_)
    obtain ⟨rfl, -⟩ := ht
    exact Alike.of_ok rfl ⟨hs, List.forall_mem_cons.mpr ⟨List.not_mem_nil, hstack⟩⟩
  | call call targets span =>
    obtain ⟨hobject, harguments⟩ := not_or.mp (mt List.mem_append.mpr hs)
    refine Alike.bind_ok rfl (Alike.bind_ok rfl ?_)
    refine supply_alike hc ha ⟨hm.heap, hm.frame⟩ (List.forall_mem_nil _) ⟨?_, ?_⟩ hobject harguments
      (List.forall_mem_cons.mpr ⟨List.not_mem_nil, hstack⟩)
    · intro cls hcls
      cases hcls
    · intro call' targets' span' rest hreceive
      cases hreceive
      rfl
  | loop target source body span =>
    obtain ⟨hsource, hbody⟩ := not_or.mp (mt List.mem_append.mpr hs)
    cases target with
    | none => exact Alike.of_ok rfl ⟨hsource, List.forall_mem_cons.mpr ⟨hs, hstack⟩⟩
    | some variable' =>
      have hmoved : ({ m with here := some span } : Machine).Based c := ⟨hm.heap, hm.frame⟩
      refine Alike.bind_ok rfl (((lookup_meets hmoved variable').alike rfl).bind fun t m' ht => ?_)
      obtain ⟨rfl, -⟩ := ht
      exact Alike.of_ok rfl ⟨hsource, List.forall_mem_cons.mpr ⟨hs, hstack⟩⟩
  | branch condition yes no span =>
    have hparts : name ∉ condition.references ∧
        name ∉ Stmt.referencesEach yes ++ Stmt.referencesElse no := by
      rw [Stmt.references, List.append_assoc, List.mem_append, not_or] at hs
      exact hs
    exact Alike.of_ok rfl ⟨hparts.1, List.forall_mem_cons.mpr ⟨hparts.2, hstack⟩⟩

theorem evaluate_alike (hc : c.Regular) (ha : c.AlikeBut name c') {e : Expr} (hm : m.Based c)
    (he : name ∉ e.references) (hk : Awaits c m.heap .value m.frame m.stack)
    (hstack : ∀ p ∈ m.stack, name ∉ p.references) :
    Alike (evaluate c e) (evaluate c' e) m fun _ m' => m'.Avoids name := by
  cases e with
  | number value => exact Alike.of_ok rfl ⟨List.not_mem_nil, hstack⟩
  | text value => exact Alike.of_ok rfl ⟨List.not_mem_nil, hstack⟩
  | truth value => exact Alike.of_ok rfl ⟨List.not_mem_nil, hstack⟩
  | character value => exact Alike.of_ok rfl ⟨List.not_mem_nil, hstack⟩
  | «variable» called =>
    refine ((lookup_meets hm called).alike rfl).bind fun t m' ht => ?_
    obtain ⟨rfl, -⟩ := ht
    exact Alike.of_ok rfl ⟨List.not_mem_nil, hstack⟩
  | not operand => exact Alike.of_ok rfl ⟨he, List.forall_mem_cons.mpr ⟨List.not_mem_nil, hstack⟩⟩
  | binary op left right =>
    obtain ⟨hleft, hright⟩ := not_or.mp (mt List.mem_append.mpr he)
    exact Alike.of_ok rfl ⟨hleft, List.forall_mem_cons.mpr ⟨hright, hstack⟩⟩
  | call object method arguments =>
    obtain ⟨hobject, harguments⟩ := not_or.mp (mt List.mem_append.mpr he)
    refine Alike.bind_ok rfl ?_
    refine supply_alike hc ha ⟨hm.heap, hm.frame⟩ (List.forall_mem_nil _) ⟨?_, ?_⟩ hobject harguments
      (List.forall_mem_cons.mpr ⟨List.not_mem_nil, hstack⟩)
    · intro cls hcls
      cases hcls
    · intro _ _ _ _ hreceive
      cases hreceive
  | create called arguments =>
    obtain ⟨hcalled, harguments⟩ := not_or.mp (mt List.mem_cons.mpr he)
    unfold evaluate
    dsimp only
    rw [ha.class? called (Ne.symm hcalled)]
    cases hclass : c.class? called with
    | none => exact fault_alike _
    | some cls =>
      refine supply_alike hc ha hm (List.forall_mem_nil _) ⟨?_, ?_⟩ List.not_mem_nil harguments hstack
      · intro cls' hcls
        cases hcls
        exact (Catalog.class?_eq_some hclass).1
      · intro _ _ _ _ hreceive
        exact absurd hreceive (Awaits.ne_receive hk)

/-! ### Going on -/

theorem resume_alike (hc : c.Regular) (ha : c.AlikeBut name c') {p : Pending} (hm : m.Based c)
    (hk : Awaits c m.heap .done m.frame (p :: m.stack)) (hp : name ∉ p.references)
    (hstack : ∀ p ∈ m.stack, name ∉ p.references) :
    Alike (resume c p) (resume c' p) m fun _ m' => m'.Avoids name := by
  cases hk with
  | rest => exact Alike.of_ok rfl ⟨hp, hstack⟩
  | again =>
    obtain ⟨hsource, -⟩ := not_or.mp (mt List.mem_append.mpr hp)
    exact Alike.of_ok rfl ⟨hsource, List.forall_mem_cons.mpr ⟨hp, hstack⟩⟩
  | recordAgain =>
    obtain ⟨hsource, -⟩ := not_or.mp (mt List.mem_append.mpr hp)
    exact Alike.of_ok rfl ⟨hsource, List.forall_mem_cons.mpr ⟨hp, hstack⟩⟩
  | itemAgain hi => exact askNext_alike hc ha hm hi hp hstack
  | @leave _ _ _ returns =>
    refine ((lookupEach_meets hm returns).alike rfl).bind fun slots m' hslots => ?_
    obtain ⟨rfl, -⟩ := hslots
    exact Alike.of_ok rfl ⟨List.not_mem_nil, hstack⟩
  | built => exact Alike.of_ok rfl ⟨List.not_mem_nil, hstack⟩

theorem give_alike (cell : Cell) (hstack : ∀ p ∈ m.stack, name ∉ p.references) :
    Alike (give cell) (give cell) m fun _ m' => m'.Avoids name :=
  Alike.of_ok rfl ⟨List.not_mem_nil, hstack⟩

theorem deliver_alike (hc : c.Regular) (ha : c.AlikeBut name c') {p : Pending} {s : Nat} (hm : m.Based c)
    (hs : s < m.heap.size) (hk : Awaits c m.heap .value m.frame (p :: m.stack))
    (hp : name ∉ p.references) (hstack : ∀ p ∈ m.stack, name ∉ p.references) :
    Alike (deliver c s p) (deliver c' s p) m fun _ m' => m'.Avoids name := by
  cases hk with
  | store ht =>
    refine ((assign_meets True hc hm ht hs).alike rfl).bind fun _ m₁ hm₁ => ?_
    refine Alike.of_ok rfl ⟨List.not_mem_nil, ?_⟩
    show ∀ p ∈ m₁.stack, name ∉ p.references
    rw [hm₁.1.stack]
    exact hstack
  | negate =>
    refine ((cell_meets (c := c) hs).alike rfl).bind fun v m' hv => ?_
    obtain ⟨rfl, -⟩ := hv
    cases v with
    | truth value => exact give_alike _ hstack
    | _ => exact fault_alike _
  | left => exact Alike.of_ok rfl ⟨hp, List.forall_mem_cons.mpr ⟨List.not_mem_nil, hstack⟩⟩
  | right hl =>
    refine ((cell_meets (c := c) hl).alike rfl).bind fun left m' hleft => ?_
    obtain ⟨rfl, -⟩ := hleft
    refine ((cell_meets (c := c) hs).alike rfl).bind fun right m'' hright => ?_
    obtain ⟨rfl, -⟩ := hright
    refine ((orFault_meets (c := c) operate_proper).alike rfl).bind fun cell m₁ hcell => ?_
    obtain ⟨rfl, -⟩ := hcell
    exact give_alike _ hstack
  | argument hbefore hgoal =>
    obtain ⟨hnames, hafter⟩ := not_or.mp (mt List.mem_append.mpr hp)
    exact supply_alike hc ha hm (List.forall_mem_cons.mpr ⟨hs, hbefore⟩) hgoal hnames hafter hstack
  | choose =>
    obtain ⟨hyes, hno⟩ := not_or.mp (mt List.mem_append.mpr hp)
    rw [Stmt.referencesElse_eq] at hno
    refine ((truthOf_meets (c := c) hs).alike rfl).bind fun value m' hm' => ?_
    subst hm'
    cases value with
    | true => exact Alike.of_ok rfl ⟨hyes, hstack⟩
    | false => exact Alike.of_ok rfl ⟨hno, hstack⟩
  | test =>
    obtain ⟨-, hbody⟩ := not_or.mp (mt List.mem_append.mpr hp)
    refine ((truthOf_meets (c := c) hs).alike rfl).bind fun value m' hm' => ?_
    subst hm'
    cases value with
    | true => exact Alike.of_ok rfl ⟨hbody, List.forall_mem_cons.mpr ⟨hp, hstack⟩⟩
    | false => exact Alike.of_ok rfl ⟨List.not_mem_nil, hstack⟩
  | source ht =>
    refine ((cell_meets (c := c) hs).alike rfl).bind fun v m' hv => ?_
    obtain ⟨rfl, hv⟩ := hv
    cases v with
    | object cls fields => exact iterate_alike hc ha hm (Heap.form?_object.mpr ⟨fields, hv⟩) hp hstack
    | _ =>
      refine ((cell_meets (c := c) ht).alike rfl).bind fun v' m'' hv' => ?_
      obtain ⟨rfl, hv'⟩ := hv'
      cases v' with
      | object cls fields => exact iterate_alike hc ha hm (Heap.form?_object.mpr ⟨fields, hv'⟩) hp hstack
      | _ => exact recordCondition_alike hc hm ht hs hp hstack
  | record ht => exact recordCondition_alike hc hm ht hs hp hstack

/-- What a call returned goes on without the catalog. -/
theorem deliverAll_avoids (hc : c.Regular) {p : Pending} {slots : List Slot} {count : Option Nat}
    (hm : m.Based c) (hs : ∀ s ∈ slots, s < m.heap.size)
    (hk : Awaits c m.heap (.values count) m.frame (p :: m.stack)) (hp : name ∉ p.references)
    (hstack : ∀ p ∈ m.stack, name ∉ p.references) :
    Alike (deliverAll slots p) (deliverAll slots p) m fun _ m' => m'.Avoids name := by
  cases hk with
  | single =>
    cases slots with
    | nil => exact fault_alike _
    | cons s others => exact Alike.of_ok rfl ⟨List.not_mem_nil, hstack⟩
  | @receive _ _ _ call targets span =>
    have hmoved : ({ m with here := some span } : Machine).Based c := ⟨hm.heap, hm.frame⟩
    refine Alike.bind_ok rfl (((storeEach_meets True hc hmoved hs).alike rfl).bind fun _ m₁ hm₁ => ?_)
    refine Alike.of_ok rfl ⟨List.not_mem_nil, ?_⟩
    show ∀ p ∈ m₁.stack, name ∉ p.references
    rw [hm₁.stack]
    exact hstack
  | @item _ _ loop iterator cls getNext =>
    refine Alike.bind_ok rfl ?_
    rcases slots with _ | ⟨more, _ | ⟨item, others⟩⟩
    · exact ⟨rfl, nofun⟩
    · exact ⟨rfl, nofun⟩
    have hmoved : ({ m with here := some loop.span } : Machine).Based c := ⟨hm.heap, hm.frame⟩
    have hmore : more < m.heap.size := hs more List.mem_cons_self
    have hitem : item < m.heap.size := hs item (List.mem_cons_of_mem _ List.mem_cons_self)
    have hcell := (cell_meets (c := c) (m := { m with here := some loop.span }) hmore).alike rfl
    refine hcell.bind fun v m' hv => ?_
    obtain ⟨rfl, -⟩ := hv
    cases v with
    | truth value =>
      cases value with
      | true =>
        refine ((storeItem_meets hc hmoved hitem).alike rfl).bind fun _ m₁ hm₁ => ?_
        refine Alike.of_ok rfl ⟨fun hmem => hp (List.mem_append_right _ hmem), ?_⟩
        refine List.forall_mem_cons.mpr ⟨hp, ?_⟩
        rw [hm₁.stack]
        exact hstack
      | false => exact Alike.of_ok rfl ⟨List.not_mem_nil, hstack⟩
    | _ => exact fault_alike _

theorem enter_alike (hc : c.Regular) (ha : c.AlikeBut name c') (hm : m.Based c)
    (hstack : ∀ p ∈ m.stack, name ∉ p.references) :
    Alike (enter c) (enter c') m fun _ m' => m'.Avoids name := by
  unfold enter
  rw [ha.entry?]
  cases hentry : c.entry? with
  | none => exact fault_alike _
  | some found =>
    obtain ⟨cls, method⟩ := found
    obtain ⟨hcls, hmethod, hparams⟩ := Catalog.entry?_eq_some hentry
    refine ((note_meets (c := c) _ _).alike rfl).bind fun _ m₁ hm₁ => ?_
    obtain ⟨log, rfl⟩ := hm₁
    rw [invoke_alike ha hcls hmethod]
    have hlogged : ({ m with log } : Machine).Based c := ⟨hm.heap, hm.frame⟩
    refine ((invoke_meets True hc hlogged hcls hmethod (fun _ hs => by cases hs)
      (.inr (by rw [hparams]; rfl)) (List.forall_mem_nil _)).imp fun _ m' hm' => ?_).alike rfl
    exact hm'.2.2.avoids hstack (Class.method_not_mem (ha.unused cls hcls) hmethod)

/-! ### Steps -/

theorem pop_alike {f g : Pending → Exec Unit} {post : Unit → Machine → Prop}
    (hpop : ∀ p k, m.stack = p :: k → Alike (f p) (g p) { m with stack := k } post) :
    Alike (pop >>= f) (pop >>= g) m post := by
  cases hstack : m.stack with
  | nil =>
    obtain ⟨heap, frame, here, task, stack, records, threshold, log⟩ := m
    subst hstack
    exact ⟨rfl, nofun⟩
  | cons p k => exact Alike.bind_ok (pop_run hstack) (hpop p k hstack)

/-- A step is the same with both catalogs, and leads to code that does not refer to the name
either. -/
theorem step_alike (hc : c.Regular) (ha : c.AlikeBut name c') {wrote : Call → List String → Prop}
    (hm : m.Sensible c wrote) (hnames : m.Avoids name) :
    Alike (step c) (step c') m fun _ m' => m'.Avoids name := by
  obtain ⟨hbased, hfits⟩ := hm
  obtain ⟨htasks, hstack⟩ := hnames
  have hbelow : ∀ p k, m.stack = p :: k → name ∉ p.references ∧ ∀ p ∈ k, name ∉ p.references := by
    intro p k heq
    rw [heq] at hstack
    exact List.forall_mem_cons.mp hstack
  refine Alike.bind_ok rfl ?_
  cases htask : m.task with
  | enter => exact enter_alike hc ha hbased hstack
  | run body =>
    rw [htask] at hfits htasks
    cases body with
    | nil =>
      refine pop_alike fun p k heq => ?_
      rw [heq] at hfits
      exact resume_alike hc ha ⟨hbased.heap, hbased.frame⟩ hfits (hbelow p k heq).1 (hbelow p k heq).2
    | cons s rest =>
      obtain ⟨hs, hrest⟩ := not_or.mp (mt List.mem_append.mpr htasks)
      refine Alike.bind_ok rfl ?_
      exact execute_alike hc ha ⟨hbased.heap, hbased.frame⟩ hs (List.forall_mem_cons.mpr ⟨hrest, hstack⟩)
  | eval e =>
    rw [htask] at hfits htasks
    exact evaluate_alike hc ha hbased htasks hfits hstack
  | value s =>
    rw [htask] at hfits
    obtain ⟨hs, hk⟩ := hfits
    refine pop_alike fun p k heq => ?_
    rw [heq] at hk
    exact deliver_alike hc ha ⟨hbased.heap, hbased.frame⟩ hs hk (hbelow p k heq).1 (hbelow p k heq).2
  | values slots =>
    rw [htask] at hfits
    obtain ⟨hs, count, hk, -⟩ := hfits
    refine pop_alike fun p k heq => ?_
    rw [heq] at hk
    exact deliverAll_avoids hc ⟨hbased.heap, hbased.frame⟩ hs hk (hbelow p k heq).1 (hbelow p k heq).2

end Exec

/-! ### Runs -/

/-- A run is the same with both catalogs. -/
theorem Machine.run_alike {name : String} {c c' : Catalog} (hc : c.Regular) (ha : c.AlikeBut name c')
    {wrote : Call → List String → Prop} {m : Machine} (hm : m.Sensible c wrote) (hnames : m.Avoids name)
    (bound : Nat) : m.run c' bound = m.run c bound := by
  induction bound generalizing m wrote with
  | zero => rfl
  | succ bound ih =>
    have halike := Exec.step_alike hc ha hm hnames
    have hmeets := Exec.step_meets hc hm
    rw [run, run, halike.same]
    cases hstep : (Exec.step c).run m with
    | error h m' => rfl
    | ok u m' =>
      rw [Exec.Meets, hstep] at hmeets
      exact ih hmeets.sensible (halike.ends u m' hstep)

theorem Machine.restart_avoids (m : Machine) (name : String) : m.restart.Avoids name :=
  ⟨List.not_mem_nil, List.forall_mem_nil _⟩

theorem Machine.run_addClass {p : Program} {d : ClassDecl} (hstarts : p.starts)
    (hname : d.name ∈ p.classes.map ClassDecl.name ∨ d.name ∉ p.references) (m : Machine) (bound : Nat) :
    m.restart.run (.ofProgram (p.addClass d)) bound = m.restart.run (.ofProgram p) bound := by
  rcases hname with htaken | hunused
  · rw [Catalog.ofProgram_addClass htaken]
  · exact run_alike (Catalog.ofProgram_regular p) (Catalog.addClass_alikeBut hstarts hunused)
      (restart_sensible m fun _ _ => True) (restart_avoids m d.name) bound

/-- What an outcome shows apart from the log. -/
def Outcome.shown (o : Outcome) : List String × Option RuntimeError := (o.records, o.error)

/-- Another class at the end of a program that can start changes no outcome, if its name is taken or is
one that the program does not refer to. -/
theorem run_addClass_shown (p : Program) (d : ClassDecl) (hstarts : p.starts)
    (hname : d.name ∈ p.classes.map ClassDecl.name ∨ d.name ∉ p.references) (threshold : Level)
    (bound times : Nat) :
    ((p.addClass d).run threshold bound times).map Outcome.shown =
      (p.run threshold bound times).map Outcome.shown := by
  unfold Program.run
  generalize (none : Option RuntimeError) = error
  generalize Machine.start threshold = m
  induction times generalizing error m with
  | zero => rfl
  | succ times ih =>
    rw [Program.run.go, Program.run.go, Machine.run_addClass hstarts hname]
    cases hrun : m.restart.run (.ofProgram p) bound with
    | mk m' halt =>
      cases halt with
      | none => rfl
      | some h => exact ih _ m'

/-- A class that a program could start with. -/
def ClassDecl.spare : ClassDecl :=
  let place : Span := .single ⟨9, 1, "f"⟩
  ⟨"spare", [], [], [], [⟨⟨"start", [], []⟩, false, true, [],
    [.call ⟨some "console", "write", [.text "spare"]⟩ [] place], place⟩], place⟩

theorem run_addClass_shown_spare :
    Program.expectant.starts ∧ ClassDecl.spare.name ∉ Program.expectant.references ∧
      ∀ threshold bound times,
        ((Program.expectant.addClass .spare).run threshold bound times).map Outcome.shown =
          (Program.expectant.run threshold bound times).map Outcome.shown :=
  ⟨by decide, by decide, run_addClass_shown .expectant .spare (by decide) (.inr (by decide))⟩

end Offside
