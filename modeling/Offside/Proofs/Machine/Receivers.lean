import Mathlib.Data.List.Forall2
import Offside.Proofs.Machine.Callee
import Offside.Proofs.Machine.Edits

/-! Which code runs on an object.

A scope does not say whose it is. Beside a run stands what its scopes were opened for: `opens?` says
what a step opens one for, and `activations` follows a run. Of every scope of every state that a run
reaches it then holds that code without an object is a shared method's. The converse does not: a
shared method runs on an object if it is called without a qualifier by code that does, through a
variable, or for the next item of a loop. -/
namespace Offside

/-- The method runs on an object if it is reached like this. -/
def Way.onObject : Way → Bool
  | .entry | .ownShared | .ofClass => false
  | .ownObject | .ofVariable | .next => true

/-- What a scope was opened for. -/
inductive Activation where
  /-- Nothing; it is there before a run starts. -/
  | outside
  | method (way : Way) (m : Method)
  | construction

/-- What a call of a method opens a scope for. A method that only writes needs none. -/
def Method.opens (m : Method) (way : Way) : Option Activation :=
  match m.action with
  | .write => none
  | .run .. => some (.method way m)

namespace Machine

/-- The object of each scope, innermost first, and the work that waits for the end of its code. -/
def scopesFrom (object : Option Slot) : List Pending → List (Option Slot × Option Pending)
  | [] => [(object, none)]
  | .leave returns f span :: rest => (object, some (.leave returns f span)) :: scopesFrom f.object rest
  | .built made f span :: rest => (object, some (.built made f span)) :: scopesFrom f.object rest
  | _ :: rest => scopesFrom object rest

def scopes (m : Machine) : List (Option Slot × Option Pending) := scopesFrom m.frame.object m.stack

/-- What a step opens a scope for that has these arguments for this. -/
def opensFor (c : Catalog) (m : Machine) (slots : List Slot) : Goal → Option Activation
  | .call object name targets =>
    match (Exec.callee c object name targets slots).on m.world with
    | .ok t _ => t.method.opens t.way
    | .error _ _ => none
  | .create _ => some .construction

/-- What a step opens a scope for that starts a loop over an object. -/
def opensNext (cls : Class) : Option Activation := cls.getNext?.bind (·.opens .next)

/-- What the next step opens a scope for, if it does. -/
def opens? (c : Catalog) (m : Machine) : Option Activation :=
  match m.task, m.stack with
  | .enter, _ => c.entry?.bind fun entry => entry.2.opens .entry
  | .run (.call ⟨object, name, []⟩ targets _ :: _), _ => m.opensFor c [] (.call object name targets.length)
  | .eval (.call object name []), _ => m.opensFor c [] (.call object name 0)
  | .eval (.create _ []), _ => some .construction
  | .value s, .argument before [] goal :: _ => m.opensFor c (s :: before).reverse goal
  | .value s, .source _ target :: _ =>
    match m.heap.cell? s with
    | some (.object cls _) => opensNext cls
    | _ =>
      match m.heap.cell? target with
      | some (.object cls _) => opensNext cls
      | _ => none
  | .run [], .itemAgain _ _ _ getNext :: _ => getNext.opens .next
  | _, _ => none

/-- The next step closes a scope. -/
def closes (m : Machine) : Bool :=
  match m.task, m.stack with
  | .run [], .leave .. :: _ => true
  | .run [], .built .. :: _ => true
  | _, _ => false

/-- What the scopes are for after the next step, the innermost first. -/
def activate (c : Catalog) (m : Machine) (active : List Activation) : List Activation :=
  match m.opens? c with
  | some a => a :: active
  | none => if m.closes then active.tail else active

/-- What the scopes are for after so many steps of a run. -/
def activations (c : Catalog) (bound : Nat) (m : Machine) : List Activation :=
  go bound m [.outside]
where
  go : Nat → Machine → List Activation → List Activation
    | 0, _, active => active
    | bound + 1, m, active =>
      match (Exec.step c).run m with
      | .ok () m' => go bound m' (m.activate c active)
      | .error _ _ => active

end Machine

/-- A scope is one for an activation: it closes as it must, and it has an object if it is reached
so. -/
def Activation.Fits : Activation → Option Slot × Option Pending → Prop
  | .outside, (object, none) => object = none
  | .method way m, (object, some (.leave returns _ _)) =>
    returns = m.header.returns ∧ object.isSome = way.onObject ∧ (object = none → m.isShared = true)
  | .construction, (object, some (.built made _ _)) => object = some made
  | _, _ => False

/-! ### Actions that keep the scopes -/

/-- Work that waits for something else than the end of a scope. -/
def Pending.inScope : Pending → Bool
  | .leave .. | .built .. => false
  | _ => true

theorem Machine.scopesFrom_cons {p : Pending} (hp : p.inScope = true) (object : Option Slot)
    (rest : List Pending) :
    scopesFrom object (p :: rest) = scopesFrom object rest := by
  cases p with
  | leave => cases hp
  | built => cases hp
  | _ => rfl

namespace Exec

variable {α β : Type} {c : Catalog} {m m' : Machine} {opened : Option Activation}

/-- An action that opens a scope for this, or none. -/
def Opens (x : Exec α) (m : Machine) (opened : Option Activation) : Prop :=
  ∀ a m', x.run m = .ok a m' → match opened with
    | none => m'.scopes = m.scopes
    | some activation => ∃ s, m'.scopes = s :: m.scopes ∧ activation.Fits s

/-- An action after which the scopes are what they were before. -/
def Keeps (x : Exec α) : Prop := ∀ m, Opens x m none

theorem Keeps.bind_opens {x : Exec α} {f : α → Exec β} (hx : Keeps x)
    (hf : ∀ a m', x.run m = .ok a m' → Opens (f a) m' opened) : Opens (x >>= f) m opened := by
  intro b m'' h
  obtain ⟨a, m', ha, hb⟩ := bind_run_eq_ok.mp h
  have hkept : m'.scopes = m.scopes := hx m a m' ha
  have hopens := hf a m' ha b m'' hb
  cases opened with
  | none => exact hopens.trans hkept
  | some activation =>
    rw [hkept] at hopens
    exact hopens

theorem Keeps.bind {x : Exec α} {f : α → Exec β} (hx : Keeps x) (hf : ∀ a, Keeps (f a)) :
    Keeps (x >>= f) :=
  fun _ => hx.bind_opens fun a m' _ => hf a m'

theorem Uniform.run_eq_ok {x : Exec α} {a : α} (hx : Uniform x) (h : x.run m = .ok a m') :
    ∃ w, x.on m.world = .ok a w ∧ m' = w.machine m.here m.task m.stack := by
  have hrun : x.run m = place m.here m.task m.stack (x.on m.world) :=
    hx m.world m.here m.task m.stack
  rw [h] at hrun
  cases hon : x.on m.world with
  | ok b w =>
    rw [hon] at hrun
    cases hrun
    exact ⟨w, rfl, rfl⟩
  | error e w =>
    rw [hon] at hrun
    cases hrun

theorem Local.keeps {x : Exec α} (hx : Local x) : Keeps x := by
  intro m _ m' h
  obtain ⟨w, hon, rfl⟩ := hx.uniform.run_eq_ok h
  show Machine.scopesFrom w.frame.object m.stack = Machine.scopesFrom m.frame.object m.stack
  rw [(hx.grows _ _ _ hon).object]
  rfl

theorem fault_opens (f : Fault) : Opens (fault f : Exec α) m opened := nofun

theorem stuck_opens : Opens (stuck : Exec α) m opened := nofun

theorem setTask_keeps (t : Task) : Keeps (setTask t) := by
  intro m a m' h
  cases h
  rfl

theorem moveTo_keeps (span : Option Span) : Keeps (moveTo span) := by
  intro m a m' h
  cases h
  rfl

theorem push_keeps {p : Pending} (hp : p.inScope = true) : Keeps (push p) := by
  intro m a m' h
  cases h
  exact Machine.scopesFrom_cons hp _ _

theorem await_keeps {p : Pending} (hp : p.inScope = true) (t : Task) : Keeps (await p t) :=
  (push_keeps hp).bind fun _ => setTask_keeps t

theorem give_keeps (cell : Cell) : Keeps (give cell) :=
  (alloc_local cell).keeps.bind fun _ => setTask_keeps _

/-! ### Calls -/

/-- Where only shared methods are looked for, only those are found. -/
theorem findMethod_isShared {name : String} {values : List Cell} {targets : Nat}
    {methods : List Method}
    {found : Method} (h : c.findMethod name values targets true methods = .ok (some found)) :
    found.isShared = true := by
  induction methods with
  | nil => cases h
  | cons first rest ih =>
    unfold Catalog.findMethod at h
    by_cases hshared : first.isShared = true
    · simp only [hshared, Bool.not_true, Bool.and_false, Bool.false_eq_true, if_false] at h
      cases hserves : c.serves first name values targets with
      | error f =>
        rw [hserves] at h
        cases h
      | ok serves =>
        rw [hserves] at h
        cases serves with
        | true =>
          cases h
          exact hshared
        | false => exact ih h
    · simp only [hshared, Bool.not_false, Bool.and_self, if_true] at h
      exact ih h

theorem resolve_eq_some {cls : Class} {name : String} {values : List Cell} {targets : Nat}
    {sharedOnly : Bool}
    {found : Method} {w w' : World}
    (h : (resolve c cls name values targets sharedOnly).on w = .ok (some found) w') :
    c.findMethod name values targets sharedOnly cls.methods = .ok (some found) := by
  obtain ⟨found', w₁, hfound, h⟩ := (orFault_local _).uniform.bind_eq_ok h
  cases hmethod : c.findMethod name values targets sharedOnly cls.methods with
  | error f =>
    rw [hmethod] at hfound
    cases hfound
  | ok o =>
    rw [hmethod] at hfound
    cases hfound
    cases found' with
    | none => cases h
    | some m =>
      obtain ⟨_, w₂, -, h⟩ := (note_local _ _).uniform.bind_eq_ok h
      cases h
      rfl

/-- A method is called on an object if it is reached so, and is shared if it is called on none. -/
def Callee.Received (t : Callee) : Prop :=
  t.object.isSome = t.way.onObject ∧ (t.object = none → t.method.isShared = true)

theorem calleeVariable_received {object name : String} {targets : Nat} {slots : List Slot}
    {t : Callee}
    {w w' : World} (h : (calleeVariable c object name targets slots).on w = .ok t w') :
    Callee.Received t := by
  obtain ⟨values, w₁, -, h⟩ := (cells_local slots).uniform.bind_eq_ok h
  obtain ⟨found, w₂, -, h⟩ := (find?_local object).uniform.bind_eq_ok h
  cases found with
  | none => cases h
  | some s =>
    obtain ⟨cell, w₃, -, h⟩ := (cell_local s).uniform.bind_eq_ok h
    cases cell with
    | object cls fields =>
      obtain ⟨found, w₄, -, h⟩ := (resolve_local _ _ _ _ _ _).uniform.bind_eq_ok h
      cases found with
      | none => cases h
      | some m =>
        cases h
        exact ⟨rfl, nofun⟩
    | _ => cases h

theorem calleeOwn_received {name : String} {targets : Nat} {slots : List Slot} {t : Callee}
    {w w' : World}
    (h : (calleeOwn c name targets slots).on w = .ok t w') : Callee.Received t := by
  obtain ⟨f, w₁, -, h⟩ := frame_local.uniform.bind_eq_ok h
  obtain ⟨values, w₂, -, h⟩ := (cells_local slots).uniform.bind_eq_ok h
  obtain ⟨found, w₃, hfound, h⟩ := (resolve_local _ _ _ _ _ _).uniform.bind_eq_ok h
  cases found with
  | none => cases h
  | some m =>
    cases h
    obtain ⟨locals, object, cls⟩ := f
    cases object with
    | none => exact ⟨rfl, fun _ => findMethod_isShared (resolve_eq_some hfound)⟩
    | some s => exact ⟨rfl, nofun⟩

theorem callee_received {object : Option String} {name : String} {targets : Nat} {slots : List Slot}
    {t : Callee}
    {w w' : World} (h : (callee c object name targets slots).on w = .ok t w') :
    Callee.Received t := by
  cases object with
  | none => exact calleeOwn_received h
  | some object =>
    change (calleeOn c object name targets slots).on w = .ok t w' at h
    unfold calleeOn at h
    cases hclass : c.class? object with
    | none =>
      rw [hclass] at h
      exact calleeVariable_received h
    | some cls =>
      rw [hclass] at h
      obtain ⟨values, w₁, -, h⟩ := (cells_local slots).uniform.bind_eq_ok h
      obtain ⟨found, w₂, hfound, h⟩ := (resolve_local _ _ _ _ _ _).uniform.bind_eq_ok h
      cases found with
      | none => exact calleeVariable_received h
      | some m =>
        cases h
        exact ⟨rfl, fun _ => findMethod_isShared (resolve_eq_some hfound)⟩

/-- Calling a method opens a scope for it. -/
theorem invoke_opens {t : Callee} (ht : Callee.Received t) (slots : List Slot) :
    Opens (invoke c t.cls t.object t.method slots) m (t.method.opens t.way) := by
  unfold invoke Method.opens
  cases t.method.action with
  | write =>
    exact (valuesOf_local slots).keeps.bind
      (fun _ => (write_local _).keeps.bind fun _ => setTask_keeps _) m
  | run locals body =>
    refine (note_local _ _).keeps.bind_opens fun _ m₁ _ => ?_
    have hkeeps :
        Keeps (bindAll t.method.header.parameters slots >>= fun _ => declare c locals >>= fun _ =>
          declare c t.method.header.returns >>= fun _ => setTask (.run body)) :=
      (bindAll_local _ _).keeps.bind fun _ => (declare_local _ _).keeps.bind fun _ =>
        (declare_local _ _).keeps.bind fun _ => setTask_keeps _
    intro a m' h
    refine ⟨(t.object, some (.leave t.method.header.returns m₁.frame m₁.here)), ?_, rfl, ht.1, ht.2⟩
    exact hkeeps { m₁ with
      stack := .leave t.method.header.returns m₁.frame m₁.here :: m₁.stack
      frame := ⟨.empty, t.object, t.cls⟩ } a m' h

/-- Making an object opens a scope for that. -/
theorem construct_opens (cls : Class) (k : Option ConstructorDecl) (slots : List Slot) :
    Opens (construct c cls k slots) m (some .construction) := by
  refine (alloc_local _).keeps.bind_opens fun object m₁ _ =>
    (note_local _ _).keeps.bind_opens fun _ m₂ _ => ?_
  intro a m' h
  refine ⟨(some object, some (.built object m₂.frame m₂.here)), ?_, rfl⟩
  obtain ⟨m₃, hm₃⟩ : ∃ m₃ : Machine, m₃ = { m₂ with
    stack := .built object m₂.frame m₂.here :: m₂.stack, frame := ⟨.empty, some object, cls⟩ } :=
      ⟨_, rfl⟩
  have hscopes : m₃.scopes = (some object, some (.built object m₂.frame m₂.here)) :: m₂.scopes := by
    rw [hm₃]
    rfl
  rw [← hscopes]
  cases k with
  | none =>
    have hkeeps : Keeps (bindAll [] slots >>= fun _ => populate c object cls.fields >>= fun _ =>
        setTask (.run [])) :=
      (bindAll_local _ _).keeps.bind fun _ => (populate_local _ _ _).keeps.bind fun _ =>
        setTask_keeps _
    exact hkeeps m₃ a m' (hm₃ ▸ h)
  | some k =>
    have hkeeps :
        Keeps (bindAll k.parameters slots >>= fun _ => populate c object cls.fields >>= fun _ =>
          declare c k.locals >>= fun _ => setTask (.run k.body)) :=
      (bindAll_local _ _).keeps.bind fun _ => (populate_local _ _ _).keeps.bind fun _ =>
        (declare_local _ _).keeps.bind fun _ => setTask_keeps _
    exact hkeeps m₃ a m' (hm₃ ▸ h)

theorem reach_opens (slots : List Slot) (goal : Goal) :
    Opens (reach c slots goal) m (m.opensFor c slots goal) := by
  cases goal with
  | create cls =>
    rw [reach_create_eq]
    exact (maker_local _ _ _).keeps.bind_opens fun k m' _ => construct_opens cls k slots
  | call object name targets =>
    rw [reach_call_eq]
    refine (callee_local _ _ _ _ _).keeps.bind_opens fun t m' hrun => ?_
    obtain ⟨w, hon, rfl⟩ := (callee_local c object name targets slots).uniform.run_eq_ok hrun
    show Opens _ _ (match (callee c object name targets slots).on m.world with
      | .ok t _ => t.method.opens t.way
      | .error _ _ => none)
    rw [hon]
    exact invoke_opens (callee_received hon) slots

theorem supply_opens (before : List Slot) (goal : Goal) :
    Opens (supply c before goal []) m (m.opensFor c before.reverse goal) :=
  reach_opens before.reverse goal

/-! ### Steps -/

theorem askNext_opens (loop : Loop) (iterator : Slot) (cls : Class) (getNext : Method) :
    Opens (askNext c loop iterator cls getNext) m (getNext.opens .next) := by
  refine (push_keeps rfl).bind_opens fun _ m' _ => ?_
  have hreceived : Callee.Received ⟨.next, cls, some iterator, getNext⟩ := ⟨rfl, nofun⟩
  exact invoke_opens hreceived []

theorem iterate_opens (loop : Loop) (iterator : Slot) (cls : Class) :
    Opens (iterate c loop iterator cls) m (Machine.opensNext cls) := by
  unfold iterate Machine.opensNext
  cases cls.implements "iterator" with
  | false => nofun
  | true =>
    cases cls.getNext? with
    | none => exact fault_opens _
    | some getNext => exact askNext_opens loop iterator cls getNext

theorem recordCondition_keeps (loop : Loop) (target s : Slot) :
    Keeps (recordCondition loop target s) := by
  refine (cell_local s).keeps.bind fun v => ?_
  split
  · refine (assign_local target s).keeps.bind fun _ => ?_
    split
    · exact await_keeps rfl _
    · exact setTask_keeps _
  · exact fun _ => fault_opens _

theorem cell_eq_ok {s : Slot} {v : Cell} (h : (cell s).run m = .ok v m') :
    m' = m ∧ m.heap.cell? s = some v := by
  rw [cell_run] at h
  cases hcell : m.heap.cell? s with
  | none =>
    rw [hcell] at h
    cases h
  | some v' =>
    rw [hcell] at h
    cases h
    exact ⟨rfl, rfl⟩

theorem source_opens (loop : Loop) (target s : Slot) :
    Opens (deliver c s (.source loop target)) m (match m.heap.cell? s with
      | some (.object cls _) => Machine.opensNext cls
      | _ =>
        match m.heap.cell? target with
        | some (.object cls _) => Machine.opensNext cls
        | _ => none) := by
  refine (cell_local s).keeps.bind_opens fun v m' hv => ?_
  obtain ⟨rfl, hcell⟩ := cell_eq_ok hv
  rw [hcell]
  cases v with
  | object cls fields => exact iterate_opens loop s cls
  | _ =>
    refine (cell_local target).keeps.bind_opens fun v m' hv => ?_
    obtain ⟨rfl, hcell⟩ := cell_eq_ok hv
    rw [hcell]
    cases v with
    | object cls fields => exact iterate_opens loop target cls
    | _ => exact recordCondition_keeps loop target s _

theorem execute_opens (s : Stmt) (rest : List Stmt) (hm : m.task = .run (s :: rest)) :
    Opens (execute c s) m (m.opens? c) := by
  obtain ⟨heap, f, here, task, stack, records, threshold, log⟩ := m
  obtain rfl : task = _ := hm
  cases s with
  | assign target value span =>
    exact ((moveTo_keeps _).bind fun _ => (lookup_local target).keeps.bind fun _ =>
      await_keeps rfl _) _
  | call call targets span =>
    refine (moveTo_keeps _).bind_opens fun _ m₁ h₁ => (push_keeps rfl).bind_opens fun _ m₂ h₂ => ?_
    cases h₁
    cases h₂
    obtain ⟨object, name, args⟩ := call
    cases args with
    | nil => exact supply_opens [] _
    | cons e after => exact await_keeps rfl _ _
  | loop name source body span =>
    cases name with
    | none => exact ((moveTo_keeps _).bind fun _ => await_keeps rfl _) _
    | some name => exact ((moveTo_keeps _).bind fun _ => (lookup_local name).keeps.bind fun _ => await_keeps rfl _) _
  | branch condition yes no span => exact ((moveTo_keeps _).bind fun _ => await_keeps rfl _) _

/-- What a statement opens a scope for does not depend on what waits for it. -/
theorem opens?_of_cons {s : Stmt} {rest : List Stmt} {stack : List Pending}
    (hm : m.task = .run (s :: rest)) :
    ({ m with stack } : Machine).opens? c = m.opens? c := by
  obtain ⟨heap, f, here, task, _, records, threshold, log⟩ := m
  obtain rfl : task = _ := hm
  cases s with
  | call call targets span =>
    obtain ⟨object, name, args⟩ := call
    cases args <;> rfl
  | _ => rfl

theorem evaluate_opens (e : Expr) (hm : m.task = .eval e) :
    Opens (evaluate c e) m (m.opens? c) := by
  obtain ⟨heap, f, here, task, stack, records, threshold, log⟩ := m
  obtain rfl : task = _ := hm
  cases e with
  | number value => exact give_keeps _ _
  | text value => exact give_keeps _ _
  | truth value => exact give_keeps _ _
  | character value => exact give_keeps _ _
  | «variable» name => exact ((lookup_local name).keeps.bind fun _ => setTask_keeps _) _
  | not operand => exact await_keeps rfl _ _
  | binary op left right => exact await_keeps rfl _ _
  | call object name args =>
    refine (push_keeps rfl).bind_opens fun _ m₁ h₁ => ?_
    cases h₁
    cases args with
    | nil => exact supply_opens [] _
    | cons e after => exact await_keeps rfl _ _
  | create name args =>
    unfold evaluate
    cases hclass : c.class? name with
    | none =>
      simp only [hclass]
      exact fault_opens _
    | some cls =>
      simp only [hclass]
      cases args with
      | nil => exact supply_opens [] (.create cls)
      | cons e after => exact await_keeps rfl _ _

theorem resume_opens {p : Pending} {stack : List Pending} (hp : p.inScope = true)
    (htask : m.task = .run [])
    (hstack : m.stack = p :: stack) : Opens (resume c p) { m with stack } (m.opens? c) := by
  obtain ⟨heap, f, here, task, _, records, threshold, log⟩ := m
  obtain rfl : task = _ := htask
  cases hstack
  cases p with
  | rest body => exact setTask_keeps _ _
  | again source body span => exact ((moveTo_keeps _).bind fun _ => await_keeps rfl _) _
  | recordAgain loop target => exact ((moveTo_keeps _).bind fun _ => await_keeps rfl _) _
  | itemAgain loop iterator cls getNext => exact askNext_opens loop iterator cls getNext
  | leave => cases hp
  | built => cases hp
  | _ => exact stuck_opens

theorem deliver_opens {p : Pending} {stack : List Pending} (s : Slot) (htask : m.task = .value s)
    (hstack : m.stack = p :: stack) : Opens (deliver c s p) { m with stack } (m.opens? c) := by
  obtain ⟨heap, f, here, task, _, records, threshold, log⟩ := m
  obtain rfl : task = _ := htask
  cases hstack
  cases p with
  | store target => exact ((assign_local target s).keeps.bind fun _ => setTask_keeps _) _
  | negate =>
    refine (cell_local s).keeps.bind_opens fun v m' _ => ?_
    cases v with
    | truth value => exact give_keeps _ _
    | _ => exact fault_opens _
  | left op left right => exact await_keeps rfl _ _
  | right op left right l =>
    exact ((cell_local l).keeps.bind fun _ => (cell_local s).keeps.bind fun _ =>
      (orFault_local _).keeps.bind fun _ =>
      give_keeps _) _
  | argument before after goal =>
    cases after with
    | nil => exact supply_opens (s :: before) goal
    | cons e after => exact await_keeps rfl _ _
  | choose condition yes no =>
    refine (truthOf_local condition s).keeps.bind_opens fun value m' _ => ?_
    cases value with
    | false => exact setTask_keeps _ _
    | true => exact setTask_keeps _ _
  | test source body span =>
    refine (truthOf_local source s).keeps.bind_opens fun value m' _ => ?_
    cases value with
    | false => exact setTask_keeps _ _
    | true => exact await_keeps rfl _ _
  | source loop target => exact source_opens loop target s
  | record loop target => exact recordCondition_keeps loop target s _
  | _ => exact stuck_opens

theorem deliverAll_keeps (slots : List Slot) (p : Pending) : Keeps (deliverAll slots p) := by
  cases p with
  | single call =>
    cases slots with
    | nil => exact fun _ => fault_opens _
    | cons s rest => exact setTask_keeps _
  | receive call targets span =>
    exact (moveTo_keeps _).bind fun _ => (storeEach_local _ _ _).keeps.bind fun _ => setTask_keeps _
  | item loop iterator cls getNext =>
    refine (moveTo_keeps _).bind fun _ => ?_
    split
    · refine (cell_local _).keeps.bind fun v => ?_
      split
      · exact (storeItem_local _ _ _).keeps.bind fun _ => await_keeps rfl _
      · exact setTask_keeps _
      · exact fun _ => fault_opens _
    · exact fun _ => stuck_opens
  | _ => exact fun _ => stuck_opens

theorem enter_opens (hm : m.task = .enter) : Opens (enter c) m (m.opens? c) := by
  obtain ⟨heap, f, here, task, stack, records, threshold, log⟩ := m
  obtain rfl : task = _ := hm
  show Opens (enter c) _ (c.entry?.bind fun entry => entry.2.opens .entry)
  unfold enter
  cases hentry : c.entry? with
  | none => exact fault_opens _
  | some entry =>
    obtain ⟨cls, method⟩ := entry
    refine (note_local _ _).keeps.bind_opens fun _ m' _ => ?_
    have hreceived : Callee.Received ⟨.entry, cls, none, method⟩ := by
      refine ⟨rfl, fun _ => ?_⟩
      obtain ⟨cls', -, hcls'⟩ := List.exists_of_findSome?_eq_some hentry
      obtain ⟨method', hmethod', heq⟩ := Option.map_eq_some_iff.1 hcls'
      cases heq
      have hisEntry := List.find?_some hmethod'
      simp only [Method.isEntry, Bool.and_eq_true] at hisEntry
      exact hisEntry.1.1.1
    exact invoke_opens hreceived []

/-- Work is taken from the stack before it goes on. -/
theorem Opens.of_pop {x : Exec Unit} {p : Pending} {stack : List Pending} (hp : p.inScope = true)
    (hstack : m.stack = p :: stack) (h : Opens x { m with stack } opened)
    (hrun : (step c).run m = x.run { m with stack }) :
    Opens (step c) m opened := by
  have hscopes : m.scopes = ({ m with stack } : Machine).scopes := by
    unfold Machine.scopes
    rw [hstack, Machine.scopesFrom_cons hp]
  intro a m' hm'
  rw [hrun] at hm'
  rw [hscopes]
  exact h a m' hm'

/-- A step that closes no scope opens the one that it is said to open. -/
theorem step_opens (hopen : m.closes = false) : Opens (step c) m (m.opens? c) := by
  obtain ⟨heap, f, here, task, stack, records, threshold, log⟩ := m
  cases task with
  | enter => exact enter_opens rfl
  | eval e => exact evaluate_opens e rfl
  | run body =>
    cases body with
    | cons s rest =>
      show Opens (push (.rest rest) >>= fun _ => execute c s) _ _
      refine (push_keeps rfl).bind_opens fun _ m₁ h₁ => ?_
      cases h₁
      rw [← opens?_of_cons rfl]
      exact execute_opens s rest rfl
    | nil =>
      cases stack with
      | nil => nofun
      | cons p stack =>
        have hp : p.inScope = true := by
          cases p with
          | leave => cases hopen
          | built => cases hopen
          | _ => rfl
        exact Opens.of_pop hp rfl (resume_opens hp rfl rfl) rfl
  | value s =>
    cases stack with
    | nil => nofun
    | cons p stack =>
      by_cases hp : p.inScope = true
      · exact Opens.of_pop hp rfl (deliver_opens s rfl rfl) rfl
      · cases p with
        | leave => nofun
        | built => nofun
        | _ => exact absurd rfl hp
  | values slots =>
    cases stack with
    | nil => nofun
    | cons p stack =>
      by_cases hp : p.inScope = true
      · exact Opens.of_pop hp rfl (deliverAll_keeps slots p _) rfl
      · cases p with
        | leave => nofun
        | built => nofun
        | _ => exact absurd rfl hp

/-- A step that closes a scope opens none. -/
theorem step_closes (hclose : m.closes = true) (h : (step c).run m = .ok () m') :
    m.opens? c = none ∧ m'.scopes = m.scopes.tail := by
  obtain ⟨heap, f, here, task, stack, records, threshold, log⟩ := m
  rcases task with _ | (_ | ⟨s, rest⟩) | _ | _ | _ <;> try cases hclose
  rcases stack with _ | ⟨p, stack⟩
  · cases hclose
  cases p with
  | leave returns caller span =>
    change
      (lookupEach returns >>= fun slots => setFrame caller >>= fun _ => moveTo span >>= fun _ =>
      setTask (.values slots)).run ⟨heap, f, here, .run [], stack, records, threshold, log⟩ = _ at h
    obtain ⟨slots, m₁, hslots, h⟩ := bind_run_eq_ok.mp h
    obtain ⟨w, -, rfl⟩ := (lookupEach_local returns).uniform.run_eq_ok hslots
    cases h
    exact ⟨rfl, rfl⟩
  | built object caller span =>
    cases h
    exact ⟨rfl, rfl⟩
  | _ => cases hclose

end Exec

/-! ### Runs -/

namespace Machine

variable {c : Catalog} {m m' : Machine} {active : List Activation}

theorem step_fits (h : (Exec.step c).run m = .ok () m')
    (hfits : List.Forall₂ Activation.Fits active m.scopes) :
    List.Forall₂ Activation.Fits (m.activate c active) m'.scopes := by
  unfold activate
  cases hclose : m.closes with
  | true =>
    obtain ⟨hnone, hscopes⟩ := Exec.step_closes hclose h
    rw [hnone, hscopes]
    generalize m.scopes = scopes at hfits
    cases hfits with
    | nil => exact .nil
    | cons _ hrest => exact hrest
  | false =>
    have hopens := Exec.step_opens hclose () m' h
    cases hopened : m.opens? c with
    | none =>
      rw [hopened] at hopens
      rw [show m'.scopes = m.scopes from hopens]
      exact hfits
    | some activation =>
      rw [hopened] at hopens
      obtain ⟨s, hscopes, hs⟩ := hopens
      rw [hscopes]
      exact .cons hs hfits

theorem run_fits {bound : Nat} (h : m.run c bound = (m', none))
    (hfits : List.Forall₂ Activation.Fits active m.scopes) :
    List.Forall₂ Activation.Fits (activations.go c bound m active) m'.scopes := by
  induction bound generalizing m active with
  | zero =>
    cases h
    exact hfits
  | succ bound ih =>
    unfold run at h
    unfold activations.go
    cases hstep : (Exec.step c).run m with
    | error e m₁ =>
      rw [hstep] at h
      cases h
    | ok u m₁ =>
      rw [hstep] at h
      exact ih h (step_fits hstep hfits)

end Machine

/-- A scope is one for an activation, and for a method it has no object just if the method is
shared, unless the method is shared and was reached as methods of an object are. -/
def Activation.Receives (activation : Activation) (scope : Option Slot × Option Pending) : Prop :=
  activation.Fits scope ∧ ∀ way method, activation = .method way method →
    (scope.1 = none → method.isShared = true) ∧
    ((scope.1 = none ↔ method.isShared = true) ↔ ¬ (method.isShared = true ∧ way.onObject = true))

theorem Activation.Fits.receives {activation : Activation} {scope : Option Slot × Option Pending}
    (hfits : activation.Fits scope) : activation.Receives scope := by
  refine ⟨hfits, ?_⟩
  rintro way method rfl
  obtain ⟨object, _ | p⟩ := scope
  · cases hfits
  cases p with
  | leave returns caller span =>
    obtain ⟨-, hobject, hshared⟩ := hfits
    refine ⟨hshared, ?_⟩
    rw [← hobject]
    cases object with
    | none => simp [hshared rfl]
    | some s => cases method.isShared <;> simp
  | _ => cases hfits

/-- In every state that a run reaches, code without an object is a shared method's, and a shared
method runs without an object unless it was called without a qualifier by code that runs on one,
through a variable, or for the next item of a loop. -/
theorem runs_without_object {c : Catalog} {m m' : Machine} {bound : Nat}
    (h : m.restart.run c bound = (m', none)) :
    List.Forall₂ Activation.Receives (m.restart.activations c bound) m'.scopes := by
  have hstart : List.Forall₂ Activation.Fits [.outside] m.restart.scopes := by
    refine .cons ?_ .nil
    show m.restart.frame.object = none
    rfl
  exact (Machine.run_fits h hstart).imp fun _ _ hfits => hfits.receives

/-- A class whose entry method calls another shared method through a variable. -/
def Program.peeking : Program :=
  let place : Span := .single ⟨1, 1, "f"⟩
  let start : MethodDecl :=
    ⟨⟨"start", [], []⟩, false, true, [⟨"main", "m"⟩],
    [.call ⟨some "m", "peek", []⟩ [] place], place⟩
  let peek : MethodDecl := ⟨⟨"peek", [], []⟩, false, true, [], [], place⟩
  ⟨[], [⟨"main", [], [], [], [start, peek], place⟩]⟩

theorem runs_without_object_peeking :
    ∃ m', (Machine.start .error).restart.run (.ofProgram .peeking) 2 = (m', none) ∧
      List.Forall₂ Activation.Receives
        ((Machine.start .error).restart.activations (.ofProgram .peeking) 2) m'.scopes :=
  ⟨_, rfl, runs_without_object rfl⟩

/-- A shared method that is called through a variable runs on the object in it. -/
theorem shared_method_runs_on_object :
    ∃ m' method, (Machine.start .error).restart.run (.ofProgram .peeking) 2 = (m', none) ∧
      ((Machine.start .error).restart.activations (.ofProgram .peeking) 2).head? =
        some (.method .ofVariable method) ∧
      method.isShared = true ∧ m'.frame.object ≠ none :=
  ⟨_, _, rfl, rfl, rfl, nofun⟩

end Offside
