import Offside.Proofs.Machine.Matching

/-! A machine does what the evaluation says.

`Matches` is proved of every part of an evaluation that has so many rounds from the same of the
parts that have one less, whatever the machine has to do afterwards. The statement that a machine
says it executes is then the innermost one that is executed, wherever the machine can halt. It can
say so too late in two places: at the end of a method, and before a loop over an iterator asks for
another item. Nothing can halt there, because the returns are among the method's variables and
because `getNext` got its variables before. -/
namespace Offside

open Exec

/-! ### Where evaluations lead to -/

/-- The machine has a value for the work that waits for it. -/
def Valued (here : Option Span) (stack : List Pending) (s : Slot) (w : World)
    (r : EStateM.Result Halt Machine Unit) :
    Prop :=
  r = .ok () (w.machine here (.value s) stack)

/-- The machine has the returns of a call for the work that waits for them. -/
def Returned (here : Option Span) (stack : List Pending) (slots : List Slot) (w : World)
    (r : EStateM.Result Halt Machine Unit) : Prop :=
  r = .ok () (w.machine here (.values slots) stack)

/-- The machine is done with statements. It may still say that it executes the last of them. -/
def Finished (stack : List Pending) (_ : Unit) (w : World) (r : EStateM.Result Halt Machine Unit) :
    Prop :=
  ∃ here, r = .ok () (w.machine here (.run []) stack)

/-- Calling the method fails, if at all, after its variables are there. -/
def Prepared (c : Catalog) (cls : Class) (object : Option Slot) (m : Method) (slots : List Slot) :
    Prop :=
  ∀ w : World, match m.action with
    | .write => ∃ values, (valuesOf slots).on w = .ok values w
    | .run locals _ => ∃ w', (Eval.openScope c cls object m.header locals slots).on w = .ok () w'

/-- Machines do what an evaluator says that has `n` rounds. -/
structure Simulates (c : Catalog) (n : Nat) (E : Evaluator) : Prop where
  expr : ∀ e w here stack,
    Matches c n here (Valued here stack) (.ok () (w.machine here (.eval e) stack)) (E.expr e w)
  block : ∀ body w here base stack,
    Matches c n base (Finished stack) (.ok () (w.machine here (.run body) stack)) (E.block body w)
  again : ∀ source body span w here base stack,
    Matches c n base (Finished stack)
      (.ok () (w.machine here (.run []) (.again source body span :: stack)))
      (E.again source body span w)
  record : ∀ loop target w here base stack,
    Matches c n base (Finished stack)
      (.ok () (w.machine here (.run []) (.recordAgain loop target :: stack)))
      (E.record loop target w)
  items : ∀ loop iterator cls m w here base stack, Prepared c cls (some iterator) m [] →
    Matches c n base (Finished stack)
      (.ok () (w.machine here (.run []) (.itemAgain loop iterator cls m :: stack)))
      (E.items loop iterator cls m w)

section Scopes
variable {c : Catalog} {w w' : World}

/-- Once a method without parameters has got its variables, it gets them in whatever state it is
called. -/
theorem openScope_again {cls : Class} {object : Option Slot} {header : Header} {locals : List Decl}
    (h : (Eval.openScope c cls object header locals []).on w = .ok () w') (v : World) :
    ∃ v', (Eval.openScope c cls object header locals []).on v = .ok () v' := by
  obtain ⟨_, w₁, hset, h⟩ := (setFrame_uniform _).bind_eq_ok h
  obtain ⟨_, w₂, hbind, h⟩ := (bindAll_local _ _).uniform.bind_eq_ok h
  obtain ⟨_, w₃, hlocals, hreturns⟩ := (declare_local _ _).uniform.bind_eq_ok h
  obtain ⟨hparams, rfl⟩ := bindAll_nil_on hbind
  have hempty : w₂.frame.locals = .empty := by
    cases hset
    rfl
  obtain ⟨v₁, hv₁, hv₁'⟩ : ∃ v₁, (setFrame ⟨.empty, object, cls⟩).on v = .ok () v₁ ∧
    v₁.frame.locals = .empty :=
    ⟨_, rfl, rfl⟩
  have hnames : SameNames w₂ v₁ := by
    intro name
    rw [hempty, hv₁']
  obtain ⟨v₂, hv₂, hnames⟩ := declare_of_sameNames hnames hlocals
  obtain ⟨v₃, hv₃, -⟩ := declare_of_sameNames hnames hreturns
  refine ⟨v₃, ?_⟩
  have hbound : (bindAll header.parameters []).on v₁ = .ok () v₁ := by
    rw [hparams]
    rfl
  unfold Eval.openScope
  rw [(setFrame_uniform _).on_bind_of_ok hv₁, (bindAll_local _ _).uniform.on_bind_of_ok hbound,
    (declare_local _ _).uniform.on_bind_of_ok hv₂, hv₃]

/-- The returns of a method are among its variables. -/
theorem openScope_contains {cls : Class} {object : Option Slot} {header : Header}
    {locals : List Decl}
    {slots : List Slot} (h : (Eval.openScope c cls object header locals slots).on w = .ok () w') :
    ∀ d ∈ header.returns, w'.frame.locals.contains d.name = true := by
  obtain ⟨_, _, -, h⟩ := (setFrame_uniform _).bind_eq_ok h
  obtain ⟨_, _, -, h⟩ := (bindAll_local _ _).uniform.bind_eq_ok h
  obtain ⟨_, _, -, h⟩ := (declare_local _ _).uniform.bind_eq_ok h
  exact declare_contains h

end Scopes

section Simulation
variable {c : Catalog} {n : Nat} {E : Evaluator} {here base : Option Span} {task : Task}
    {stack : List Pending}
  {w : World}

/-! ### Calls -/

theorem openScope_uniform (cls : Class) (object : Option Slot) (header : Header)
    (locals : List Decl)
    (slots : List Slot) : Uniform (Eval.openScope c cls object header locals slots) :=
  (setFrame_uniform _).bind fun _ => (bindAll_local _ _).uniform.bind fun _ =>
    (declare_local _ _).uniform.bind fun _ => (declare_local _ _).uniform

theorem openObject_uniform (cls : Class) (object : Slot) (k : Option ConstructorDecl)
    (slots : List Slot) :
    Uniform (Eval.openObject c cls object k slots) := by
  refine (setFrame_uniform _).bind fun _ => ?_
  cases k with
  | none => exact (bindAll_local _ _).uniform.bind fun _ => (populate_local _ _ _).uniform
  | some k =>
    exact (bindAll_local _ _).uniform.bind fun _ => (populate_local _ _ _).uniform.bind fun _ =>
      (declare_local _ _).uniform

/-- A method's variables are there before its body runs. -/
theorem invoke_eq {cls : Class} {object : Option Slot} {m : Method} {slots : List Slot}
    {locals : List Decl}
    {body : List Stmt} (haction : m.action = .run locals body) :
    invoke c cls object m slots =
      note .trace (fun _ => s!"calling {cls.name}.{m.header.print}") >>= fun _ =>
        frame >>= fun f => get >>= fun s => push (.leave m.header.returns f s.here) >>= fun _ =>
          Eval.openScope c cls object m.header locals slots >>= fun _ => setTask (.run body) := by
  simp only [invoke, haction, Eval.openScope, bind_assoc]

theorem invoke_matches (hE : Simulates c n E) (hG : E.Grows) {cls : Class} {object : Option Slot}
    {m : Method}
    {slots : List Slot} (hready : here = base ∨ Prepared c cls object m slots) :
    Matches c n base (Returned here stack)
      ((invoke c cls object m slots).run (w.machine here task stack))
      (Eval.invoke c E cls object m slots w) := by
  unfold Eval.invoke
  cases haction : m.action with
  | write =>
    simp only [invoke, haction]
    refine Matches.act_or (valuesOf_local slots).uniform ?_ fun values w' _ => ?_
    · refine hready.imp_right fun hprepared => ?_
      have hvalues := hprepared w
      rw [haction] at hvalues
      obtain ⟨values, hvalues⟩ := hvalues
      exact ⟨values, w, hvalues⟩
    · exact Matches.act_of_ok (write_local _).uniform rfl (.of_done rfl)
  | run locals body =>
    rw [invoke_eq haction]
    refine Matches.act_of_ok (note_local _ _).uniform (note_on _ _ _) ?_
    generalize noted _ _ w = w₁
    show Matches c n base (Returned here stack)
      ((Eval.openScope c cls object m.header locals slots >>= fun _ => setTask (.run body)).run
        (w₁.machine here task (.leave m.header.returns w₁.frame here :: stack)))
      ((Eval.act (Eval.openScope c cls object m.header locals slots) >>= fun _ =>
        E.block body >>= fun _ =>
        Eval.act (lookupEach m.header.returns) >>= fun returned =>
          Eval.act (setFrame w₁.frame) >>= fun _ =>
          pure returned) w₁)
    refine Matches.act_or (openScope_uniform _ _ _ _ _) ?_ fun _ w₂ hscope => ?_
    · refine hready.imp_right fun hprepared => ?_
      have hscope := hprepared w₁
      rw [haction] at hscope
      obtain ⟨w₂, hscope⟩ := hscope
      exact ⟨(), w₂, hscope⟩
    refine (hE.block body w₂ here base _).bind fun _ w₃ r hblock hfinished => ?_
    obtain ⟨here', rfl⟩ := hfinished
    have hgrows := (hG.block body).frame w₂ () w₃ hblock
    obtain ⟨returned, hreturned⟩ :=
      lookupEach_on fun d hd => hgrows.locals _ (openScope_contains hscope d hd)
    refine Matches.resume ?_
    show Matches c n base (Returned here stack)
      ((lookupEach m.header.returns >>= fun slots => setFrame w₁.frame >>= fun _ =>
        moveTo here >>= fun _ =>
        setTask (.values slots)).run (w₃.machine here' (.run []) stack)) _
    exact Matches.act_of_ok (lookupEach_local _).uniform hreturned (.of_done rfl)

/-- An object's fields and a constructor's variables are there before its body runs. -/
theorem construct_eq {cls : Class} {k : Option ConstructorDecl} {slots : List Slot} :
    construct c cls k slots =
      alloc (.object cls .empty) >>= fun object =>
        note .trace (fun _ => s!"constructing {cls.name}") >>= fun _ =>
        frame >>= fun f => get >>= fun s => push (.built object f s.here) >>= fun _ =>
          Eval.openObject c cls object k slots >>= fun _ =>
            setTask (.run (k.elim [] ConstructorDecl.body)) := by
  cases k <;> simp only [construct, Eval.openObject, bind_assoc, Option.elim]

theorem construct_matches (hE : Simulates c n E) {cls : Class} {k : Option ConstructorDecl}
    {slots : List Slot} :
    Matches c n here (Valued here stack) ((construct c cls k slots).run (w.machine here task stack))
      (Eval.construct c E cls k slots w) := by
  rw [construct_eq]
  refine Matches.act (alloc_local _).uniform fun object w₀ _ => ?_
  refine Matches.act_of_ok (note_local _ _).uniform (note_on _ _ _) ?_
  generalize noted _ _ w₀ = w₁
  show Matches c n here (Valued here stack)
    ((Eval.openObject c cls object k slots >>= fun _ =>
      setTask (.run (k.elim [] ConstructorDecl.body))).run
      (w₁.machine here task (.built object w₁.frame here :: stack)))
    ((Eval.act (Eval.openObject c cls object k slots) >>= fun _ =>
      E.block (k.elim [] ConstructorDecl.body) >>= fun _ =>
      Eval.act (setFrame w₁.frame) >>= fun _ => pure object) w₁)
  refine Matches.act (openObject_uniform _ _ _ _) fun _ w₂ _ => ?_
  refine (hE.block _ w₂ here here _).bind fun _ w₃ r _ hfinished => ?_
  obtain ⟨here', rfl⟩ := hfinished
  exact Matches.resume (.of_done rfl)

/-- Arguments are evaluated one by one, and then used. -/
theorem supply_matches (hE : Simulates c n E) {α : Type}
    {done : α → World → EStateM.Result Halt Machine Unit → Prop}
    {goal : Goal} (use : List Slot → Eval α)
    (huse : ∀ slots w task,
      Matches c n here done ((reach c slots goal).run (w.machine here task stack)) (use slots w))
    (args : List Expr) (before : List Slot) :
    Matches c n here done ((supply c before goal args).run (w.machine here task stack))
      ((Eval.arguments E args >>= fun slots => use (before.reverse ++ slots)) w) := by
  induction args generalizing before w task with
  | nil =>
    show Matches c n here done ((reach c before.reverse goal).run (w.machine here task stack))
      (use (before.reverse ++ []) w)
    rw [List.append_nil]
    exact huse before.reverse w task
  | cons e rest ih =>
    simp only [Eval.arguments, bind_assoc, pure_bind]
    refine (hE.expr e w here (.argument before rest goal :: stack)).bind fun s w' r _ hvalued => ?_
    obtain rfl := hvalued
    refine Matches.deliver ?_
    show Matches c n here done
      ((supply c (s :: before) goal rest).run (w'.machine here (.value s) stack)) _
    simpa only [List.reverse_cons, List.append_assoc, List.singleton_append] using ih (s :: before)

theorem call_matches (hE : Simulates c n E) (hG : E.Grows) (call : Call) (targets : Nat) :
    Matches c n here (Returned here stack)
      ((supply c [] (.call call.object call.method targets) call.arguments).run
        (w.machine here task stack))
      (Eval.call c E call targets w) := by
  refine supply_matches hE
    (fun slots => Eval.act (callee c call.object call.method targets slots) >>= fun t =>
    Eval.invoke c E t.cls t.object t.method slots) (fun slots w task => ?_) call.arguments []
  rw [reach_call_eq]
  exact Matches.act (callee_local _ _ _ _ _).uniform fun t w' _ => invoke_matches hE hG (.inl rfl)

theorem create_matches (hE : Simulates c n E) (cls : Class) (args : List Expr) :
    Matches c n here (Valued here stack)
      ((supply c [] (.create cls) args).run (w.machine here task stack))
      (Eval.create c E cls args w) := by
  refine supply_matches hE
    (fun slots => Eval.act (maker c cls slots) >>= fun k => Eval.construct c E cls k slots)
    (fun slots w task => ?_) args []
  rw [reach_create_eq]
  exact Matches.act (maker_local _ _ _).uniform fun k w' _ => construct_matches hE

/-! ### Expressions -/

theorem expr_matches (hE : Simulates c n E) (hG : E.Grows) (e : Expr) :
    Matches c n here (Valued here stack) ((evaluate c e).run (w.machine here task stack))
      (Eval.expr c E e w) := by
  cases e with
  | number value => exact Matches.act_last (alloc_local _).uniform fun _ _ _ => rfl
  | text value => exact Matches.act_last (alloc_local _).uniform fun _ _ _ => rfl
  | truth value => exact Matches.act_last (alloc_local _).uniform fun _ _ _ => rfl
  | character value => exact Matches.act_last (alloc_local _).uniform fun _ _ _ => rfl
  | «variable» name => exact Matches.act_last (lookup_local _).uniform fun _ _ _ => rfl
  | not operand =>
    refine (hE.expr operand w here (.negate :: stack)).bind fun s w' r _ hvalued => ?_
    obtain rfl := hvalued
    refine Matches.deliver (Matches.act (cell_local s).uniform fun v w'' _ => ?_)
    cases v with
    | truth value => exact Matches.act_last (alloc_local _).uniform fun _ _ _ => rfl
    | _ => exact Matches.fault
  | binary op left right =>
    refine (hE.expr left w here (.left op left right :: stack)).bind fun l w' r _ hvalued => ?_
    obtain rfl := hvalued
    refine Matches.deliver ?_
    refine (hE.expr right w' here (.right op left right l :: stack)).bind
      fun s w'' r _ hvalued => ?_
    obtain rfl := hvalued
    refine Matches.deliver ?_
    have hright : deliver c s (.right op left right l) =
        (do orFault (op.apply (.binary op left right) (← cell l) (← cell s))) >>= give := by
      simp only [deliver, bind_assoc]
    rw [hright]
    refine Matches.act ?_ fun result w₃ _ =>
      Matches.act_last (alloc_local _).uniform fun _ _ _ => rfl
    exact (cell_local l).uniform.bind fun _ => (cell_local s).uniform.bind fun _ =>
      (orFault_local _).uniform
  | call object method args =>
    refine (call_matches hE hG ⟨object, method, args⟩ 0).bind fun slots w' r _ hreturned => ?_
    obtain rfl := hreturned
    refine Matches.deliverAll ?_
    cases slots with
    | nil => exact Matches.fault
    | cons s rest => exact .of_done rfl
  | create name args =>
    unfold evaluate Eval.expr
    cases hcls : c.class? name with
    | none =>
      simp only [hcls]
      exact Matches.fault
    | some cls =>
      simp only [hcls]
      exact create_matches hE cls args

/-! ### Loops -/

theorem again_matches (hE : Simulates c n E) (source : Expr) (body : List Stmt) (span : Span) :
    Matches c n base (Finished stack)
      (.ok () (w.machine (some span) (.eval source) (.test source body span :: stack)))
      (Eval.again E source body span w) := by
  refine Matches.within ?_
  refine (hE.expr source w (some span) (.test source body span :: stack)).bind
    fun s w' r _ hvalued => ?_
  obtain rfl := hvalued
  refine Matches.deliver (Matches.act (truthOf_local source s).uniform fun value w'' _ => ?_)
  cases value with
  | false => exact .of_done ⟨some span, rfl⟩
  | true =>
    refine (hE.block body w'' (some span) (some span) (.again source body span :: stack)).bind ?_
    rintro _ w₃ r _ ⟨here', rfl⟩
    exact hE.again source body span w₃ here' (some span) stack

theorem recordCondition_matches (hE : Simulates c n E) (loop : Loop) (target s : Slot) :
    Matches c n (some loop.span) (Finished stack)
      ((recordCondition loop target s).run (w.machine (some loop.span) task stack))
      (Eval.recordCondition E loop target s w) := by
  refine Matches.act (cell_local s).uniform fun v w' _ => ?_
  cases v with
  | truth value =>
    refine Matches.act (assign_local target s).uniform fun _ w'' _ => ?_
    cases value with
    | false => exact .of_done ⟨some loop.span, rfl⟩
    | true =>
      refine (hE.block loop.body w'' (some loop.span) (some loop.span)
        (.recordAgain loop target :: stack)).bind ?_
      rintro _ w₃ r _ ⟨here', rfl⟩
      exact hE.record loop target w₃ here' (some loop.span) stack
  | _ => exact Matches.fault

theorem record_matches (hE : Simulates c n E) (loop : Loop) (target : Slot) :
    Matches c n base (Finished stack)
      (.ok () (w.machine (some loop.span) (.eval loop.source) (.record loop target :: stack)))
      (Eval.record E loop target w) := by
  refine Matches.within ?_
  refine (hE.expr loop.source w (some loop.span) (.record loop target :: stack)).bind
    fun s w' r _ hvalued => ?_
  obtain rfl := hvalued
  exact Matches.deliver (recordCondition_matches hE loop target s)

/-- A `getNext` that was called once gets its variables every time. -/
theorem prepared_of_invoke {cls : Class} {object : Option Slot} {m : Method} {slots : List Slot}
    {w' : World}
    (h : Eval.invoke c E cls object m [] w = .ok slots w') : Prepared c cls object m [] := by
  intro v
  unfold Eval.invoke at h
  cases haction : m.action with
  | write => exact ⟨[], rfl⟩
  | run locals body =>
    rw [haction] at h
    obtain ⟨_, _, -, h⟩ := Eval.bind_eq_ok h
    obtain ⟨_, _, -, h⟩ := Eval.bind_eq_ok h
    obtain ⟨_, _, hscope, -⟩ := Eval.bind_eq_ok h
    exact openScope_again (Eval.act_eq_ok hscope) v

/-- From the second item on, the machine still says that it executes the loop's body when it asks
for an item. Nothing can halt before `getNext` runs then. -/
theorem items_matches (hE : Simulates c n E) (hG : E.Grows) (loop : Loop) (iterator : Slot)
    (cls : Class)
    (m : Method) (hready : here = some loop.span ∨ Prepared c cls (some iterator) m []) :
    Matches c n base (Finished stack)
      ((askNext c loop iterator cls m).run (w.machine here task stack))
      (Eval.items c E loop iterator cls m w) := by
  refine Matches.within
    (Matches.push ((invoke_matches hE hG hready).bind fun slots w' r hinvoke hreturned => ?_))
  obtain rfl := hreturned
  refine Matches.deliverAll (Matches.moveTo ?_)
  rcases slots with _ | ⟨more, _ | ⟨item, rest⟩⟩
  · exact Matches.stuck
  · exact Matches.stuck
  refine Matches.act (cell_local more).uniform fun v w'' _ => ?_
  cases v with
  | truth value =>
    cases value with
    | false => exact .of_done ⟨some loop.span, rfl⟩
    | true =>
      refine Matches.act (storeItem_local loop.name iterator item).uniform fun _ w₃ _ => ?_
      refine (hE.block loop.body w₃ (some loop.span) (some loop.span)
        (.itemAgain loop iterator cls m :: stack)).bind ?_
      -- The body leaves the machine at some other place; this call having got its variables, the
      -- next one cannot halt before it runs.
      rintro _ w₄ r _ ⟨here', rfl⟩
      exact hE.items loop iterator cls m w₄ here' (some loop.span) stack
        (prepared_of_invoke hinvoke)
  | _ => exact Matches.fault

theorem iterate_matches (hE : Simulates c n E) (hG : E.Grows) (loop : Loop) (iterator : Slot)
    (cls : Class) :
    Matches c n (some loop.span) (Finished stack)
      ((iterate c loop iterator cls).run (w.machine (some loop.span) task stack))
      (Eval.iterate c E loop iterator cls w) := by
  unfold iterate Eval.iterate
  cases cls.implements "iterator" with
  | false => exact Matches.fault
  | true =>
    cases cls.getNext? with
    | none => exact Matches.fault
    | some getNext => exact items_matches hE hG loop iterator cls getNext (.inl rfl)

theorem loopOver_matches (hE : Simulates c n E) (hG : E.Grows) (loop : Loop) (target s : Slot) :
    Matches c n (some loop.span) (Finished stack)
      ((deliver c s (.source loop target)).run (w.machine (some loop.span) task stack))
      (Eval.loopOver c E loop target s w) := by
  refine Matches.act (cell_local s).uniform fun v w' _ => ?_
  cases v with
  | object cls fields => exact iterate_matches hE hG loop s cls
  | _ =>
    refine Matches.act (cell_local target).uniform fun v w'' _ => ?_
    cases v with
    | object cls fields => exact iterate_matches hE hG loop target cls
    | _ => exact recordCondition_matches hE loop target s

/-! ### Statements -/

theorem stmt_matches (hE : Simulates c n E) (hG : E.Grows) (s : Stmt) :
    Matches c n base (Finished stack) ((execute c s).run (w.machine here task stack))
      (Eval.stmt c E s w) := by
  cases s with
  | assign target value span =>
    refine Matches.within
      (Matches.moveTo (Matches.act (lookup_local target).uniform fun t w' _ => ?_))
    refine (hE.expr value w' (some span) (.store t :: stack)).bind fun s w'' r _ hvalued => ?_
    obtain rfl := hvalued
    exact Matches.deliver
      (Matches.act_last (assign_local t s).uniform fun _ w₃ _ => ⟨some span, rfl⟩)
  | call call targets span =>
    refine Matches.within (Matches.moveTo (Matches.push ?_))
    refine (call_matches hE hG call targets.length).bind fun slots w' r _ hreturned => ?_
    obtain rfl := hreturned
    exact Matches.deliverAll (Matches.moveTo (Matches.act_last (storeEach_local _ _ _).uniform
      fun _ w'' _ => ⟨some span, rfl⟩))
  | loop name source body span =>
    cases name with
    | none => exact again_matches hE source body span
    | some name =>
      refine Matches.within
        (Matches.moveTo (Matches.act (lookup_local name).uniform fun t w' _ => ?_))
      refine (hE.expr source w' (some span) (.source ⟨name, source, body, span⟩ t :: stack)).bind ?_
      intro s w'' r _ hvalued
      obtain rfl := hvalued
      exact Matches.deliver (loopOver_matches hE hG ⟨name, source, body, span⟩ t s)
  | branch condition yes no span =>
    refine Matches.within ?_
    refine (hE.expr condition w (some span) (.choose condition yes no :: stack)).bind
      fun s w' r _ hvalued => ?_
    obtain rfl := hvalued
    refine Matches.deliver (Matches.act (truthOf_local condition s).uniform fun value w'' _ => ?_)
    cases value with
    | false => exact hE.block (no.getD []) w'' (some span) (some span) stack
    | true => exact hE.block yes w'' (some span) (some span) stack

end Simulation

/-! ### Rounds -/

theorem exhausted_simulates (c : Catalog) : Simulates c 0 .exhausted :=
  ⟨fun _ _ _ _ => ⟨_, rfl⟩, fun _ _ _ _ _ => ⟨_, rfl⟩, fun _ _ _ _ _ _ _ =>
    ⟨_, rfl⟩, fun _ _ _ _ _ _ => ⟨_, rfl⟩,
    fun _ _ _ _ _ _ _ _ _ => ⟨_, rfl⟩⟩

theorem next_simulates {c : Catalog} {n : Nat} {E : Evaluator} (hE : Simulates c n E)
    (hG : E.Grows) :
    Simulates c (n + 1) (.next c E) where
  expr e w here stack := Matches.step (expr_matches hE hG e)
  block body w here base stack := by
    cases body with
    | nil => exact .of_done ⟨here, rfl⟩
    | cons s rest =>
      refine Matches.step ?_
      show Matches c n base _
        ((execute c s).run (w.machine here (.run (s :: rest)) (.rest rest :: stack))) _
      refine (stmt_matches hE hG s).bind ?_
      rintro _ w' r _ ⟨here', rfl⟩
      exact Matches.resume (hE.block rest w' here' base stack)
  again source body span w here base stack := Matches.step (again_matches hE source body span)
  record loop target w here base stack := Matches.step (record_matches hE loop target)
  items loop iterator cls m w here base stack hprepared :=
  Matches.step (items_matches hE hG loop iterator cls m (.inr hprepared))

theorem ofRounds_simulates (c : Catalog) (rounds : Nat) :
    Simulates c rounds (.ofRounds c rounds) := by
  induction rounds with
  | zero => exact exhausted_simulates c
  | succ rounds ih => exact next_simulates ih (Evaluator.ofRounds_grows c rounds)

/-! ### Whole runs -/

theorem enter_matches (c : Catalog) (rounds : Nat) (w : World) :
    Matches c rounds none (Returned none []) (.ok () (w.machine none .enter []))
      (Eval.enter c (.ofRounds c rounds) w) := by
  refine Matches.free ?_
  show Matches c rounds none _ ((enter c).run (w.machine none .enter [])) _
  unfold enter Eval.enter
  cases c.entry? with
  | none => exact Matches.fault
  | some entry =>
    exact Matches.act (note_local _ _).uniform fun _ w' _ =>
      invoke_matches (ofRounds_simulates c rounds) (Evaluator.ofRounds_grows c rounds) (.inl rfl)

theorem Machine.run_eq_advance (c : Catalog) (bound : Nat) (m : Machine) :
    (advance c)^[bound] (.ok () m) = match m.run c bound with
      | (m', none) => .ok () m'
      | (m', some h) => .error h m' := by
  induction bound generalizing m with
  | zero => rfl
  | succ bound ih =>
    show (advance c)^[bound] ((step c).run m) = _
    unfold Machine.run
    cases (step c).run m with
    | ok u m' => exact ih m'
    | error h m' => exact advance_error h m'

theorem Machine.run_eq_some {c : Catalog} {bound : Nat} {m m' : Machine} {h : Halt} :
    m.run c bound = (m', some h) ↔ (advance c)^[bound] (.ok () m) = .error h m' := by
  rw [Machine.run_eq_advance]
  obtain ⟨m'', _ | h'⟩ := m.run c bound <;> simp [and_comm]

theorem Machine.run_eq_none {c : Catalog} {bound : Nat} {m m' : Machine} :
    m.run c bound = (m', none) ↔ (advance c)^[bound] (.ok () m) = .ok () m' := by
  rw [Machine.run_eq_advance]
  obtain ⟨m'', _ | h'⟩ := m.run c bound <;> simp

section Parts
variable {c : Catalog} {n : Nat} {E : Evaluator} {w w' : World}

/-- A machine comes to the value of an expression, whatever waits for it. -/
theorem Simulates.run_expr (hE : Simulates c n E) {e : Expr} {s : Slot} (h : E.expr e w = .ok s w')
    (here : Option Span) (stack : List Pending) :
    ∃ k, (w.machine here (.eval e) stack).run c k = (w'.machine here (.value s) stack, none) := by
  have hmatches := hE.expr e w here stack
  rw [h] at hmatches
  obtain ⟨k, hk⟩ := hmatches
  exact ⟨k, Machine.run_eq_none.mpr hk⟩

/-- A machine comes to the end of statements, whatever waits for that. -/
theorem Simulates.run_block (hE : Simulates c n E) {body : List Stmt} (h : E.block body w = .ok () w')
    (here : Option Span) (stack : List Pending) :
    ∃ k here', (w.machine here (.run body) stack).run c k = (w'.machine here' (.run []) stack, none) := by
  have hmatches := hE.block body w here none stack
  rw [h] at hmatches
  obtain ⟨k, here', hk⟩ := hmatches
  exact ⟨k, here', Machine.run_eq_none.mpr hk⟩

end Parts

section Ending
variable {c : Catalog} {w w' : World} {error : Option RuntimeError}

/-- A machine that starts to run ends as an evaluation does. -/
theorem run_of_ending {rounds : Nat}
    (h : Eval.ending (Eval.enter c (.ofRounds c rounds) w) = some (error, w')) :
    ∃ k h m, (advance c)^[k] (.ok () (w.machine none .enter [])) = .error h m ∧ m.error? h = error ∧
      m.world = w' := by
  have hmatches := enter_matches c rounds w
  cases hres : Eval.enter c (.ofRounds c rounds) w with
  | ok slots w'' =>
    rw [hres] at h hmatches
    cases h
    obtain ⟨k, hk⟩ := hmatches
    refine ⟨k + 1, .finished, w'.machine none (.values slots) [], ?_, rfl, rfl⟩
    rw [Function.iterate_succ_apply']
    exact congrArg (advance c) hk
  | error stop w'' =>
    rw [hres] at h hmatches
    cases stop with
    | exhausted => cases h
    | halt reason place =>
      cases h
      obtain ⟨k, task, stack, hk⟩ := hmatches
      refine ⟨k, reason, _, hk, ?_, rfl⟩
      rw [Option.or_none]
      cases reason <;> rfl

/-- An evaluation with as many rounds as a machine has steps ends as the machine does. -/
theorem ending_of_run {bound : Nat} {h : Halt} {m : Machine}
    (hrun : (advance c)^[bound] (.ok () (w.machine none .enter [])) = .error h m) :
    Eval.ending (Eval.enter c (.ofRounds c bound) w) = some (m.error? h, m.world) := by
  cases hend : Eval.ending (Eval.enter c (.ofRounds c bound) w) with
  | some e =>
    obtain ⟨k, h', m', hk, herror, hworld⟩ := run_of_ending hend
    obtain ⟨rfl, rfl⟩ := advance_error_unique hrun hk
    rw [herror, hworld]
  | none =>
    have hmatches := enter_matches c bound w
    cases hres : Eval.enter c (.ofRounds c bound) w with
    | ok slots w'' =>
      rw [hres] at hend
      cases hend
    | error stop w'' =>
      rw [hres] at hend hmatches
      cases stop with
      | halt reason place => cases hend
      | exhausted =>
        obtain ⟨m', hm'⟩ := hmatches
        rw [hrun] at hm'
        cases hm'

end Ending

section Program
variable {p : Program} {o : Outcome}

theorem go_of_evaluate {rounds times : Nat} {error : Option RuntimeError} {m : Machine}
    (h : Program.evaluate.go p rounds times error m.world = some o) :
    ∃ k, ∀ bound, k ≤ bound → Program.run.go p bound times error m = some o := by
  induction times generalizing error m with
  | zero => exact ⟨0, fun _ _ => h⟩
  | succ times ih =>
    unfold Program.evaluate.go at h
    split at h
    · cases h
    · rename_i error' w' hend
      obtain ⟨k, reason, m', hk, rfl, rfl⟩ := run_of_ending hend
      obtain ⟨k', hk'⟩ := ih h
      refine ⟨max k k', fun bound hbound => ?_⟩
      have hrun : m.restart.run (.ofProgram p) bound = (m', some reason) := by
        refine Machine.run_eq_some.2 ?_
        obtain ⟨more, rfl⟩ := Nat.exists_eq_add_of_le' (Nat.le_trans (Nat.le_max_left k k') hbound)
        rw [Function.iterate_add_apply]
        exact (congrArg _ hk).trans (advance_error reason m')
      unfold Program.run.go
      rw [hrun]
      exact hk' bound (Nat.le_trans (Nat.le_max_right k k') hbound)

theorem evaluate_of_go {bound times : Nat} {error : Option RuntimeError} {m : Machine}
    (h : Program.run.go p bound times error m = some o) :
    Program.evaluate.go p bound times error m.world = some o := by
  induction times generalizing error m with
  | zero => exact h
  | succ times ih =>
    unfold Program.run.go at h
    split at h
    · cases h
    · rename_i m' reason hrun
      unfold Program.evaluate.go
      have hend := ending_of_run (w := m.world.restart) (Machine.run_eq_some.1 hrun)
      rw [hend]
      exact ih h

end Program

/-- A run comes to what the evaluation comes to: the same records, the same error, if any, at the
innermost statement that was executed, if any was, and the same log. -/
theorem run_iff_evaluate (p : Program) (threshold : Level) (times : Nat) (o : Outcome) :
    (∃ bound, p.run threshold bound times = some o) ↔
    ∃ rounds, p.evaluate threshold rounds times = some o := by
  constructor
  · rintro ⟨bound, h⟩
    exact ⟨bound, evaluate_of_go h⟩
  · rintro ⟨rounds, h⟩
    obtain ⟨k, hk⟩ := go_of_evaluate (m := Machine.start threshold) h
    exact ⟨k, hk k (Nat.le_refl k)⟩

end Offside
