import Offside.Proofs.Machine.Hidden

/-! The slots of a scope's variables while its statements run.

A local variable has the same slot all the time, with one exception: a loop over an iterator that is in its
own variable gives that variable another. Either way a variable that was declared in its scope, and is not
one of the parameters, has a slot that is newer than the call and is no object's field. So what a method
returns in such a variable is in a slot that its caller cannot know. -/
namespace Offside

namespace Heap

variable {h h' : Heap} {s : Nat}

/-- An old slot does not become a field. -/
theorem Unowned.edits (hs : h.Unowned s) (ho : h.Owned) (he : Edits h h') : h'.Unowned s := by
  refine ⟨Nat.lt_of_lt_of_le hs.lt he.grows, fun object name hholds => ?_⟩
  exact hs.free object name (he.holds_old ho hs.lt hholds)

/-- A new slot is newer than all others, and no field. -/
theorem Owned.unowned_store (ho : h.Owned) (v : Value) :
    h.size ≤ (h.store v).1 ∧ (h.store v).2.Unowned (h.store v).1 := by
  have hx := store_extends h v
  have hroot : (h.store v).1 ∈ [(h.store v).1] := List.mem_singleton_self _
  obtain ⟨hge, hlt⟩ := hx.range hroot
  refine ⟨hge, hlt, fun object name hholds => ?_⟩
  by_cases hold : object < h.size
  · exact Nat.not_lt_of_le hge (ho.inside ((holds_congr (hx.keeps hold)).mp hholds))
  · exact hx.unowned hroot (Nat.le_of_not_lt hold) hholds

theorem Owned.unowned_alloc (ho : h.Owned) {cell : Cell} (hc : cell.fields = []) :
    (h.alloc cell).2.Unowned h.size := by
  obtain ⟨v, hv⟩ := alloc_eq_store hc
  have hstored := (ho.unowned_store v).2
  rw [← hv] at hstored
  exact hstored

end Heap

/-- The heap is edited, and each local variable has the slot that it had, or a new one that is no field. -/
structure World.Renews (w w' : World) : Prop where
  edits : Heap.Edits w.heap w'.heap
  locals : ∀ name s, w'.frame.locals.get? name = some s →
    w.frame.locals.get? name = some s ∨ w.heap.size ≤ s ∧ w'.heap.Unowned s

namespace World.Renews

variable {w w' w'' : World}

theorem of_edits (he : Heap.Edits w.heap w'.heap) (hf : w'.frame = w.frame) : w.Renews w' :=
  ⟨he, fun _ _ hs => .inl (hf ▸ hs)⟩

theorem owned (h : w.Renews w') (ho : w.heap.Owned) : w'.heap.Owned := ho.edits h.edits

theorem trans (h : w.Renews w') (ho : w.heap.Owned) (h' : w'.Renews w'') : w.Renews w'' := by
  refine ⟨h.edits.trans h'.edits, fun name s hs => ?_⟩
  rcases h'.locals name s hs with hkept | ⟨hge, hfree⟩
  · rcases h.locals name s hkept with hold | ⟨hge, hfree⟩
    · exact .inl hold
    · exact .inr ⟨hge, hfree.edits (h.owned ho) h'.edits⟩
  · exact .inr ⟨Nat.le_trans h.edits.grows hge, hfree⟩

end World.Renews

/-! ### Actions -/

namespace Exec

variable {α β : Type} {c : Catalog}

def Renews (x : Exec α) : Prop := ∀ w a w', x.on w = .ok a w' → w.heap.Owned → w.Renews w'

theorem Renews.bind {x : Exec α} {f : α → Exec β} (hu : Uniform x) (hx : Renews x) (hf : ∀ a, Renews (f a)) :
    Renews (x >>= f) := by
  intro w b w'' h ho
  obtain ⟨a, w', ha, hb⟩ := hu.bind_eq_ok h
  have hfirst := hx w a w' ha ho
  exact hfirst.trans ho (hf a w' b w'' hb (hfirst.owned ho))

theorem Looks.renews {x : Exec α} (hx : Looks x) : Renews x := by
  intro w a w' h _
  obtain ⟨log, rfl⟩ := hx.same w a w' h
  exact .of_edits .refl rfl

theorem assign_renews (target source : Slot) : Renews (assign target source) := by
  intro w _ w' h _
  obtain ⟨u, hu, rfl⟩ := assign_on h
  exact .of_edits (.single (.assign hu)) rfl

theorem renews_insert {w w' : World} {name : String} {t : Slot} (he : Heap.Edits w.heap w'.heap)
    (hf : w'.frame.locals = w.frame.locals.insert name t) (hge : w.heap.size ≤ t) (ht : w'.heap.Unowned t) :
    w.Renews w' := by
  refine ⟨he, fun other s hs => ?_⟩
  rw [hf] at hs
  by_cases hname : other = name
  · subst hname
    rw [Bindings.get?_insert_self] at hs
    cases hs
    exact .inr ⟨hge, ht⟩
  · rw [Bindings.get?_insert_of_ne hname] at hs
    exact .inl hs

/-- Only parameters are bound. -/
theorem bindAll_names {params : List Decl} {slots : List Slot} {w w' : World}
    (h : (bindAll params slots).on w = .ok () w') :
    w'.heap = w.heap ∧ ∀ name, name ∉ params.map Decl.name →
      w'.frame.locals.get? name = w.frame.locals.get? name := by
  have heach : ∀ params slots w, (bindEach params slots).on w = .ok () w' → w'.heap = w.heap ∧
      ∀ name, name ∉ params.map Decl.name → w'.frame.locals.get? name = w.frame.locals.get? name := by
    intro params
    induction params with
    | nil =>
      intro slots w h
      cases h
      exact ⟨rfl, fun _ _ => rfl⟩
    | cons p params ih =>
      intro slots w h
      cases slots with
      | nil =>
        cases h
        exact ⟨rfl, fun _ _ => rfl⟩
      | cons s slots =>
        obtain ⟨_, w₁, hset, hrest⟩ := (setLocal_local p.name s).uniform.bind_eq_ok h
        cases hset
        obtain ⟨hheap, hnames⟩ := ih slots _ hrest
        refine ⟨hheap, fun name hname => ?_⟩
        rw [List.map_cons] at hname
        rw [hnames name (List.not_mem_of_not_mem_cons hname)]
        exact Bindings.get?_insert_of_ne (List.ne_of_not_mem_cons hname)
  unfold bindAll at h
  split at h
  · cases h
  · exact heach params slots w h

theorem declare_renews (decls : List Decl) : Renews (declare c decls) := by
  induction decls with
  | nil => exact (pure_looks _).renews
  | cons d rest ih =>
    intro w _ w' h ho
    rw [declare_cons_on] at h
    split at h
    · exact ih w _ w' h ho
    · split at h
      · rename_i cell hinitial
        have hfields := initial_fields hinitial
        obtain ⟨v, hv⟩ := Heap.alloc_eq_store hfields
        have hedits : Heap.Edits w.heap (w.heap.alloc cell).2 := by
          rw [hv]
          exact .single (.store v)
        exact (renews_insert hedits rfl (Nat.le_refl _) (ho.unowned_alloc hfields)).trans ho
          (ih _ _ w' h (ho.edits hedits))
      · cases h

theorem storeEach_renews (shortfall : Unit → String) (names : List String) (slots : List Slot) :
    Renews (storeEach shortfall names slots) := by
  induction names generalizing slots with
  | nil => exact (pure_looks _).renews
  | cons name names ih =>
    cases slots with
    | nil => exact (note_looks _ _).renews
    | cons t slots =>
      exact (lookup_looks name).renews.bind (lookup_local name).uniform fun target =>
        (assign_renews target t).bind (assign_local _ _).uniform fun _ => ih slots

theorem on_edits {x : Exec α} {w w' : World} {a : α} (hx : Edits [] x) (h : x.on w = .ok a w') :
    Heap.Edits w.heap w'.heap := by
  obtain ⟨m', hrun, rfl⟩ := on_eq_ok h
  have hedits := hx (w.machine none .enter []) (List.forall_mem_nil _)
  rw [after_of_ok hrun] at hedits
  exact hedits

theorem copy_on {s t : Slot} {w w' : World} (h : (copy s).on w = .ok t w') :
    ∃ v, t = (w.heap.store v).1 ∧ w' = { w with heap := (w.heap.store v).2 } := by
  obtain ⟨m', hrun, rfl⟩ := on_eq_ok h
  obtain ⟨v, ht, rfl⟩ := copy_run hrun
  exact ⟨v, ht, rfl⟩

theorem setField_frame {object t : Slot} {name : String} {w w' : World}
    (h : (setField object name t).on w = .ok () w') : w'.frame = w.frame := by
  obtain ⟨v, w₁, hcell, h⟩ := (cell_local object).uniform.bind_eq_ok h
  obtain ⟨log, rfl⟩ := (cell_looks object).same w v w₁ hcell
  cases v with
  | object cls fields =>
    cases h
    rfl
  | _ => cases h

/-- A local variable gets the slot, or the scope stays as it is. -/
theorem rebind_on {name : String} {t : Slot} {w w' : World} (h : (rebind name t).on w = .ok () w') :
    w' = { w with frame := { w.frame with locals := w.frame.locals.insert name t } } ∨ w'.frame = w.frame := by
  change (if w.frame.locals.contains name then setLocal name t
    else orStuck w.frame.object >>= fun object => setField object name t).on w = _ at h
  split at h
  · cases h
    exact .inl rfl
  · cases hobject : w.frame.object with
    | none =>
      rw [hobject] at h
      cases h
    | some object =>
      rw [hobject] at h
      exact .inr (setField_frame h)

theorem storeItem_renews (name : String) (iterator item : Slot) : Renews (storeItem name iterator item) := by
  intro w _ w' h ho
  have hedits := on_edits storeItem_edits h
  obtain ⟨target, w₁, hlookup, h⟩ := (lookup_local name).uniform.bind_eq_ok h
  obtain ⟨log, rfl⟩ := (lookup_looks name).same w target w₁ hlookup
  split at h
  · -- The variable holds the iterator, and gets a slot with a copy of the item.
    obtain ⟨t, w₂, hcopy, h⟩ := (copy_local item).uniform.bind_eq_ok h
    obtain ⟨v, rfl, rfl⟩ := copy_on hcopy
    obtain ⟨hge, hfree⟩ := ho.unowned_store v
    rcases rebind_on h with rfl | hframe
    · exact renews_insert hedits rfl hge hfree
    · exact .of_edits hedits hframe
  · obtain ⟨u, hu, rfl⟩ := assign_on h
    exact .of_edits hedits rfl

end Exec

/-! ### Evaluations -/

namespace Eval

open Exec

variable {α β : Type} {c : Catalog} {E : Evaluator}

def Renews (x : Eval α) : Prop := ∀ w a w', x w = .ok a w' → w.heap.Owned → w.Renews w'

theorem Renews.bind {x : Eval α} {f : α → Eval β} (hx : Renews x) (hf : ∀ a, Renews (f a)) : Renews (x >>= f) := by
  intro w b w'' h ho
  obtain ⟨a, w', ha, hb⟩ := bind_eq_ok h
  have hfirst := hx w a w' ha ho
  exact hfirst.trans ho (hf a w' b w'' hb (hfirst.owned ho))

theorem act_renews {x : Exec α} (hx : Exec.Renews x) : Renews (act x) := fun w a w' h => hx w a w' (act_eq_ok h)

theorem looks_renews {x : Exec α} (hx : Looks x) : Renews (act x) := act_renews hx.renews

theorem pure_renews (a : α) : Renews (pure a) := by
  intro w b w' h _
  cases h
  exact .of_edits .refl rfl

theorem Renews.within {span : Span} {x : Eval α} (hx : Renews x) : Renews (within span x) := by
  intro w a w' h
  exact hx w a w' (within_eq_ok h)

end Eval

/-- An evaluator all of whose parts keep the slots of variables or give them new ones. -/
structure Evaluator.Renews (E : Evaluator) : Prop where
  expr : ∀ e, Eval.Renews (E.expr e)
  block : ∀ body, Eval.Renews (E.block body)
  again : ∀ source body span, Eval.Renews (E.again source body span)
  record : ∀ loop target, Eval.Renews (E.record loop target)
  items : ∀ loop iterator cls m, Eval.Renews (E.items loop iterator cls m)

/-! ### Returns -/

namespace Exec

variable {w w' : World} {name : String} {s : Slot}

theorem lookup_same (h : (lookup name).on w = .ok s w') : w' = w := by
  obtain ⟨m', hrun, rfl⟩ := on_eq_ok h
  rw [(lookup_run hrun).1]
  rfl

/-- A local variable is looked up where it is. -/
theorem get?_of_lookup (hlocal : w.frame.locals.contains name = true) (h : (lookup name).on w = .ok s w') :
    w.frame.locals.get? name = some s := by
  obtain ⟨t, ht⟩ := Option.isSome_iff_exists.mp hlocal
  rw [lookup_on ht] at h
  cases h
  exact ht

theorem lookupEach_eq_ok {decls : List Decl} {slots : List Slot} (h : (lookupEach decls).on w = .ok slots w') :
    w' = w ∧ List.Forall₂ (fun d s => (lookup d.name).on w = .ok s w) decls slots := by
  induction decls generalizing slots w' with
  | nil =>
    cases h
    exact ⟨rfl, .nil⟩
  | cons d rest ih =>
    obtain ⟨s, w₁, hs, hrest⟩ := (lookup_local d.name).uniform.bind_eq_ok h
    obtain rfl := lookup_same hs
    obtain ⟨others, w₂, hothers, hpure⟩ := (lookupEach_local rest).uniform.bind_eq_ok hrest
    obtain ⟨rfl, heach⟩ := ih hothers
    cases hpure
    exact ⟨rfl, .cons hs heach⟩

end Exec

namespace Eval

open Exec

/-- What a call of a method that has a body does. -/
structure Invoked (c : Catalog) (E : Evaluator) (cls : Class) (object : Option Slot) (m : Method)
    (locals : List Decl) (body : List Stmt) (slots returned : List Slot) (w w₁ w₂ w' : World) : Prop where
  action : m.action = .run locals body
  opens : (openScope c cls object m.header locals slots).on
    (noted .trace (fun _ => s!"calling {cls.name}.{m.header.print}") w) = .ok () w₁
  runs : E.block body w₁ = .ok () w₂
  returns : (lookupEach m.header.returns).on w₂ = .ok returned w₂
  leaves : w' = { w₂ with frame := w.frame }

variable {c : Catalog} {E : Evaluator} {cls : Class} {object : Option Slot} {m : Method} {locals : List Decl}
  {body : List Stmt} {slots returned : List Slot} {w w₁ w₂ w' : World}

theorem invoke_run (haction : m.action = .run locals body)
    (h : invoke c E cls object m slots w = .ok returned w') :
    ∃ w₁ w₂, Invoked c E cls object m locals body slots returned w w₁ w₂ w' := by
  unfold invoke at h
  rw [haction] at h
  obtain ⟨_, w₀, hnote, h⟩ := bind_eq_ok h
  cases (note_on ..).symm.trans (act_eq_ok hnote)
  obtain ⟨caller, _, hcaller, h⟩ := bind_eq_ok h
  cases hcaller
  obtain ⟨_, w₁, hopen, h⟩ := bind_eq_ok h
  obtain ⟨_, w₂, hblock, h⟩ := bind_eq_ok h
  obtain ⟨slots', w₃, hlookup, h⟩ := bind_eq_ok h
  obtain ⟨_, w₄, hset, h⟩ := bind_eq_ok h
  cases hset
  cases h
  obtain ⟨rfl, -⟩ := lookupEach_eq_ok (act_eq_ok hlookup)
  refine ⟨w₁, w₃, haction, act_eq_ok hopen, hblock, act_eq_ok hlookup, ?_⟩
  exact congrArg (fun frame => ({ w₃ with frame } : World)) (noted_frame ..)

/-- The variables of a new scope that are no parameters have slots that are newer than the call. -/
theorem openScope_new {header : Header} (ho : w.heap.Owned)
    (h : (openScope c cls object header locals slots).on w = .ok () w') :
    Heap.Edits w.heap w'.heap ∧ ∀ name s, name ∉ header.parameters.map Decl.name →
      w'.frame.locals.get? name = some s → w.heap.size ≤ s ∧ w'.heap.Unowned s := by
  obtain ⟨_, w₀, hset, h⟩ := (setFrame_uniform _).bind_eq_ok h
  cases hset
  obtain ⟨_, w₁, hbind, h⟩ := (bindAll_local _ _).uniform.bind_eq_ok h
  obtain ⟨hheap, hnames⟩ := bindAll_names hbind
  obtain ⟨_, w₂, hlocals, hreturns⟩ := (declare_local _ _).uniform.bind_eq_ok h
  have ho₁ : w₁.heap.Owned := hheap ▸ ho
  have hfirst := declare_renews locals w₁ _ w₂ hlocals ho₁
  have hrenews := hfirst.trans ho₁ (declare_renews header.returns w₂ _ w' hreturns (hfirst.owned ho₁))
  refine ⟨hheap ▸ hrenews.edits, fun name s hname hs => ?_⟩
  rcases hrenews.locals name s hs with hold | hnew
  · rw [hnames name hname] at hold
    cases hold
  · exact hheap ▸ hnew

/-- A new scope is one of the method's class, on the object of the call. -/
theorem openScope_grows {header : Header} (h : (openScope c cls object header locals slots).on w = .ok () w') :
    (⟨.empty, object, cls⟩ : Frame).Grows w'.frame := by
  obtain ⟨_, w₀, hset, hrest⟩ := (setFrame_uniform _).bind_eq_ok h
  cases hset
  have hscope : Local (bindAll header.parameters slots >>= fun _ => Exec.declare c locals >>= fun _ =>
      Exec.declare c header.returns) :=
    (bindAll_local _ _).bind fun _ => (declare_local _ _).bind fun _ => declare_local _ _
  exact hscope.grows _ _ _ hrest

/-- The scope of a body that is done is the method's. -/
theorem Invoked.cls_eq (hG : E.Grows) (h : Invoked c E cls object m locals body slots returned w w₁ w₂ w') :
    w₂.frame.cls = cls :=
  ((hG.block body).frame w₁ _ w₂ h.runs).cls.trans (openScope_grows h.opens).cls

theorem Invoked.renews (hE : E.Renews) (ho : w.heap.Owned)
    (h : Invoked c E cls object m locals body slots returned w w₁ w₂ w') : w.Renews w' := by
  obtain ⟨-, hopen, hblock, -, rfl⟩ := h
  have hopened := (openScope_new (by rwa [noted_heap]) hopen).1
  rw [noted_heap] at hopened
  have hran := hE.block body w₁ _ w₂ hblock (ho.edits hopened)
  exact .of_edits (hopened.trans hran.edits) rfl

/-- What a method returns in variables that are no parameters is newer than the call, and no object's. -/
theorem Invoked.returns_new (hE : E.Renews) (hG : E.Grows) (ho : w.heap.Owned)
    (h : Invoked c E cls object m locals body slots returned w w₁ w₂ w') :
    List.Forall₂ (fun d r => d.name ∉ m.header.parameters.map Decl.name → w.heap.size ≤ r ∧ w'.heap.Unowned r)
      m.header.returns returned := by
  obtain ⟨-, hopen, hblock, hlookup, rfl⟩ := h
  obtain ⟨hedits, hnew⟩ := openScope_new (by rwa [noted_heap]) hopen
  rw [noted_heap] at hedits hnew
  have hran := hE.block body w₁ _ w₂ hblock (ho.edits hedits)
  have hgrows := (hG.block body).frame w₁ _ w₂ hblock
  have heach := (lookupEach_eq_ok hlookup).2
  have hcontains : ∀ d ∈ m.header.returns, w₂.frame.locals.contains d.name = true :=
    fun d hd => hgrows.locals _ (openScope_contains hopen d hd)
  refine ((List.forall₂_and_left _ _).mpr ⟨hcontains, heach⟩).imp fun d r hr hname => ?_
  rcases hran.locals d.name r (get?_of_lookup hr.1 hr.2) with hold | ⟨hge, hfree⟩
  · obtain ⟨hge, hfree⟩ := hnew d.name r hname hold
    exact ⟨hge, hfree.edits (ho.edits hedits) hran.edits⟩
  · exact ⟨Nat.le_trans hedits.grows hge, hfree⟩

/-! ### Statements -/

theorem invoke_renews (hE : E.Renews) : Renews (invoke c E cls object m slots) := by
  intro w returned w' h ho
  cases haction : m.action with
  | write =>
    unfold invoke at h
    rw [haction] at h
    obtain ⟨values, w₁, hvalues, h⟩ := bind_eq_ok h
    obtain ⟨log, rfl⟩ := (valuesOf_looks slots).same w values w₁ (act_eq_ok hvalues)
    obtain ⟨_, w₂, hwrite, h⟩ := bind_eq_ok h
    cases hwrite
    cases h
    exact .of_edits .refl rfl
  | run locals body =>
    obtain ⟨w₁, w₂, hinvoked⟩ := invoke_run haction h
    exact hinvoked.renews hE ho

theorem arguments_renews (hE : E.Renews) (args : List Expr) : Renews (arguments E args) := by
  induction args with
  | nil => exact pure_renews _
  | cons e rest ih => exact (hE.expr e).bind fun _ => ih.bind fun _ => pure_renews _

theorem call_renews (hE : E.Renews) (call : Call) (targets : Nat) : Renews (Eval.call c E call targets) :=
  (arguments_renews hE _).bind fun _ => (looks_renews (callee_looks ..)).bind fun _ => invoke_renews hE

theorem again_renews (hE : E.Renews) (source : Expr) (body : List Stmt) (span : Span) :
    Renews (again E source body span) := by
  refine Renews.within ((hE.expr source).bind fun s => (looks_renews (truthOf_looks _ s)).bind fun value => ?_)
  split
  · exact (hE.block body).bind fun _ => hE.again _ _ _
  · exact pure_renews _

theorem recordCondition_renews (hE : E.Renews) (loop : Loop) (target s : Slot) :
    Renews (recordCondition E loop target s) := by
  refine (looks_renews (cell_looks s)).bind fun v => ?_
  split
  · refine (act_renews (assign_renews target s)).bind fun _ => ?_
    split
    · exact (hE.block _).bind fun _ => hE.record _ _
    · exact pure_renews _
  · exact looks_renews (fault_looks _)

theorem items_renews (hE : E.Renews) (loop : Loop) (iterator : Slot) (cls : Class) (m : Method) :
    Renews (items c E loop iterator cls m) := by
  refine Renews.within ((invoke_renews hE).bind fun slots => ?_)
  unfold receiveItem
  split
  · refine (looks_renews (cell_looks _)).bind fun v => ?_
    split
    · exact (act_renews (storeItem_renews _ _ _)).bind fun _ => (hE.block _).bind fun _ => hE.items _ _ _ _
    · exact pure_renews _
    · exact looks_renews (fault_looks _)
  · exact looks_renews stuck_looks

theorem iterate_renews (hE : E.Renews) (loop : Loop) (iterator : Slot) (cls : Class) :
    Renews (iterate c E loop iterator cls) := by
  unfold iterate
  split
  · split
    · exact looks_renews (fault_looks _)
    · exact items_renews hE _ _ _ _
  · exact looks_renews (fault_looks _)

theorem loopOver_renews (hE : E.Renews) (loop : Loop) (target s : Slot) : Renews (loopOver c E loop target s) := by
  refine (looks_renews (cell_looks s)).bind fun v => ?_
  split
  · exact iterate_renews hE _ _ _
  · refine (looks_renews (cell_looks target)).bind fun v => ?_
    split
    · exact iterate_renews hE _ _ _
    · exact recordCondition_renews hE _ _ _

theorem stmt_renews (hE : E.Renews) (stmt : Stmt) : Renews (Eval.stmt c E stmt) := by
  cases stmt with
  | assign target value span =>
    exact Renews.within ((looks_renews (lookup_looks target)).bind fun _ => (hE.expr value).bind fun _ =>
      act_renews (assign_renews _ _))
  | call call targets span =>
    exact Renews.within ((call_renews hE _ _).bind fun _ => act_renews (storeEach_renews _ _ _))
  | loop name source body span =>
    cases name with
    | none => exact again_renews hE source body span
    | some name =>
      exact Renews.within ((looks_renews (lookup_looks name)).bind fun _ => (hE.expr source).bind fun _ =>
        loopOver_renews hE _ _ _)
  | branch condition yes no span =>
    refine Renews.within ((hE.expr condition).bind fun s => (looks_renews (truthOf_looks _ s)).bind fun value => ?_)
    split
    · exact hE.block yes
    · exact hE.block _

end Eval

/-- An evaluation edits the heap as a machine does that comes to the same. -/
theorem edits_of_expr {c : Catalog} {n : Nat} {E : Evaluator} (hE : Simulates c n E) {e : Expr} {w w' : World}
    {s : Slot} (h : E.expr e w = .ok s w') : Heap.Edits w.heap w'.heap := by
  obtain ⟨k, hk⟩ := hE.run_expr h none []
  have hedits := Machine.run_edits c k (w.machine none (.eval e) [])
  rw [hk] at hedits
  exact hedits

namespace Evaluator

theorem next_renews {c : Catalog} {E : Evaluator} (hE : E.Renews) (hexpr : ∀ e, Eval.Renews ((next c E).expr e)) :
    (next c E).Renews where
  expr := hexpr
  block body := by
    cases body with
    | nil => exact Eval.pure_renews _
    | cons stmt rest => exact (Eval.stmt_renews hE stmt).bind fun _ => hE.block rest
  again := Eval.again_renews hE
  record loop target :=
    Eval.Renews.within ((hE.expr _).bind fun t => Eval.recordCondition_renews hE loop target t)
  items := Eval.items_renews hE

/-- Whatever is evaluated, local variables keep their slots or get new ones. -/
theorem ofRounds_renews (c : Catalog) (rounds : Nat) : (ofRounds c rounds).Renews := by
  have hexpr : ∀ rounds e, Eval.Renews ((ofRounds c rounds).expr e) := fun rounds e w s w' h _ =>
    .of_edits (edits_of_expr (ofRounds_simulates c rounds) h) (ofRounds_steady c rounds e w s w' h)
  induction rounds with
  | zero => exact ⟨hexpr 0, fun _ => nofun, fun _ _ _ => nofun, fun _ _ => nofun, fun _ _ _ _ => nofun⟩
  | succ rounds ih => exact next_renews ih (hexpr (rounds + 1))

end Evaluator

end Offside
