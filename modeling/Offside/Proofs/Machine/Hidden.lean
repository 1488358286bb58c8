import Offside.Proofs.Heap.Contents
import Offside.Proofs.Machine.Expressions
import Offside.Proofs.Machine.Sense

/-! Slots that an evaluation cannot get at.

A slot is hidden in a scope if it is no variable's and no field's there, nor the object's whose code runs.
Expressions and statements reach slots only through these, and calls hand on only what was reached, so a
hidden slot stays as it is, whatever is evaluated, and is not among what comes of it. -/
namespace Offside

/-- The slot is on the heap, and no field of any object has it. -/
structure Heap.Unowned (h : Heap) (s : Nat) : Prop where
  lt : s < h.size
  free : ∀ object name, ¬ h.Holds object name s

/-- The slot is none of the scope's local variables and not its object. -/
structure Frame.Avoids (f : Frame) (s : Slot) : Prop where
  locals : ∀ name, f.locals.get? name ≠ some s
  object : f.object ≠ some s

structure World.Hides (w : World) (s : Slot) : Prop where
  heap : w.heap.Unowned s
  frame : w.frame.Avoids s

/-! ### Heaps -/

namespace Heap.Unowned

variable {h h' : Heap} {s : Nat}

theorem extend {roots : List Slot} (hs : h.Unowned s) (hx : Extends h h' roots) : h'.Unowned s := by
  refine ⟨Nat.lt_of_lt_of_le hs.lt hx.grows, fun object name hholds => ?_⟩
  by_cases hold : object < h.size
  · exact hs.free object name ((holds_congr (hx.keeps hold)).mp hholds)
  · exact Nat.not_le_of_lt hs.lt (hx.new (Nat.le_of_not_lt hold) hholds).1

theorem store (hs : h.Unowned s) (v : Value) :
    (h.store v).2.Unowned s ∧ (h.store v).2.cell? s = h.cell? s ∧ (h.store v).1 ≠ s := by
  have hx := store_extends h v
  refine ⟨hs.extend hx, hx.keeps hs.lt, fun heq => ?_⟩
  exact Nat.not_le_of_lt hs.lt (heq ▸ (hx.range (List.mem_singleton_self _)).1)

/-- Another slot may get other contents, if these do not have the slot as a field. -/
theorem write {target : Nat} {c : Cell} (hs : h.Unowned s) (htarget : target < h.size)
    (hfields : ∀ name, (name, s) ∉ c.fields) : (h.write target c).Unowned s := by
  refine ⟨by rw [size_write]; exact hs.lt, fun object name hholds => ?_⟩
  rcases holds_write htarget hholds with ⟨rfl, hmem⟩ | ⟨-, hholds⟩
  · exact hfields name hmem
  · exact hs.free object name hholds

theorem apply {target source : Nat} {u : Update} (hs : h.Unowned s) (hu : h.update target source = .ok u) :
    (h.apply target u).Unowned s := by
  obtain ⟨htarget, hplain⟩ := update_ok hu
  cases u with
  | keep => exact hs
  | replace c =>
    refine hs.write htarget fun name hmem => ?_
    rw [hplain c rfl] at hmem
    cases hmem
  | refill cls fields =>
    have hx := storeFields_extends h fields
    refine (hs.extend hx).write (Nat.lt_of_lt_of_le htarget hx.grows) fun name hmem => ?_
    exact Nat.not_le_of_lt hs.lt (hx.range (List.mem_map_of_mem hmem)).1

end Heap.Unowned

theorem Frame.Avoids.insert {f : Frame} {s t : Slot} (hf : f.Avoids s) (name : String) (ht : t ≠ s) :
    ({ f with locals := f.locals.insert name t } : Frame).Avoids s := by
  refine ⟨fun other hother => ?_, hf.object⟩
  by_cases hname : other = name
  · subst hname
    rw [show _ = some t from Bindings.get?_insert_self] at hother
    exact ht (Option.some.inj hother)
  · rw [show _ = f.locals.get? other from Bindings.get?_insert_of_ne hname] at hother
    exact hf.locals other hother

/-! ### Actions -/

/-- The slot is hidden still, and has the contents that it had. -/
structure World.Spares (s : Slot) (w w' : World) : Prop where
  hides : w'.Hides s
  same : w'.heap.cell? s = w.heap.cell? s

theorem World.Spares.trans {s : Slot} {w w' w'' : World} (h : World.Spares s w w') (h' : World.Spares s w' w'') :
    World.Spares s w w'' := ⟨h'.hides, h'.same.trans h.same⟩

theorem World.Hides.spares {s : Slot} {w : World} (h : w.Hides s) : World.Spares s w w := ⟨h, rfl⟩

namespace Exec

variable {α β : Type} {s : Slot} {c : Catalog} {post : α → Prop}

/-- An action that spares a slot hidden from it, and comes to something of this kind. -/
def Spares (s : Slot) (x : Exec α) (post : α → Prop) : Prop :=
  ∀ w a w', x.on w = .ok a w' → w.Hides s → World.Spares s w w' ∧ post a

theorem Spares.bind {x : Exec α} {f : α → Exec β} {last : β → Prop} (hu : Uniform x) (hx : Spares s x post)
    (hf : ∀ a, post a → Spares s (f a) last) : Spares s (x >>= f) last := by
  intro w b w'' h hw
  obtain ⟨a, w', ha, hb⟩ := hu.bind_eq_ok h
  obtain ⟨hfirst, hpost⟩ := hx w a w' ha hw
  obtain ⟨hsecond, hlast⟩ := hf a hpost w' b w'' hb hfirst.hides
  exact ⟨hfirst.trans hsecond, hlast⟩

/-- Looking spares everything. -/
theorem Looks.spares {x : Exec α} (hx : Looks x)
    (hpost : ∀ w a w', x.on w = .ok a w' → w.Hides s → post a) : Spares s x post := by
  intro w a w' h hw
  obtain ⟨log, rfl⟩ := hx.same w a w' h
  exact ⟨⟨⟨hw.heap, hw.frame⟩, rfl⟩, hpost w a _ h hw⟩

theorem Looks.spares_any {x : Exec α} (hx : Looks x) : Spares s x fun _ => True :=
  hx.spares fun _ _ _ _ _ => trivial

theorem pure_spares {a : α} (h : post a) : Spares s (pure a) post := by
  refine (pure_looks a).spares fun w b w' hb _ => ?_
  cases hb
  exact h

theorem fault_spares {f : Fault} : Spares s (fault f : Exec α) post := nofun

theorem stuck_spares : Spares s (stuck : Exec α) post := nofun

/-! ### Variables -/

theorem frame_spares : Spares s frame fun f => f.Avoids s := by
  refine frame_looks.spares fun w f w' h hw => ?_
  cases h
  exact hw.frame

theorem cell_spares (t : Slot) : Spares s (cell t) fun v => ∀ name, (name, s) ∉ v.fields := by
  refine (cell_looks t).spares fun w v w' h hw name hmem => ?_
  exact hw.heap.free t name ⟨v, (cell_on h).2, hmem⟩

theorem find?_spares (name : String) : Spares s (find? name) fun found => found ≠ some s := by
  refine frame_spares.bind frame_local.uniform fun f hf => ?_
  cases hlocal : f.locals.get? name with
  | some t =>
    refine pure_spares fun heq => hf.locals name ?_
    rw [hlocal, heq]
  | none =>
    have hfields : Spares s ownFields fun fields => ∀ name, (name, s) ∉ fields.entries := by
      refine frame_spares.bind frame_local.uniform fun f hf => ?_
      split
      · exact pure_spares fun _ h => nomatch h
      · refine (cell_spares _).bind (cell_local _).uniform fun v hv => ?_
        split
        · exact pure_spares hv
        · exact stuck_spares
    exact hfields.bind ownFields_local.uniform fun fields hfields =>
      pure_spares fun heq => hfields name (Bindings.mem_of_get? heq)

theorem lookup_spares (name : String) : Spares s (lookup name) fun t => t ≠ s := by
  refine (find?_spares name).bind (find?_local name).uniform fun found hfound => ?_
  cases found with
  | none => exact fault_spares
  | some t => exact pure_spares fun heq => hfound (congrArg some heq)

theorem lookupEach_spares (decls : List Decl) : Spares s (lookupEach decls) fun slots => s ∉ slots := by
  induction decls with
  | nil => exact pure_spares (List.not_mem_nil)
  | cons d rest ih =>
    refine (lookup_spares d.name).bind (lookup_local _).uniform fun t ht => ?_
    refine ih.bind (lookupEach_local rest).uniform fun slots hslots => pure_spares ?_
    exact List.not_mem_cons_of_ne_of_not_mem ht.symm hslots

/-! ### Slots -/

theorem alloc_spares {cell : Cell} (hc : cell.fields = []) : Spares s (alloc cell) fun t => t ≠ s := by
  intro w t w' h hw
  obtain ⟨v, hv⟩ := Heap.alloc_eq_store hc
  obtain ⟨hstored, hsame, hne⟩ := hw.heap.store v
  rw [← hv] at hstored hsame hne
  cases h
  exact ⟨⟨⟨hstored, hw.frame⟩, hsame⟩, hne⟩

theorem fresh_spares (type : String) : Spares s (fresh c type) fun t => t ≠ s := by
  intro w t w' h hw
  rw [fresh_on] at h
  cases hinitial : c.initial type with
  | error f =>
    rw [hinitial] at h
    cases h
  | ok cell =>
    rw [hinitial] at h
    exact alloc_spares (initial_fields hinitial) w t w' h hw

theorem copy_spares (t : Slot) : Spares s (copy t) fun t' => t' ≠ s := by
  refine (value_looks t).spares_any.bind (value_local t).uniform fun v _ => ?_
  intro w t' w' h hw
  obtain ⟨hstored, hsame, hne⟩ := hw.heap.store v
  cases h
  exact ⟨⟨⟨hstored, hw.frame⟩, hsame⟩, hne⟩

theorem assign_on {target source : Slot} {w w' : World} (h : (assign target source).on w = .ok () w') :
    ∃ u, w.heap.update target source = .ok u ∧ w' = { w with heap := w.heap.apply target u } := by
  obtain ⟨m', hrun, rfl⟩ := on_eq_ok h
  obtain ⟨u, hu, rfl⟩ := assign_run hrun
  exact ⟨u, hu, rfl⟩

theorem assign_spares {target source : Slot} (htarget : target ≠ s) :
    Spares s (assign target source) fun _ => True := by
  intro w _ w' h hw
  obtain ⟨u, hu, rfl⟩ := assign_on h
  exact ⟨⟨⟨hw.heap.apply hu, hw.frame⟩, Heap.cell?_apply hu hw.heap.lt htarget.symm⟩, trivial⟩

theorem setLocal_spares {name : String} {t : Slot} (ht : t ≠ s) : Spares s (setLocal name t) fun _ => True := by
  intro w _ w' h hw
  cases h
  exact ⟨⟨⟨hw.heap, hw.frame.insert name ht⟩, rfl⟩, trivial⟩

theorem setField_spares {object t : Slot} {name : String} (hobject : object ≠ s) (ht : t ≠ s) :
    Spares s (setField object name t) fun _ => True := by
  intro w _ w' h hw
  obtain ⟨v, w₁, hcell, h⟩ := (cell_local object).uniform.bind_eq_ok h
  obtain ⟨rfl, hcell⟩ := cell_on hcell
  cases v with
  | object cls fields =>
    cases h
    have hlt := Heap.lt_size_of_cell? hcell
    refine ⟨⟨⟨hw.heap.write hlt fun other hmem => ?_, hw.frame⟩, ?_⟩, trivial⟩
    · rcases Heap.mem_insert hmem with heq | hold
      · exact ht (Prod.mk.inj heq).2.symm
      · exact hw.heap.free object other ⟨_, hcell, hold⟩
    · exact (Heap.cell?_write hlt _ s).trans (if_neg hobject)
  | _ => cases h

theorem rebind_spares {name : String} {t : Slot} (ht : t ≠ s) : Spares s (rebind name t) fun _ => True := by
  refine frame_spares.bind frame_local.uniform fun f hf => ?_
  split
  · exact setLocal_spares ht
  · cases hobject : f.object with
    | none => exact nofun
    | some object =>
      exact setField_spares (fun heq => hf.object (by rw [hobject, heq])) ht

/-! ### Larger actions -/

theorem declare_spares (decls : List Decl) : Spares s (declare c decls) fun _ => True := by
  induction decls with
  | nil => exact pure_spares trivial
  | cons d rest ih =>
    refine frame_spares.bind frame_local.uniform fun f _ => ?_
    split
    · exact (fresh_spares d.type).bind (fresh_local c _).uniform fun t ht =>
        (setLocal_spares ht).bind (setLocal_local _ _).uniform fun _ _ => ih
    · exact ih

theorem bindAll_spares (params : List Decl) {slots : List Slot} (hslots : s ∉ slots) :
    Spares s (bindAll params slots) fun _ => True := by
  have heach : ∀ params, Spares s (bindEach params slots) fun _ => True := by
    induction slots with
    | nil => intro params; cases params <;> exact pure_spares trivial
    | cons t slots ih =>
      have hne := List.ne_of_not_mem_cons hslots
      have hrest := List.not_mem_of_not_mem_cons hslots
      intro params
      cases params with
      | nil => exact pure_spares trivial
      | cons p params =>
        exact (setLocal_spares hne.symm).bind (setLocal_local _ _).uniform fun _ _ => ih hrest params
  unfold bindAll
  split
  · exact fault_spares.bind (fault_local _).uniform fun _ (_ : True) => heach params
  · exact heach params

theorem populate_spares {object : Slot} (hobject : object ≠ s) (decls : List Decl) :
    Spares s (populate c object decls) fun _ => True := by
  induction decls with
  | nil => exact pure_spares trivial
  | cons d rest ih =>
    exact (fresh_spares d.type).bind (fresh_local c _).uniform fun t ht =>
      (setField_spares hobject ht).bind (setField_local _ _ _).uniform fun _ _ => ih

theorem write_spares (record : String) : Spares s (write record) fun _ => True := by
  intro w _ w' h hw
  cases h
  exact ⟨⟨⟨hw.heap, hw.frame⟩, rfl⟩, trivial⟩

theorem storeEach_spares (shortfall : Unit → String) (names : List String) (slots : List Slot) :
    Spares s (storeEach shortfall names slots) fun _ => True := by
  induction names generalizing slots with
  | nil => exact pure_spares trivial
  | cons name names ih =>
    cases slots with
    | nil => exact (note_looks _ _).spares_any
    | cons t slots =>
      exact (lookup_spares name).bind (lookup_local name).uniform fun target htarget =>
        (assign_spares htarget).bind (assign_local _ _).uniform fun _ _ => ih slots

theorem storeItem_spares (name : String) (iterator item : Slot) :
    Spares s (storeItem name iterator item) fun _ => True := by
  refine (lookup_spares name).bind (lookup_local name).uniform fun target htarget => ?_
  split
  · exact (copy_spares item).bind (copy_local item).uniform fun t ht => rebind_spares ht
  · exact assign_spares htarget

/-- No hidden slot is what a method is called on. -/
theorem callee_spares (object : Option String) (name : String) (targets : Nat) (slots : List Slot) :
    Spares s (callee c object name targets slots) fun t => t.object ≠ some s := by
  have hvariable : ∀ object, Spares s (calleeVariable c object name targets slots) fun t => t.object ≠ some s := by
    intro object
    refine (cells_looks slots).spares_any.bind (cells_local slots).uniform fun values _ => ?_
    refine (find?_spares object).bind (find?_local object).uniform fun found hfound => ?_
    cases found with
    | none => exact fault_spares
    | some t =>
      refine (cell_spares t).bind (cell_local t).uniform fun v _ => ?_
      cases v with
      | object cls fields =>
        refine (resolve_looks ..).spares_any.bind (resolve_local _ _ _ _ _ _).uniform fun m _ => ?_
        cases m with
        | none => exact fault_spares
        | some m => exact pure_spares hfound
      | _ => exact fault_spares
  cases object with
  | none =>
    refine frame_spares.bind frame_local.uniform fun f hf => ?_
    refine (cells_looks slots).spares_any.bind (cells_local slots).uniform fun values _ => ?_
    refine (resolve_looks ..).spares_any.bind (resolve_local _ _ _ _ _ _).uniform fun m _ => ?_
    cases m with
    | none => exact fault_spares
    | some m => exact pure_spares hf.object
  | some object =>
    show Spares s (calleeOn c object name targets slots) _
    unfold calleeOn
    split
    · exact hvariable object
    · refine (cells_looks slots).spares_any.bind (cells_local slots).uniform fun values _ => ?_
      refine (resolve_looks ..).spares_any.bind (resolve_local _ _ _ _ _ _).uniform fun m _ => ?_
      cases m with
      | none => exact hvariable object
      | some m => exact pure_spares (by simp)

end Exec

/-! ### Evaluations -/

namespace Eval

open Exec

variable {α β : Type} {s : Slot} {c : Catalog} {E : Evaluator} {post : α → Prop}

/-- An evaluation that spares a slot hidden from it, and comes to something of this kind. -/
def Spares (s : Slot) (x : Eval α) (post : α → Prop) : Prop :=
  ∀ w a w', x w = .ok a w' → w.Hides s → World.Spares s w w' ∧ post a

theorem Spares.bind {x : Eval α} {f : α → Eval β} {last : β → Prop} (hx : Spares s x post)
    (hf : ∀ a, post a → Spares s (f a) last) : Spares s (x >>= f) last := by
  intro w b w'' h hw
  obtain ⟨a, w', ha, hb⟩ := bind_eq_ok h
  obtain ⟨hfirst, hpost⟩ := hx w a w' ha hw
  obtain ⟨hsecond, hlast⟩ := hf a hpost w' b w'' hb hfirst.hides
  exact ⟨hfirst.trans hsecond, hlast⟩

theorem pure_spares {a : α} (h : post a) : Spares s (pure a) post := by
  intro w b w' hb hw
  cases hb
  exact ⟨hw.spares, h⟩

theorem act_spares {x : Exec α} (hx : Exec.Spares s x post) : Spares s (act x) post :=
  fun w a w' h hw => hx w a w' (act_eq_ok h) hw

theorem looks_spares {x : Exec α} (hx : Looks x) : Spares s (act x) fun _ => True := act_spares hx.spares_any

theorem fault_spares {f : Fault} : Spares s (act (fault f) : Eval α) post := act_spares Exec.fault_spares

theorem Spares.within {span : Span} {x : Eval α} (hx : Spares s x post) : Spares s (within span x) post := by
  intro w a w' h hw
  exact hx w a w' (within_eq_ok h) hw

/-- What is done in a scope of its own spares what the caller hides, if that scope hides it as well. -/
theorem scope_spares {o : Exec Unit} {y : Eval α}
    (hopen : ∀ w w', o.on w = .ok () w' → w.heap.Unowned s → World.Spares s w w') (hy : Spares s y post) :
    Spares s (act frame >>= fun caller => act o >>= fun _ => y >>= fun a => act (setFrame caller) >>= fun _ =>
      pure a) post := by
  intro w a w' h hw
  obtain ⟨caller, w₀, hcaller, h⟩ := bind_eq_ok h
  cases hcaller
  obtain ⟨_, w₁, ho, h⟩ := bind_eq_ok h
  obtain ⟨a', w₂, hbody, h⟩ := bind_eq_ok h
  obtain ⟨_, w₃, hset, h⟩ := bind_eq_ok h
  cases hset
  cases h
  have hopened := hopen _ _ (act_eq_ok ho) hw.heap
  obtain ⟨hran, hpost⟩ := hy _ _ _ hbody hopened.hides
  exact ⟨⟨⟨hran.hides.heap, hw.frame⟩, hran.same.trans hopened.same⟩, hpost⟩

/-- A new scope hides a slot that no object has, if its own object is another. -/
theorem setFrame_spares {x : Exec Unit} {object : Option Slot} {cls : Class} {w w' : World}
    (hx : Exec.Spares s x fun _ => True) (hobject : object ≠ some s)
    (h : (setFrame ⟨.empty, object, cls⟩ >>= fun _ => x).on w = .ok () w') (hw : w.heap.Unowned s) :
    World.Spares s w w' := by
  obtain ⟨_, w₀, hset, h⟩ := (setFrame_uniform _).bind_eq_ok h
  cases hset
  have hframe : Frame.Avoids ⟨.empty, object, cls⟩ s := ⟨fun _ h => (nomatch h), hobject⟩
  have hran := (hx _ _ _ h ⟨hw, hframe⟩).1
  exact ⟨hran.hides, hran.same⟩

end Eval

/-- An evaluator all of whose parts spare a slot. -/
structure Evaluator.Spares (s : Slot) (E : Evaluator) : Prop where
  expr : ∀ e, Eval.Spares s (E.expr e) fun t => t ≠ s
  block : ∀ body, Eval.Spares s (E.block body) fun _ => True
  again : ∀ source body span, Eval.Spares s (E.again source body span) fun _ => True
  record : ∀ loop target, target ≠ s → Eval.Spares s (E.record loop target) fun _ => True
  items : ∀ loop iterator cls m, iterator ≠ s → Eval.Spares s (E.items loop iterator cls m) fun _ => True

namespace Eval

open Exec

variable {s : Slot} {c : Catalog} {E : Evaluator}

theorem arguments_spares (hE : E.Spares s) (args : List Expr) :
    Spares s (arguments E args) fun slots => s ∉ slots := by
  induction args with
  | nil => exact pure_spares List.not_mem_nil
  | cons e rest ih =>
    exact (hE.expr e).bind fun t ht => ih.bind fun slots hslots =>
      pure_spares (List.not_mem_cons_of_ne_of_not_mem ht.symm hslots)

theorem invoke_spares (hE : E.Spares s) (cls : Class) {object : Option Slot} (m : Method) {slots : List Slot}
    (hobject : object ≠ some s) (hslots : s ∉ slots) :
    Spares s (invoke c E cls object m slots) fun returned => s ∉ returned := by
  unfold invoke
  split
  · exact (looks_spares (valuesOf_looks slots)).bind fun _ _ => (act_spares (write_spares _)).bind fun _ _ =>
      pure_spares List.not_mem_nil
  case h_2 locals body _ =>
    refine (looks_spares (note_looks _ _)).bind fun _ _ => ?_
    have hopen : Exec.Spares s (bindAll m.header.parameters slots >>= fun _ => declare c locals >>= fun _ =>
        declare c m.header.returns) fun _ => True :=
      (bindAll_spares _ hslots).bind (bindAll_local _ _).uniform fun _ _ =>
        (declare_spares locals).bind (declare_local _ _).uniform fun _ _ => declare_spares _
    have hscope := scope_spares (o := openScope c cls object m.header locals slots)
      (fun _ _ => setFrame_spares hopen hobject)
      ((hE.block body).bind fun _ _ => act_spares (lookupEach_spares m.header.returns))
    simpa only [bind_assoc] using hscope

theorem openObject_spares {cls : Class} {object : Slot} {k : Option ConstructorDecl} {slots : List Slot}
    {w w' : World} (hobject : object ≠ s) (hslots : s ∉ slots)
    (h : (openObject c cls object k slots).on w = .ok () w') (hw : w.heap.Unowned s) : World.Spares s w w' := by
  refine setFrame_spares ?_ (by simpa using hobject) h hw
  cases k with
  | none =>
    exact (bindAll_spares _ hslots).bind (bindAll_local _ _).uniform fun _ _ => populate_spares hobject _
  | some k =>
    exact (bindAll_spares _ hslots).bind (bindAll_local _ _).uniform fun _ _ =>
      (populate_spares hobject _).bind (populate_local _ _ _).uniform fun _ _ => declare_spares _

theorem construct_spares (hE : E.Spares s) (cls : Class) (k : Option ConstructorDecl) {slots : List Slot}
    (hslots : s ∉ slots) : Spares s (construct c E cls k slots) fun object => object ≠ s := by
  refine (act_spares (alloc_spares rfl)).bind fun object hobject => ?_
  refine (looks_spares (note_looks _ _)).bind fun _ _ => ?_
  have hbuilt : Spares s (E.block (k.elim [] ConstructorDecl.body) >>= fun _ => pure object) fun object => object ≠ s :=
    (hE.block _).bind fun _ _ => pure_spares hobject
  have hscope := scope_spares (o := openObject c cls object k slots)
    (fun _ _ => openObject_spares hobject hslots) hbuilt
  simpa only [bind_assoc, pure_bind] using hscope

theorem call_spares (hE : E.Spares s) (call : Call) (targets : Nat) :
    Spares s (Eval.call c E call targets) fun returned => s ∉ returned :=
  (arguments_spares hE _).bind fun _ hslots => (act_spares (callee_spares _ _ _ _)).bind fun t ht =>
    invoke_spares hE t.cls t.method ht hslots

theorem expr_spares (hE : E.Spares s) (e : Expr) : Spares s (expr c E e) fun t => t ≠ s := by
  cases e with
  | number | text | truth | character => exact act_spares (alloc_spares rfl)
  | «variable» name => exact act_spares (lookup_spares name)
  | not operand =>
    refine (hE.expr operand).bind fun t _ => (looks_spares (cell_looks t)).bind fun v _ => ?_
    split
    · exact act_spares (alloc_spares rfl)
    · exact fault_spares
  | binary op left right =>
    refine (hE.expr left).bind fun l _ => (hE.expr right).bind fun r _ => ?_
    intro w t w' h hw
    obtain ⟨result, w₁, happly, halloc⟩ := bind_eq_ok h
    obtain ⟨rfl, a, b, -, -, hresult⟩ := operate_on (act_eq_ok happly)
    exact alloc_spares (operate_fields hresult) w₁ t w' (act_eq_ok halloc) hw
  | call object method args =>
    refine (call_spares hE _ _).bind fun slots hslots => ?_
    cases slots with
    | nil => exact fault_spares
    | cons t rest => exact pure_spares (List.ne_of_not_mem_cons hslots).symm
  | create name args =>
    rw [expr]
    split
    · exact fault_spares
    · exact (arguments_spares hE _).bind fun _ hslots => (looks_spares (maker_looks ..)).bind fun _ _ =>
        construct_spares hE _ _ hslots

/-! ### Statements -/

theorem again_spares (hE : E.Spares s) (source : Expr) (body : List Stmt) (span : Span) :
    Spares s (again E source body span) fun _ => True := by
  refine Spares.within ((hE.expr source).bind fun t _ => (looks_spares (truthOf_looks _ t)).bind fun value _ => ?_)
  split
  · exact (hE.block body).bind fun _ _ => hE.again _ _ _
  · exact pure_spares trivial

theorem recordCondition_spares (hE : E.Spares s) (loop : Loop) {target : Slot} (htarget : target ≠ s) (t : Slot) :
    Spares s (recordCondition E loop target t) fun _ => True := by
  refine (looks_spares (cell_looks t)).bind fun v _ => ?_
  split
  · refine (act_spares (assign_spares htarget)).bind fun _ _ => ?_
    split
    · exact (hE.block _).bind fun _ _ => hE.record loop target htarget
    · exact pure_spares trivial
  · exact fault_spares

theorem items_spares (hE : E.Spares s) (loop : Loop) {iterator : Slot} (hiterator : iterator ≠ s) (cls : Class)
    (m : Method) : Spares s (items c E loop iterator cls m) fun _ => True := by
  refine Spares.within ((invoke_spares hE cls m (fun h => hiterator (Option.some.inj h)) List.not_mem_nil).bind
    fun slots _ => ?_)
  unfold receiveItem
  split
  · refine (looks_spares (cell_looks _)).bind fun v _ => ?_
    split
    · exact (act_spares (storeItem_spares _ _ _)).bind fun _ _ => (hE.block _).bind fun _ _ =>
        hE.items loop iterator cls m hiterator
    · exact pure_spares trivial
    · exact fault_spares
  · exact act_spares stuck_spares

theorem iterate_spares (hE : E.Spares s) (loop : Loop) {iterator : Slot} (hiterator : iterator ≠ s) (cls : Class) :
    Spares s (iterate c E loop iterator cls) fun _ => True := by
  unfold iterate
  split
  · split
    · exact fault_spares
    · exact items_spares hE loop hiterator cls _
  · exact fault_spares

theorem loopOver_spares (hE : E.Spares s) (loop : Loop) {target t : Slot} (htarget : target ≠ s) (ht : t ≠ s) :
    Spares s (loopOver c E loop target t) fun _ => True := by
  refine (looks_spares (cell_looks t)).bind fun v _ => ?_
  split
  · exact iterate_spares hE loop ht _
  · refine (looks_spares (cell_looks target)).bind fun v _ => ?_
    split
    · exact iterate_spares hE loop htarget _
    · exact recordCondition_spares hE loop htarget t

theorem stmt_spares (hE : E.Spares s) (stmt : Stmt) : Spares s (Eval.stmt c E stmt) fun _ => True := by
  cases stmt with
  | assign target value span =>
    exact Spares.within ((act_spares (lookup_spares target)).bind fun t ht => (hE.expr value).bind fun _ _ =>
      act_spares (assign_spares ht))
  | call call targets span =>
    exact Spares.within ((call_spares hE _ _).bind fun _ _ => act_spares (storeEach_spares _ _ _))
  | loop name source body span =>
    cases name with
    | none => exact again_spares hE source body span
    | some name =>
      exact Spares.within ((act_spares (lookup_spares name)).bind fun t ht => (hE.expr source).bind fun _ hs =>
        loopOver_spares hE _ ht hs)
  | branch condition yes no span =>
    refine Spares.within ((hE.expr condition).bind fun t _ =>
      (looks_spares (truthOf_looks _ t)).bind fun value _ => ?_)
    split
    · exact hE.block yes
    · exact hE.block _

end Eval

namespace Evaluator

theorem next_spares {c : Catalog} {E : Evaluator} {s : Slot} (hE : E.Spares s) : (next c E).Spares s where
  expr := Eval.expr_spares hE
  block body := by
    cases body with
    | nil => exact Eval.pure_spares trivial
    | cons stmt rest => exact (Eval.stmt_spares hE stmt).bind fun _ _ => hE.block rest
  again := Eval.again_spares hE
  record loop target htarget :=
    Eval.Spares.within ((hE.expr _).bind fun t _ => Eval.recordCondition_spares hE loop htarget t)
  items loop _ cls m hiterator := Eval.items_spares hE loop hiterator cls m

/-- Whatever is evaluated, a hidden slot is spared. -/
theorem ofRounds_spares (c : Catalog) (rounds : Nat) (s : Slot) : (ofRounds c rounds).Spares s := by
  induction rounds with
  | zero => exact ⟨fun _ => nofun, fun _ => nofun, fun _ _ _ => nofun, fun _ _ _ => nofun, fun _ _ _ _ _ => nofun⟩
  | succ rounds ih => exact next_spares ih

end Evaluator

end Offside
