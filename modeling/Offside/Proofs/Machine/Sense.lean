import Offside.Proofs.Heap.Changes
import Offside.Proofs.Machine.Callee
import Offside.Proofs.Machine.Edits

/-! What an action comes to on a heap and in a scope that make sense.

`Meets` says where an action leads to if it goes on, and that it halts for no other reason than the
program's own: it never gets stuck, and no call has too few or too many arguments. Each action has
one lemma here, and larger actions are put together from those of smaller ones. -/
namespace Offside

/-! ### Faults -/

/-- Some class of the catalog declares a parameter of a type that takes no values, or another
variable of a type that has none. -/
def Catalog.Lacks (c : Catalog) (type : String) : Prop :=
  ∃ cls ∈ c.classes,
    (∃ d ∈ cls.parameters, d.type = type ∧ ∃ v f, c.accepts type v = .error f) ∨
      ∃ d ∈ cls.variables, d.type = type ∧ ∃ f, c.initial type = .error f

/-- A fault of a program, and not of the machine that runs it. -/
def Fault.Proper (c : Catalog) : Fault → Prop
  | .argumentCount .. => False
  | .noType type => c.Lacks type
  | _ => True

def Halt.Proper (c : Catalog) : Halt → Prop
  | .finished => True
  | .fault f => f.Proper c
  | .stuck => False

/-! ### Heaps and scopes -/

/-- Fields own their values, and objects are of classes of the catalog. -/
structure Heap.Tidy (c : Catalog) (h : Heap) : Prop where
  owned : h.Owned
  known : h.Lawful fun cls _ => cls ∈ c.classes

/-- The variables of a scope have slots on the heap, and its object is one of its class. -/
structure Frame.Sensible (c : Catalog) (h : Heap) (f : Frame) : Prop where
  locals : ∀ name s, f.locals.get? name = some s → s < h.size
  object : ∀ s, f.object = some s → h.form? s = some (.object f.cls)
  cls : f.cls ∈ c.classes ∨ f.cls.methods = []

structure Machine.Based (c : Catalog) (m : Machine) : Prop where
  heap : m.heap.Tidy c
  frame : m.frame.Sensible c m.heap

/-- The variable of that name is a field with this slot. -/
def Machine.FindsField (m : Machine) (name : String) (s : Slot) : Prop :=
  m.frame.locals.get? name = none ∧ ∃ object fields, m.frame.object = some object ∧
    m.heap.cell? object = some (.object m.frame.cls fields) ∧ fields.get? name = some s

/-- The variable of that name has this slot. -/
def Machine.Finds (m : Machine) (name : String) (s : Slot) : Prop :=
  m.frame.locals.get? name = some s ∨ m.FindsField name s

/-- The machine has the same to do, in the same scope, in which there may be more variables now. -/
structure Machine.Stays (c : Catalog) (free : Prop) (m m' : Machine) : Prop where
  here : m'.here = m.here
  task : m'.task = m.task
  stack : m'.stack = m.stack
  grows : m.frame.Grows m'.frame
  changes : m.heap.Changes c free m'.heap
  based : m'.Based c

section Heaps
variable {c : Catalog} {free : Prop} {h h' : Heap}

theorem Catalog.known_upheld : c.Upholds free fun cls _ => cls ∈ c.classes :=
  ⟨id, id, fun h _ => h, fun _ _ _ h => h⟩

theorem Heap.empty_tidy : Heap.empty.Tidy c := ⟨empty_owned, empty_lawful⟩

theorem Heap.Tidy.changes (hc : c.Regular) (ht : h.Tidy c) (hch : h.Changes c free h') : h'.Tidy c :=
  ⟨ht.owned.edits hch.edits, ht.known.changes hc Catalog.known_upheld hch⟩

theorem Heap.Tidy.cls_mem (ht : h.Tidy c) {s : Slot} {cls : Class} (hs : h.form? s = some (.object cls)) :
    cls ∈ c.classes := by
  obtain ⟨fields, hcell⟩ := form?_object.mp hs
  obtain ⟨-, -, hcls⟩ := ht.known s _ hcell
  exact hcls

theorem Heap.Tidy.field_lt (ht : h.Tidy c) {s : Slot} {cls : Class} {fields : Bindings} {name : String}
    {t : Nat} (hs : h.cell? s = some (.object cls fields)) (ht' : (name, t) ∈ fields.entries) :
    t < h.size :=
  ht.owned.inside ⟨_, hs, ht'⟩

theorem Bindings.mem_of_get? {b : Bindings} {name : String} {s : Slot} (hb : b.get? name = some s) :
    (name, s) ∈ b.entries := by
  obtain ⟨entries⟩ := b
  change Bindings.get?.go name entries = some s at hb
  show (name, s) ∈ entries
  induction entries with
  | nil => cases hb
  | cons entry rest ih =>
    obtain ⟨other, slot⟩ := entry
    unfold Bindings.get?.go at hb
    split at hb
    · rename_i hother
      cases hb
      rw [hother]
      exact List.mem_cons_self
    · exact List.mem_cons_of_mem _ (ih hb)

theorem Frame.Sensible.mono {f : Frame} (hk : h.Keeps h') (hf : f.Sensible c h) : f.Sensible c h' :=
  ⟨fun name s hs => hk.lt (hf.locals name s hs), fun s hs => hk _ _ (hf.object s hs), hf.cls⟩

theorem Frame.Sensible.insert {f : Frame} {name : String} {s : Nat} (hf : f.Sensible c h)
    (hs : s < h.size) : ({ f with locals := f.locals.insert name s } : Frame).Sensible c h := by
  refine ⟨fun other t ht => ?_, hf.object, hf.cls⟩
  by_cases hname : other = name
  · subst hname
    rw [show _ = some s from Bindings.get?_insert_self] at ht
    cases ht
    exact hs
  · rw [show _ = f.locals.get? other from Bindings.get?_insert_of_ne hname] at ht
    exact hf.locals other t ht

end Heaps

section Machines
variable {c : Catalog} {free : Prop} {m m' m'' : Machine}

theorem Machine.Based.changed (hc : c.Regular) (hm : m.Based c) {h : Heap}
    (hch : m.heap.Changes c free h) : ({ m with heap := h } : Machine).Based c :=
  ⟨hm.heap.changes hc hch, hm.frame.mono hch.keepsForms⟩

theorem Machine.Stays.refl (hm : m.Based c) : m.Stays c free m :=
  ⟨rfl, rfl, rfl, .refl _, .refl, hm⟩

theorem Machine.Stays.trans (hs : m.Stays c free m') (hs' : m'.Stays c free m'') : m.Stays c free m'' :=
  ⟨hs'.here.trans hs.here, hs'.task.trans hs.task, hs'.stack.trans hs.stack, hs.grows.trans hs'.grows,
    hs.changes.trans hs'.changes, hs'.based⟩

/-- Only the heap changes. -/
theorem Machine.Stays.of_changes (hc : c.Regular) (hm : m.Based c) {h : Heap}
    (hch : m.heap.Changes c free h) : m.Stays c free { m with heap := h } :=
  ⟨rfl, rfl, rfl, .refl _, hch, hm.changed hc hch⟩

/-- Only a variable is new. -/
theorem Machine.Stays.of_local (free : Prop) (hm : m.Based c) (name : String) {s : Nat} (hs : s < m.heap.size) :
    m.Stays c free { m with frame := { m.frame with locals := m.frame.locals.insert name s } } :=
  ⟨rfl, rfl, rfl, Frame.grows_insert _ _ _, .refl, ⟨hm.heap, hm.frame.insert hs⟩⟩

/-- Only the log is longer. -/
def Machine.Logs (m m' : Machine) : Prop := ∃ log, m' = { m with log }

theorem Machine.Logs.trans (hl : m.Logs m') (hl' : m'.Logs m'') : m.Logs m'' := by
  obtain ⟨log, rfl⟩ := hl
  obtain ⟨log', rfl⟩ := hl'
  exact ⟨log', rfl⟩

theorem Machine.Logs.stays (hl : m.Logs m') (hm : m.Based c) : m.Stays c free m' := by
  obtain ⟨log, rfl⟩ := hl
  exact ⟨rfl, rfl, rfl, .refl _, .refl, ⟨hm.heap, hm.frame⟩⟩

end Machines

namespace Exec
variable {α β : Type} {c : Catalog} {free : Prop} {m : Machine}

/-! ### Meeting a condition -/

/-- Where an action leads to from a machine, unless it halts as a run may. -/
def Meets (c : Catalog) (x : Exec α) (m : Machine) (post : α → Machine → Prop) : Prop :=
  match x.run m with
  | .ok a m' => post a m'
  | .error h _ => h.Proper c

theorem Meets.of_ok {x : Exec α} {post : α → Machine → Prop} {a : α} {m' : Machine}
    (hx : x.run m = .ok a m') (hpost : post a m') : Meets c x m post := by
  rw [Meets, hx]
  exact hpost

theorem Meets.of_error {x : Exec α} {post : α → Machine → Prop} {h : Halt} {m' : Machine}
    (hx : x.run m = .error h m') (hproper : h.Proper c) : Meets c x m post := by
  rw [Meets, hx]
  exact hproper

theorem Meets.bind {x : Exec α} {f : α → Exec β} {mid : α → Machine → Prop} {post : β → Machine → Prop}
    (hx : Meets c x m mid) (hf : ∀ a m', mid a m' → Meets c (f a) m' post) :
    Meets c (x >>= f) m post := by
  unfold Meets at hx ⊢
  rw [run_bind]
  cases hrun : x.run m with
  | ok a m' =>
    rw [hrun] at hx
    exact hf a m' hx
  | error h m' =>
    rw [hrun] at hx
    exact hx

/-- What an action that certainly goes on leads to. -/
theorem Meets.bind_ok {x : Exec α} {f : α → Exec β} {post : β → Machine → Prop} {a : α} {m' : Machine}
    (hx : x.run m = .ok a m') (hf : Meets c (f a) m' post) : Meets c (x >>= f) m post := by
  rw [Meets, run_bind, hx]
  exact hf

theorem Meets.imp {x : Exec α} {post weaker : α → Machine → Prop} (hx : Meets c x m post)
    (himp : ∀ a m', post a m' → weaker a m') : Meets c x m weaker := by
  unfold Meets at hx ⊢
  cases hrun : x.run m with
  | ok a m' =>
    rw [hrun] at hx
    exact himp a m' hx
  | error h m' =>
    rw [hrun] at hx
    exact hx

/-- Where an action leads to is where it went. -/
theorem Meets.and_run {x : Exec α} {post : α → Machine → Prop} (hx : Meets c x m post) :
    Meets c x m fun a m' => post a m' ∧ x.run m = .ok a m' := by
  unfold Meets at hx ⊢
  cases hrun : x.run m with
  | ok a m' =>
    rw [hrun] at hx
    exact ⟨hx, rfl⟩
  | error h m' =>
    rw [hrun] at hx
    exact hx

theorem pure_meets {post : α → Machine → Prop} {a : α} (h : post a m) : Meets c (pure a : Exec α) m post := h

theorem fault_meets {post : α → Machine → Prop} {f : Fault} (hf : f.Proper c) :
    Meets c (fault f : Exec α) m post := hf

/-! ### Reading -/

theorem note_meets (level : Level) (message : Unit → String) :
    Meets c (note level message) m fun _ m' => m.Logs m' := by
  refine Meets.of_ok rfl ?_
  show m.Logs (if level.shownAt m.threshold then { m with log := ⟨level, .interp, message ()⟩ :: m.log } else m)
  split
  · exact ⟨_, rfl⟩
  · exact ⟨m.log, rfl⟩

theorem cell_meets {s : Nat} (hs : s < m.heap.size) :
    Meets c (cell s) m fun v m' => m' = m ∧ m.heap.cell? s = some v := by
  obtain ⟨v, hv⟩ := Heap.exists_cell? hs
  have hrun : (cell s).run m = .ok v m := by
    rw [cell_run, hv]
    rfl
  exact Meets.of_ok hrun ⟨rfl, hv⟩

theorem value_meets {s : Nat} (ht : m.heap.Tidy c) (hs : s < m.heap.size) :
    Meets c (value s) m fun v m' => m' = m ∧ m.heap.value? s = some v := by
  obtain ⟨v, hv⟩ := Option.isSome_iff_exists.mp (ht.owned.value?_isSome hs)
  have hrun : (value s).run m = .ok v m := by
    show (orStuck (m.heap.value? s)).run m = _
    rw [hv]
    rfl
  exact Meets.of_ok hrun ⟨rfl, hv⟩

theorem cells_meets {slots : List Slot} (hs : ∀ s ∈ slots, s < m.heap.size) :
    Meets c (cells slots) m fun values m' => m' = m ∧ values.length = slots.length := by
  induction slots with
  | nil => exact pure_meets ⟨rfl, rfl⟩
  | cons s rest ih =>
    refine (cell_meets (hs s List.mem_cons_self)).bind fun v m' hv => ?_
    obtain ⟨rfl, -⟩ := hv
    refine (ih fun s hmem => hs s (List.mem_cons_of_mem _ hmem)).bind fun values m'' hvalues => ?_
    obtain ⟨rfl, hlength⟩ := hvalues
    exact pure_meets ⟨rfl, by rw [List.length_cons, List.length_cons, hlength]⟩

theorem valuesOf_meets {slots : List Slot} (ht : m.heap.Tidy c) (hs : ∀ s ∈ slots, s < m.heap.size) :
    Meets c (valuesOf slots) m fun _ m' => m' = m := by
  induction slots with
  | nil => exact pure_meets rfl
  | cons s rest ih =>
    refine (value_meets ht (hs s List.mem_cons_self)).bind fun v m' hv => ?_
    obtain ⟨rfl, -⟩ := hv
    refine (ih fun s hmem => hs s (List.mem_cons_of_mem _ hmem)).bind fun values m'' hvalues => ?_
    exact pure_meets hvalues

theorem truthOf_meets {condition : Expr} {s : Nat} (hs : s < m.heap.size) :
    Meets c (truthOf condition s) m fun _ m' => m' = m := by
  refine (cell_meets hs).bind fun v m' hv => ?_
  cases v with
  | truth value => exact pure_meets hv.1
  | _ => exact fault_meets trivial

theorem find?_meets (hm : m.Based c) (name : String) :
    Meets c (find? name) m fun found m' =>
      m' = m ∧ ∀ s, found = some s → s < m.heap.size ∧ m.Finds name s := by
  refine Meets.bind_ok rfl ?_
  cases hlocal : m.frame.locals.get? name with
  | some s =>
    refine pure_meets ⟨rfl, fun t ht => ?_⟩
    cases ht
    exact ⟨hm.frame.locals name s hlocal, .inl hlocal⟩
  | none =>
    show Meets c (ownFields >>= fun fields => pure (fields.get? name)) m _
    have hown : Meets c ownFields m fun fields m' => m' = m ∧ ∀ s, fields.get? name = some s →
        s < m.heap.size ∧ m.Finds name s := by
      refine Meets.bind_ok rfl ?_
      cases hobject : m.frame.object with
      | none => exact pure_meets ⟨rfl, nofun⟩
      | some object =>
        obtain ⟨fields, hfields⟩ := Heap.form?_object.mp (hm.frame.object object hobject)
        have hcell : (cell object).run m = .ok (.object m.frame.cls fields) m := by
          rw [cell_run, hfields]
          rfl
        refine Meets.bind_ok hcell ?_
        · refine pure_meets ⟨rfl, fun s hs => ⟨hm.heap.field_lt hfields (Bindings.mem_of_get? hs), ?_⟩⟩
          exact .inr ⟨hlocal, object, fields, hobject, hfields, hs⟩
    exact hown.bind fun _ _ hfields => pure_meets hfields

theorem lookup_meets (hm : m.Based c) (name : String) :
    Meets c (lookup name) m fun s m' => m' = m ∧ s < m.heap.size ∧ m.Finds name s := by
  refine (find?_meets hm name).bind fun found m' hfound => ?_
  cases found with
  | none => exact fault_meets trivial
  | some s => exact pure_meets ⟨hfound.1, hfound.2 s rfl⟩

theorem lookupEach_meets (hm : m.Based c) (decls : List Decl) :
    Meets c (lookupEach decls) m fun slots m' =>
      m' = m ∧ slots.length = decls.length ∧ ∀ s ∈ slots, s < m.heap.size := by
  induction decls with
  | nil => exact pure_meets ⟨rfl, rfl, nofun⟩
  | cons d rest ih =>
    refine (lookup_meets hm d.name).bind fun s m' hs => ?_
    obtain ⟨rfl, hlt, -⟩ := hs
    refine ih.bind fun slots m'' hslots => ?_
    obtain ⟨rfl, hlength, hall⟩ := hslots
    refine pure_meets ⟨rfl, by rw [List.length_cons, List.length_cons, hlength], ?_⟩
    exact List.forall_mem_cons.mpr ⟨hlt, hall⟩

/-! ### Writing -/

theorem orFault_meets {e : Except Fault α} (he : ∀ f, e = .error f → f.Proper c) :
    Meets c (orFault e) m fun a m' => m' = m ∧ e = .ok a := by
  cases e with
  | ok a => exact pure_meets ⟨rfl, rfl⟩
  | error f => exact fault_meets (he f rfl)

/-- The types of the declarations are those of variables of a class. -/
def Declared (c : Catalog) (decls : List Decl) : Prop := ∃ cls ∈ c.classes, decls ⊆ cls.variables

theorem initial_proper {decls : List Decl} {d : Decl} (hdecls : Declared c decls) (hd : d ∈ decls)
    (f : Fault) (hf : c.initial d.type = .error f) : f.Proper c := by
  obtain ⟨cls, hcls, hsub⟩ := hdecls
  rw [Catalog.initial_error hf]
  exact ⟨cls, hcls, .inr ⟨d, hsub hd, rfl, f, hf⟩⟩

theorem fresh_meets {type : String} (hproper : ∀ f, c.initial type = .error f → f.Proper c) :
    Meets c (fresh c type) m fun s m' => ∃ cell, c.initial type = .ok cell ∧ s = m.heap.size ∧
      m' = { m with heap := (m.heap.alloc cell).2 } := by
  refine (orFault_meets hproper).bind fun cell m' hcell => ?_
  obtain ⟨rfl, hcell⟩ := hcell
  exact Meets.of_ok rfl ⟨cell, hcell, rfl, rfl⟩

theorem declare_meets (free : Prop) (hc : c.Regular) {decls : List Decl} (hdecls : Declared c decls) (hm : m.Based c) :
    Meets c (declare c decls) m fun _ m' =>
      m.Stays c free m' ∧ ∀ d ∈ decls, m'.frame.locals.contains d.name = true := by
  induction decls generalizing m with
  | nil => exact pure_meets ⟨.refl hm, nofun⟩
  | cons d rest ih =>
    have hrest : Declared c rest := by
      obtain ⟨cls, hcls, hsub⟩ := hdecls
      exact ⟨cls, hcls, fun d hd => hsub (List.mem_cons_of_mem _ hd)⟩
    refine Meets.bind_ok rfl ?_
    by_cases hold : m.frame.locals.contains d.name = true
    · rw [if_neg (by simp [hold])]
      refine (ih hrest hm).imp fun _ m' hm' => ⟨hm'.1, ?_⟩
      exact List.forall_mem_cons.mpr ⟨hm'.1.grows.locals _ hold, hm'.2⟩
    · rw [if_pos (by simp [hold])]
      refine (fresh_meets (initial_proper hdecls List.mem_cons_self)).bind fun s m₁ hs => ?_
      obtain ⟨cell, hcell, rfl, rfl⟩ := hs
      have hch : m.heap.Changes c free (m.heap.alloc cell).2 :=
        .single (.alloc (Heap.initial_blank hcell))
      have halloc := Machine.Stays.of_changes hc hm hch
      have hnew : m.heap.size < (m.heap.alloc cell).2.size := by
        rw [Heap.size_alloc]
        exact Nat.lt_succ_self _
      have hbound := halloc.trans (.of_local free halloc.based d.name hnew)
      refine Meets.bind_ok rfl ?_
      refine (ih hrest hbound.based).imp fun _ m' hm' => ⟨hbound.trans hm'.1, ?_⟩
      refine List.forall_mem_cons.mpr ⟨hm'.1.grows.locals _ ?_, hm'.2⟩
      simp [Bindings.contains_insert]

theorem bindEach_meets (free : Prop) {params : List Decl} {slots : List Slot} (hm : m.Based c)
    (hs : ∀ s ∈ slots, s < m.heap.size) :
    Meets c (bindEach params slots) m fun _ m' => m.Stays c free m' ∧ m'.heap = m.heap := by
  induction params generalizing m slots with
  | nil => exact pure_meets ⟨.refl hm, rfl⟩
  | cons p params ih =>
    cases slots with
    | nil => exact pure_meets ⟨.refl hm, rfl⟩
    | cons s slots =>
      obtain ⟨hfirst, hrest⟩ := List.forall_mem_cons.mp hs
      have hlocal := Machine.Stays.of_local free hm p.name hfirst
      refine Meets.bind_ok rfl ?_
      exact (ih hlocal.based hrest).imp fun _ m' hm' => ⟨hlocal.trans hm'.1, hm'.2⟩

theorem bindAll_meets (free : Prop) {params : List Decl} {slots : List Slot} (hm : m.Based c)
    (hlength : params.length = slots.length) (hs : ∀ s ∈ slots, s < m.heap.size) :
    Meets c (bindAll params slots) m fun _ m' => m.Stays c free m' ∧ m'.heap = m.heap := by
  unfold bindAll
  rw [if_neg (not_not.mpr hlength)]
  exact bindEach_meets free hm hs

theorem setField_run {object name : _} {s : Slot} {cls : Class} {fields : Bindings}
    (hobject : m.heap.cell? object = some (.object cls fields)) :
    (setField object name s).run m =
      .ok () { m with heap := m.heap.write object (.object cls (fields.insert name s)) } := by
  rw [setField, run_bind, cell_run, hobject]
  rfl

theorem populate_meets {object : Nat} {decls : List Decl} {cls : Class} {fields : Bindings}
    (hdecls : Declared c decls) (hobject : m.heap.cell? object = some (.object cls fields)) :
    Meets c (populate c object decls) m fun _ m' =>
      ∃ h, Heap.Fills c object decls m.heap h ∧ m' = { m with heap := h } := by
  induction decls generalizing m fields with
  | nil => exact pure_meets ⟨m.heap, .none, rfl⟩
  | cons d rest ih =>
    have hrest : Declared c rest := by
      obtain ⟨cls, hcls, hsub⟩ := hdecls
      exact ⟨cls, hcls, fun d hd => hsub (List.mem_cons_of_mem _ hd)⟩
    refine (fresh_meets (initial_proper hdecls List.mem_cons_self)).bind fun s m₁ hs => ?_
    obtain ⟨cell, hcell, rfl, rfl⟩ := hs
    have hlt : object < m.heap.size := Heap.lt_size_of_cell? hobject
    have hobject' : (m.heap.alloc cell).2.cell? object = some (.object cls fields) := by
      rw [Heap.cell?_alloc, if_neg (Nat.ne_of_lt hlt), hobject]
    refine Meets.bind_ok (setField_run hobject') ?_
    have hwritten : ((m.heap.alloc cell).2.write object
        (.object cls (fields.insert d.name m.heap.size))).cell? object =
        some (.object cls (fields.insert d.name m.heap.size)) := by
      rw [Heap.cell?_write (Heap.lt_size_of_cell? hobject'), if_pos rfl]
    refine (ih hrest hwritten).imp fun _ m' hm' => ?_
    obtain ⟨h, hfills, rfl⟩ := hm'
    exact ⟨h, .more hcell hobject hfills, rfl⟩

theorem assign_meets (free : Prop) (hc : c.Regular) {target source : Nat} (hm : m.Based c)
    (htarget : target < m.heap.size) (hsource : source < m.heap.size) :
    Meets c (assign target source) m fun _ m' => m.Stays c free m' ∧ m'.frame = m.frame := by
  show Meets c (get >>= fun m => orHalt (m.heap.update target source) >>= fun u =>
    onHeap fun h => ((), h.apply target u)) m _
  refine Meets.bind_ok rfl ?_
  cases hu : m.heap.update target source with
  | ok u =>
    have hch : m.heap.Changes c free (m.heap.apply target u) := .single (.assign hu)
    exact Meets.of_ok rfl ⟨.of_changes hc hm hch, rfl⟩
  | error e =>
    refine Meets.of_error rfl ?_
    cases e with
    | finished => trivial
    | stuck =>
      -- Only a cycle of objects could not be copied, and an owned heap has none.
      refine absurd ?_ (hm.heap.owned.assign_ne_stuck htarget hsource)
      rw [Heap.assign, hu]
      rfl
    | fault f =>
      unfold Heap.update at hu
      split at hu
      case h_5 =>
        split at hu
        · cases hu
          trivial
        · split at hu
          · cases hu
          · split at hu <;> cases hu
      all_goals
        cases hu
        try trivial

theorem storeEach_meets (free : Prop) (hc : c.Regular) {shortfall : Unit → String} {names : List String}
    {slots : List Slot} (hm : m.Based c) (hs : ∀ s ∈ slots, s < m.heap.size) :
    Meets c (storeEach shortfall names slots) m fun _ m' => m.Stays c free m' := by
  induction names generalizing m slots with
  | nil => exact pure_meets (.refl hm)
  | cons name names ih =>
    cases slots with
    | nil => exact (note_meets _ _).imp fun _ m' hm' => hm'.stays hm
    | cons s slots =>
      obtain ⟨hfirst, hrest⟩ := List.forall_mem_cons.mp hs
      refine (lookup_meets hm name).bind fun target m' htarget => ?_
      obtain ⟨rfl, hlt, -⟩ := htarget
      refine (assign_meets free hc hm hlt hfirst).bind fun _ m₁ hm₁ => ?_
      refine (ih hm₁.1.based fun s hmem => ?_).imp fun _ m₂ hm₂ => hm₁.1.trans hm₂
      exact hm₁.1.changes.keepsForms.lt (hrest s hmem)

end Exec

end Offside
