import Offside.Machine.Run

/-! What a machine works on, apart from what it has to do.

Most actions read and change the heap, the scope, the console and the log, and neither know nor
change the task, the stack and the statement being executed: they are `Uniform`. Those that also
leave alone whose code runs, and forget no local variable, are `Local`. -/
namespace Offside

/-- The heap, the scope, the console and the log. -/
structure World where
  heap : Heap
  frame : Frame
  records : List String
  threshold : Level
  log : List LogEntry

/-- A machine that works on this and has that to do. -/
def World.machine (w : World) (here : Option Span) (task : Task) (stack : List Pending) : Machine :=
  ⟨w.heap, w.frame, here, task, stack, w.records, w.threshold, w.log⟩

def Machine.world (m : Machine) : World := ⟨m.heap, m.frame, m.records, m.threshold, m.log⟩

/-! ### Scopes -/

section Bindings
variable {b : Bindings} {name other : String} {s : Slot}

theorem Bindings.get?_insert_self : (b.insert name s).get? name = some s := by
  obtain ⟨entries⟩ := b
  show Bindings.get?.go name (Bindings.insert.go name s entries) = some s
  induction entries with
  | nil => simp [Bindings.insert.go, Bindings.get?.go]
  | cons entry rest ih =>
    obtain ⟨first, old⟩ := entry
    unfold Bindings.insert.go
    by_cases hfirst : first = name
    · simp [hfirst, Bindings.get?.go]
    · by_cases hless : name < first
      · simp [hfirst, hless, Bindings.get?.go]
      · simpa [hfirst, hless, Bindings.get?.go] using ih

theorem Bindings.get?_insert_of_ne (hne : other ≠ name) :
    (b.insert name s).get? other = b.get? other := by
  obtain ⟨entries⟩ := b
  show Bindings.get?.go other (Bindings.insert.go name s entries) = Bindings.get?.go other entries
  induction entries with
  | nil => simp [Bindings.insert.go, Bindings.get?.go, hne.symm]
  | cons entry rest ih =>
    obtain ⟨first, old⟩ := entry
    unfold Bindings.insert.go
    by_cases hfirst : first = name
    · subst hfirst
      simp [Bindings.get?.go, hne.symm]
    · by_cases hless : name < first
      · simp [hfirst, hless, Bindings.get?.go, hne.symm]
      · by_cases hother : first = other
        · subst hother
          simp [hne, hless, Bindings.get?.go]
        · simpa [hfirst, hless, Bindings.get?.go, hother] using ih

theorem Bindings.contains_insert :
    (b.insert name s).contains other = (decide (other = name) || b.contains other) := by
  by_cases h : other = name
  · subst h
    simp [Bindings.contains, Bindings.get?_insert_self]
  · simp [Bindings.contains, Bindings.get?_insert_of_ne h, h]

end Bindings

/-- The same code's scope later on: no local variable is forgotten. -/
structure Frame.Grows (f f' : Frame) : Prop where
  object : f'.object = f.object
  cls : f'.cls = f.cls
  locals : ∀ name, f.locals.contains name = true → f'.locals.contains name = true

theorem Frame.Grows.refl (f : Frame) : f.Grows f := ⟨rfl, rfl, fun _ h => h⟩

theorem Frame.Grows.trans {f f' f'' : Frame} (h : f.Grows f') (h' : f'.Grows f'') : f.Grows f'' :=
  ⟨h'.object.trans h.object, h'.cls.trans h.cls, fun name hname =>
    h'.locals name (h.locals name hname)⟩

theorem Frame.grows_insert (f : Frame) (name : String) (s : Slot) :
    f.Grows { f with locals := f.locals.insert name s } := by
  refine ⟨rfl, rfl, fun other hother => ?_⟩
  simp [Bindings.contains_insert, hother]

/-! ### Actions on worlds -/

namespace Exec

variable {α β : Type}

/-- What an action does to a world. -/
def on (x : Exec α) (w : World) : EStateM.Result Halt World α :=
  match x.run (w.machine none .enter []) with
  | .ok a m => .ok a m.world
  | .error h m => .error h m.world

theorem on_eq_ok {x : Exec α} {w w' : World} {a : α} (h : x.on w = .ok a w') :
    ∃ m', x.run (w.machine none .enter []) = .ok a m' ∧ w' = m'.world := by
  unfold on at h
  split at h
  · cases h
    exact ⟨_, ‹_›, rfl⟩
  · cases h

/-- What came of a world, for a machine that has this to do. -/
def place (here : Option Span) (task : Task) (stack : List Pending) :
    EStateM.Result Halt World α → EStateM.Result Halt Machine α
  | .ok a w => .ok a (w.machine here task stack)
  | .error h w => .error h (w.machine here task stack)

/-- An action for which it is all one what a machine has to do, and which does not change it. -/
def Uniform (x : Exec α) : Prop :=
  ∀ w here task stack, x.run (w.machine here task stack) = place here task stack (x.on w)

/-- A uniform action that stays in its scope. -/
structure Local (x : Exec α) : Prop where
  uniform : Uniform x
  grows : ∀ w a w', x.on w = .ok a w' → w.frame.Grows w'.frame

theorem run_bind (x : Exec α) (f : α → Exec β) (m : Machine) :
    (x >>= f).run m = match x.run m with
      | .ok a m' => (f a).run m'
      | .error h m' => .error h m' := by
  show EStateM.bind x f m = _
  unfold EStateM.bind EStateM.run
  cases x m <;> rfl

theorem Uniform.run_bind {x : Exec α} (hx : Uniform x) (f : α → Exec β) (w : World)
    (here : Option Span)
    (task : Task) (stack : List Pending) :
    (x >>= f).run (w.machine here task stack) = match x.on w with
      | .ok a w' => (f a).run (w'.machine here task stack)
      | .error h w' => .error h (w'.machine here task stack) := by
  rw [Exec.run_bind, hx]
  cases x.on w <;> rfl

theorem Uniform.run_of_ok {x : Exec α} (hx : Uniform x) {w w' : World} {a : α} (hon : x.on w = .ok a w')
    (here : Option Span) (task : Task) (stack : List Pending) :
    x.run (w.machine here task stack) = .ok a (w'.machine here task stack) := by
  rw [hx, hon]
  rfl

theorem Uniform.on_bind {x : Exec α} (hx : Uniform x) (f : α → Exec β) (w : World) :
    (x >>= f).on w = match x.on w with
      | .ok a w' => (f a).on w'
      | .error h w' => .error h w' := by
  rw [on, hx.run_bind]
  cases x.on w <;> rfl

theorem Uniform.on_bind_of_ok {x : Exec α} (hx : Uniform x) {f : α → Exec β} {w w' : World} {a : α}
    (hon : x.on w = .ok a w') : (x >>= f).on w = (f a).on w' := by
  rw [hx.on_bind, hon]

theorem Uniform.bind_eq_ok {x : Exec α} (hx : Uniform x) {f : α → Exec β} {w w'' : World} {b : β}
    (h : (x >>= f).on w = .ok b w'') : ∃ a w', x.on w = .ok a w' ∧ (f a).on w' = .ok b w'' := by
  rw [hx.on_bind] at h
  cases hon : x.on w with
  | ok a w' =>
    rw [hon] at h
    exact ⟨a, w', rfl, h⟩
  | error reason w' =>
    rw [hon] at h
    cases h

theorem Uniform.bind {x : Exec α} {f : α → Exec β} (hx : Uniform x) (hf : ∀ a, Uniform (f a)) :
    Uniform (x >>= f) := by
  intro w here task stack
  rw [hx.run_bind, hx.on_bind]
  cases x.on w with
  | ok a w' => exact hf a w' here task stack
  | error h w' => rfl

theorem Local.bind {x : Exec α} {f : α → Exec β} (hx : Local x) (hf : ∀ a, Local (f a)) :
    Local (x >>= f) := by
  refine ⟨hx.uniform.bind fun a => (hf a).uniform, fun w b w'' h => ?_⟩
  obtain ⟨a, w', ha, hb⟩ := hx.uniform.bind_eq_ok h
  exact (hx.grows w a w' ha).trans ((hf a).grows w' b w'' hb)

/-- A uniform action that leaves the scope as it is. -/
theorem Local.of_frame_eq {x : Exec α} (hx : Uniform x)
    (h : ∀ w a w', x.on w = .ok a w' → w'.frame = w.frame) :
    Local x :=
  ⟨hx, fun w a w' hon => h w a w' hon ▸ .refl _⟩

/-! ### Small actions -/

theorem pure_local (a : α) : Local (pure a) := by
  refine .of_frame_eq (fun _ _ _ _ => rfl) fun w b w' h => ?_
  cases h
  rfl

theorem throw_local (h : Halt) : Local (throw h : Exec α) :=
  .of_frame_eq (fun _ _ _ _ => rfl) nofun

theorem fault_local (f : Fault) : Local (fault f : Exec α) := throw_local _

theorem stuck_local : Local (stuck : Exec α) := throw_local _

theorem orStuck_local (o : Option α) : Local (orStuck o) := by
  cases o with
  | none => exact stuck_local
  | some a => exact pure_local a

theorem orHalt_local (e : Except Halt α) : Local (orHalt e) := by
  cases e with
  | ok a => exact pure_local a
  | error h => exact throw_local h

theorem orFault_local (e : Except Fault α) : Local (orFault e) := by
  cases e with
  | ok a => exact pure_local a
  | error f => exact fault_local f

theorem frame_local : Local frame := by
  refine .of_frame_eq (fun _ _ _ _ => rfl) fun w a w' h => ?_
  cases h
  rfl

theorem setFrame_uniform (f : Frame) : Uniform (setFrame f) := fun _ _ _ _ => rfl

theorem write_local (record : String) : Local (write record) := by
  refine .of_frame_eq (fun _ _ _ _ => rfl) fun w a w' h => ?_
  cases h
  rfl

/-- What noting something does to a world. -/
def noted (level : Level) (message : Unit → String) (w : World) : World :=
  if level.shownAt w.threshold then { w with log := ⟨level, .interp, message ()⟩ :: w.log } else w

theorem noted_heap (level : Level) (message : Unit → String) (w : World) :
    (noted level message w).heap = w.heap := by
  unfold noted
  split <;> rfl

theorem noted_frame (level : Level) (message : Unit → String) (w : World) :
    (noted level message w).frame = w.frame := by
  unfold noted
  split <;> rfl

theorem note_run (level : Level) (message : Unit → String) (w : World) (here : Option Span)
    (task : Task)
    (stack : List Pending) : (note level message).run (w.machine here task stack) =
      .ok () ((noted level message w).machine here task stack) := by
  show EStateM.Result.ok () _ = _
  congr 1
  unfold noted
  split <;> (rename_i h; simp only [World.machine] at h ⊢; simp [h])

theorem note_on (level : Level) (message : Unit → String) (w : World) :
    (note level message).on w = .ok () (noted level message w) := by
  rw [on, note_run]
  rfl

theorem note_local (level : Level) (message : Unit → String) : Local (note level message) := by
  refine .of_frame_eq (fun w here task stack => ?_) fun w a w' h => ?_
  · rw [note_run, note_on]
    rfl
  · rw [note_on] at h
    cases h
    exact noted_frame level message w

/-! ### The heap -/

theorem cell_local (s : Slot) : Local (cell s) := by
  refine .of_frame_eq
    (fun w here task stack => (orStuck_local (w.heap.cell? s)).uniform w here task stack) ?_
  intro w a w' h
  change (orStuck (w.heap.cell? s)).on w = .ok a w' at h
  cases hcell : w.heap.cell? s with
  | none =>
    rw [hcell] at h
    cases h
  | some c =>
    rw [hcell] at h
    cases h
    rfl

theorem value_local (s : Slot) : Local (value s) := by
  refine .of_frame_eq
    (fun w here task stack => (orStuck_local (w.heap.value? s)).uniform w here task stack) ?_
  intro w a w' h
  change (orStuck (w.heap.value? s)).on w = .ok a w' at h
  cases hvalue : w.heap.value? s with
  | none =>
    rw [hvalue] at h
    cases h
  | some v =>
    rw [hvalue] at h
    cases h
    rfl

theorem onHeap_local (f : Heap → α × Heap) : Local (onHeap f) := by
  refine .of_frame_eq (fun _ _ _ _ => rfl) fun w a w' h => ?_
  cases h
  rfl

theorem alloc_local (c : Cell) : Local (alloc c) := onHeap_local _

theorem copy_local (s : Slot) : Local (copy s) := (value_local s).bind fun _ => onHeap_local _

theorem assign_local (target source : Slot) : Local (assign target source) := by
  have hcont : ∀ u, Local (orHalt u >>= fun u => onHeap fun h => ((), h.apply target u)) :=
    fun u => (orHalt_local u).bind fun _ => onHeap_local _
  exact ⟨fun w here task stack => (hcont (w.heap.update target source)).uniform w here task stack,
    fun w a w' h => (hcont (w.heap.update target source)).grows w a w' h⟩

/-! ### Variables -/

theorem ownFields_local : Local ownFields := by
  refine frame_local.bind fun f => ?_
  split
  · exact pure_local _
  · refine (cell_local _).bind fun c => ?_
    split
    · exact pure_local _
    · exact stuck_local

theorem find?_local (name : String) : Local (find? name) := by
  refine frame_local.bind fun f => ?_
  split
  · exact pure_local _
  · exact ownFields_local.bind fun _ => pure_local _

theorem lookup_local (name : String) : Local (lookup name) := by
  refine (find?_local name).bind fun found => ?_
  split
  · exact pure_local _
  · exact fault_local _

theorem setLocal_local (name : String) (s : Slot) : Local (setLocal name s) := by
  refine ⟨fun _ _ _ _ => rfl, fun w a w' h => ?_⟩
  cases h
  exact Frame.grows_insert _ _ _

theorem setField_local (object : Slot) (name : String) (s : Slot) :
    Local (setField object name s) := by
  refine (cell_local object).bind fun c => ?_
  split
  · exact onHeap_local _
  · exact stuck_local

theorem rebind_local (name : String) (s : Slot) : Local (rebind name s) := by
  refine frame_local.bind fun f => ?_
  split
  · exact setLocal_local _ _
  · exact (orStuck_local _).bind fun _ => setField_local _ _ _

/-! ### Larger actions -/

theorem fresh_local (c : Catalog) (type : String) : Local (fresh c type) :=
  (orFault_local _).bind fun _ => alloc_local _

theorem declare_local (c : Catalog) (decls : List Decl) : Local (declare c decls) := by
  induction decls with
  | nil => exact pure_local _
  | cons d rest ih =>
    refine frame_local.bind fun f => ?_
    split
    · exact (fresh_local c d.type).bind fun _ => (setLocal_local _ _).bind fun _ => ih
    · exact ih

theorem bindEach_local (params : List Decl) (slots : List Slot) :
    Local (bindEach params slots) := by
  induction params generalizing slots with
  | nil => exact pure_local _
  | cons p params ih =>
    cases slots with
    | nil => exact pure_local _
    | cons s slots => exact (setLocal_local _ _).bind fun _ => ih slots

theorem bindAll_local (params : List Decl) (slots : List Slot) : Local (bindAll params slots) := by
  unfold bindAll
  split
  · exact (fault_local _).bind fun _ => bindEach_local _ _
  · exact bindEach_local _ _

theorem populate_local (c : Catalog) (object : Slot) (decls : List Decl) :
    Local (populate c object decls) := by
  induction decls with
  | nil => exact pure_local _
  | cons d rest ih =>
    exact (fresh_local c d.type).bind fun _ => (setField_local _ _ _).bind fun _ => ih

theorem lookupEach_local (decls : List Decl) : Local (lookupEach decls) := by
  induction decls with
  | nil => exact pure_local _
  | cons d rest ih => exact (lookup_local _).bind fun _ => ih.bind fun _ => pure_local _

theorem cells_local (slots : List Slot) : Local (cells slots) := by
  induction slots with
  | nil => exact pure_local _
  | cons s rest ih => exact (cell_local s).bind fun _ => ih.bind fun _ => pure_local _

theorem valuesOf_local (slots : List Slot) : Local (valuesOf slots) := by
  induction slots with
  | nil => exact pure_local _
  | cons s rest ih => exact (value_local s).bind fun _ => ih.bind fun _ => pure_local _

theorem resolve_local (c : Catalog) (cls : Class) (name : String) (values : List Cell)
    (targets : Nat)
    (sharedOnly : Bool) : Local (resolve c cls name values targets sharedOnly) := by
  refine (orFault_local _).bind fun found => ?_
  split
  · exact (note_local _ _).bind fun _ => pure_local _
  · exact pure_local _

theorem truthOf_local (condition : Expr) (s : Slot) : Local (truthOf condition s) := by
  refine (cell_local s).bind fun c => ?_
  split
  · exact pure_local _
  · exact fault_local _

theorem storeItem_local (name : String) (iterator item : Slot) :
    Local (storeItem name iterator item) := by
  refine (lookup_local name).bind fun target => ?_
  split
  · exact (copy_local item).bind fun _ => rebind_local _ _
  · exact assign_local _ _

theorem storeEach_local (shortfall : Unit → String) (names : List String) (slots : List Slot) :
    Local (storeEach shortfall names slots) := by
  induction names generalizing slots with
  | nil => exact pure_local _
  | cons name names ih =>
    cases slots with
    | nil => exact note_local _ _
    | cons s slots => exact (lookup_local name).bind fun _ => (assign_local _ _).bind fun _ => ih slots

/-! ### Scopes -/

section Scopes
variable {c : Catalog} {w w' : World}

theorem fresh_on (type : String) : (fresh c type).on w = match c.initial type with
    | .ok cell => .ok (w.heap.alloc cell).1 { w with heap := (w.heap.alloc cell).2 }
    | .error f => .error (.fault f) w := by
  have hbind := (orFault_local (c.initial type)).uniform.on_bind alloc w
  change (fresh c type).on w = _ at hbind
  rw [hbind]
  cases c.initial type <;> rfl

theorem declare_cons_on (d : Decl) (rest : List Decl) : (declare c (d :: rest)).on w =
    if w.frame.locals.contains d.name then (declare c rest).on w
    else match c.initial d.type with
      | .ok cell => (declare c rest).on
          ⟨(w.heap.alloc cell).2,
            { w.frame with locals := w.frame.locals.insert d.name (w.heap.alloc cell).1 },
            w.records, w.threshold, w.log⟩
      | .error f => .error (.fault f) w := by
  show (frame >>= fun f =>
    if !f.locals.contains d.name then fresh c d.type >>= fun s => setLocal d.name s >>= fun _ =>
      declare c rest
    else declare c rest).on w = _
  rw [frame_local.uniform.on_bind]
  show (if !w.frame.locals.contains d.name then _ else _ : Exec Unit).on w = _
  cases w.frame.locals.contains d.name with
  | true => rfl
  | false =>
    show (fresh c d.type >>= fun s => setLocal d.name s >>= fun _ => declare c rest).on w = _
    rw [(fresh_local c d.type).uniform.on_bind, fresh_on]
    cases c.initial d.type with
    | error f => rfl
    | ok cell =>
      show (setLocal d.name _ >>= fun _ => declare c rest).on _ = _
      rw [(setLocal_local _ _).uniform.on_bind]
      rfl

/-- Declared variables are there. -/
theorem declare_contains {decls : List Decl} (h : (declare c decls).on w = .ok () w') :
    ∀ d ∈ decls, w'.frame.locals.contains d.name = true := by
  induction decls generalizing w with
  | nil => simp
  | cons d rest ih =>
    rw [declare_cons_on] at h
    intro d' hd'
    rcases List.mem_cons.1 hd' with rfl | hrest
    · split at h
      · rename_i hold
        exact ((declare_local c rest).grows _ _ _ h).locals _ hold
      · split at h
        · refine ((declare_local c rest).grows _ _ _ h).locals _ ?_
          simp [Bindings.contains_insert]
        · cases h
    · split at h
      · exact ih h d' hrest
      · split at h
        · exact ih h d' hrest
        · cases h

/-- Two scopes with variables of the same names. -/
def SameNames (w v : World) : Prop :=
  ∀ name, w.frame.locals.contains name = v.frame.locals.contains name

/-- Whether variables can be declared depends on the names that there are, and on nothing else. -/
theorem declare_of_sameNames {decls : List Decl} {v : World} (hnames : SameNames w v)
    (h : (declare c decls).on w = .ok () w') : ∃ v', (declare c decls).on v = .ok () v' ∧
    SameNames w' v' := by
  induction decls generalizing w v with
  | nil =>
    cases h
    exact ⟨v, rfl, hnames⟩
  | cons d rest ih =>
    rw [declare_cons_on] at h ⊢
    rw [hnames d.name] at h
    split at h
    · rename_i hold
      rw [if_pos hold]
      exact ih hnames h
    · rename_i hnew
      rw [if_neg hnew]
      cases hcell : c.initial d.type with
      | error f =>
        rw [hcell] at h
        cases h
      | ok cell =>
        rw [hcell] at h
        refine ih (fun name => ?_) h
        show (Bindings.insert _ _ _).contains name = (Bindings.insert _ _ _).contains name
        rw [Bindings.contains_insert, Bindings.contains_insert, hnames name]

/-- Arguments for no parameters are no arguments. -/
theorem bindAll_nil_on {params : List Decl} (h : (bindAll params []).on w = .ok () w') :
    params = [] ∧ w' = w := by
  cases params with
  | nil =>
    cases h
    exact ⟨rfl, rfl⟩
  | cons p params => cases h

theorem lookup_on {name : String} {s : Slot} (h : w.frame.locals.get? name = some s) :
    (lookup name).on w = .ok s w := by
  have hfind : (find? name).on w = .ok (some s) w := by
    unfold find?
    have hframe : frame.on w = .ok w.frame w := rfl
    rw [frame_local.uniform.on_bind_of_ok hframe, h]
    rfl
  unfold lookup
  rw [(find?_local name).uniform.on_bind_of_ok hfind]
  rfl

theorem lookupEach_on {decls : List Decl} (h : ∀ d ∈ decls, w.frame.locals.contains d.name = true) :
    ∃ slots, (lookupEach decls).on w = .ok slots w := by
  induction decls with
  | nil => exact ⟨[], rfl⟩
  | cons d rest ih =>
    obtain ⟨s, hs⟩ := Option.isSome_iff_exists.1 (h d List.mem_cons_self)
    obtain ⟨slots, hslots⟩ := ih fun d hd => h d (List.mem_cons_of_mem _ hd)
    refine ⟨s :: slots, ?_⟩
    show (lookup d.name >>= fun s => lookupEach rest >>= fun slots => pure (s :: slots)).on w = _
    rw [(lookup_local _).uniform.on_bind_of_ok (lookup_on hs),
      (lookupEach_local _).uniform.on_bind_of_ok hslots]
    rfl

end Scopes

end Exec

end Offside
