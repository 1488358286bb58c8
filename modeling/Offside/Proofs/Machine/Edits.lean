import Offside.Machine.Run
import Offside.Proofs.Heap.Ownership

/-! What a run does to its heap.

Every action of a machine changes the heap by edits only, whether it goes on or halts; so do steps and
runs. Where an edit needs slots that are on the heap already, they are named: a slot once on the heap
stays there. -/
namespace Offside.Exec

variable {α β : Type} {slots : List Slot}

/-- The machine that an action leads to, whether it goes on or halts. -/
def after (x : Exec α) (m : Machine) : Machine :=
  match x.run m with
  | .ok _ m' => m'
  | .error _ m' => m'

/-- An action that only edits the heap, provided that these slots are on it. -/
def Edits (slots : List Slot) (x : Exec α) : Prop :=
  ∀ m : Machine, (∀ s ∈ slots, s < m.heap.size) → Heap.Edits m.heap (x.after m).heap

theorem after_bind_of_ok {x : Exec α} {f : α → Exec β} {m m' : Machine} {a : α} (hx : x.run m = .ok a m') :
    (x >>= f).after m = (f a).after m' := by
  simp only [after, EStateM.run, bind, EStateM.bind] at hx ⊢
  rw [hx]

theorem after_bind_of_error {x : Exec α} {f : α → Exec β} {m m' : Machine} {e : Halt}
    (hx : x.run m = .error e m') : (x >>= f).after m = m' := by
  simp only [after, EStateM.run, bind, EStateM.bind] at hx ⊢
  rw [hx]

theorem after_of_ok {x : Exec α} {m m' : Machine} {a : α} (hx : x.run m = .ok a m') : x.after m = m' := by
  rw [after, hx]

/-- One action after another, from one machine. -/
theorem edits_bind {x : Exec α} {f : α → Exec β} {h : Heap} {m : Machine}
    (hx : Heap.Edits h (x.after m).heap)
    (hf : ∀ a m', x.run m = .ok a m' → Heap.Edits h ((f a).after m').heap) :
    Heap.Edits h ((x >>= f).after m).heap := by
  cases hrun : x.run m with
  | ok a m' =>
    rw [after_bind_of_ok hrun]
    exact hf a m' hrun
  | error e m' =>
    rw [after_bind_of_error hrun]
    rwa [after, hrun] at hx

/-- One action after another, where the second may use what the first came to. -/
theorem Edits.bind_of {x : Exec α} {f : α → Exec β} (hx : Edits slots x)
    (hf : ∀ m a m', x.run m = .ok a m' → Edits slots (f a)) : Edits slots (x >>= f) := by
  intro m hm
  refine edits_bind (hx m hm) fun a m' hrun => ?_
  have hfirst := hx m hm
  rw [after_of_ok hrun] at hfirst
  exact hfirst.trans (hf m a m' hrun m' fun s hs => Nat.lt_of_lt_of_le (hm s hs) hfirst.grows)

theorem Edits.bind {x : Exec α} {f : α → Exec β} (hx : Edits slots x) (hf : ∀ a, Edits slots (f a)) :
    Edits slots (x >>= f) :=
  hx.bind_of fun _ a _ _ => hf a

/-- An action that leaves the heap alone. -/
theorem Edits.of_heap_eq {x : Exec α} (hx : ∀ m, (x.after m).heap = m.heap) : Edits slots x :=
  fun m _ => hx m ▸ .refl

/-! ### Actions that leave the heap alone -/

theorem pure_edits {a : α} : Edits slots (pure a) := .of_heap_eq fun _ => rfl

theorem throw_edits {h : Halt} : Edits slots (throw h : Exec α) := .of_heap_eq fun _ => rfl

theorem get_edits : Edits slots (get : Exec Machine) := .of_heap_eq fun _ => rfl

theorem modify_edits {f : Machine → Machine} (hf : ∀ m, (f m).heap = m.heap) : Edits slots (modify f : Exec Unit) :=
  .of_heap_eq hf

theorem orStuck_edits {o : Option α} : Edits slots (orStuck o) := by
  cases o with
  | none => exact throw_edits
  | some a => exact pure_edits

theorem orFault_edits {e : Except Fault α} : Edits slots (orFault e) := by
  cases e with
  | ok a => exact pure_edits
  | error f => exact throw_edits

theorem pop_edits : Edits slots pop := by
  refine .bind get_edits fun m => ?_
  split
  · exact .bind (modify_edits fun _ => rfl) fun _ => pure_edits
  · exact throw_edits

theorem push_edits {p : Pending} : Edits slots (push p) := modify_edits fun _ => rfl

theorem setTask_edits {t : Task} : Edits slots (setTask t) := modify_edits fun _ => rfl

theorem await_edits {p : Pending} {t : Task} : Edits slots (await p t) :=
  .bind push_edits fun _ => setTask_edits

theorem moveTo_edits {span : Option Span} : Edits slots (moveTo span) := modify_edits fun _ => rfl

theorem setFrame_edits {f : Frame} : Edits slots (setFrame f) := modify_edits fun _ => rfl

theorem frame_edits : Edits slots frame := .bind get_edits fun _ => pure_edits

theorem write_edits {record : String} : Edits slots (write record) := modify_edits fun _ => rfl

theorem note_edits {level : Level} {message : Unit → String} : Edits slots (note level message) :=
  modify_edits fun m => by split <;> rfl

theorem cell_edits {s : Slot} : Edits slots (cell s) := .bind get_edits fun _ => orStuck_edits

theorem value_edits {s : Slot} : Edits slots (value s) := .bind get_edits fun _ => orStuck_edits

theorem ownFields_edits : Edits slots ownFields := by
  refine .bind frame_edits fun f => ?_
  split
  · exact pure_edits
  · refine .bind cell_edits fun c => ?_
    split
    · exact pure_edits
    · exact throw_edits

theorem find?_edits {name : String} : Edits slots (find? name) := by
  refine .bind frame_edits fun f => ?_
  split
  · exact pure_edits
  · exact .bind ownFields_edits fun _ => pure_edits

theorem lookup_edits {name : String} : Edits slots (lookup name) := by
  refine .bind find?_edits fun found => ?_
  split
  · exact pure_edits
  · exact throw_edits

theorem lookupEach_edits {decls : List Decl} : Edits slots (lookupEach decls) := by
  induction decls with
  | nil => exact pure_edits
  | cons d rest ih => exact .bind lookup_edits fun _ => .bind ih fun _ => pure_edits

theorem setLocal_edits {name : String} {s : Slot} : Edits slots (setLocal name s) :=
  .bind frame_edits fun _ => setFrame_edits

theorem bindEach_edits {params : List Decl} {arguments : List Slot} : Edits slots (bindEach params arguments) := by
  induction params generalizing arguments with
  | nil => exact pure_edits
  | cons p params ih =>
    cases arguments with
    | nil => exact pure_edits
    | cons s arguments => exact .bind setLocal_edits fun _ => ih

theorem bindAll_edits {params : List Decl} {arguments : List Slot} : Edits slots (bindAll params arguments) := by
  unfold bindAll
  split
  · exact .bind throw_edits fun _ => bindEach_edits
  · exact bindEach_edits

theorem cells_edits {ss : List Slot} : Edits slots (cells ss) := by
  induction ss with
  | nil => exact pure_edits
  | cons s rest ih => exact .bind cell_edits fun _ => .bind ih fun _ => pure_edits

theorem valuesOf_edits {ss : List Slot} : Edits slots (valuesOf ss) := by
  induction ss with
  | nil => exact pure_edits
  | cons s rest ih => exact .bind value_edits fun _ => .bind ih fun _ => pure_edits

theorem resolve_edits {c : Catalog} {cls : Class} {name : String} {values : List Cell} {targets : Nat}
    {sharedOnly : Bool} : Edits slots (resolve c cls name values targets sharedOnly) := by
  refine .bind orFault_edits fun found => ?_
  split
  · exact .bind note_edits fun _ => pure_edits
  · exact pure_edits

theorem truthOf_edits {condition : Expr} {s : Slot} : Edits slots (truthOf condition s) := by
  refine .bind cell_edits fun c => ?_
  split
  · exact pure_edits
  · exact throw_edits

/-! ### New slots -/

theorem alloc_edits {c : Cell} (hc : c.fields = []) : Edits slots (alloc c) := by
  obtain ⟨v, hv⟩ := Heap.alloc_eq_store hc
  intro m _
  show Heap.Edits m.heap (m.heap.alloc c).2
  rw [hv]
  exact .single (.store v)

/-- A slot just made is on the heap from then on. -/
theorem Edits.bind_alloc {c : Cell} {f : Slot → Exec β} (hc : c.fields = [])
    (hf : ∀ s, Edits (s :: slots) (f s)) : Edits slots (alloc c >>= f) := by
  intro m hm
  have hfirst := alloc_edits hc m hm
  have hrun : (alloc c).run m = .ok m.heap.size { m with heap := (m.heap.alloc c).2 } := rfl
  rw [after_bind_of_ok hrun]
  rw [after_of_ok hrun] at hfirst
  refine hfirst.trans (hf _ _ ?_)
  intro s hs
  show s < (m.heap.alloc c).2.size
  rw [Heap.size_alloc]
  rcases List.mem_cons.mp hs with rfl | hs
  · exact Nat.lt_succ_self _
  · exact Nat.lt_succ_of_lt (hm s hs)

theorem give_edits {c : Cell} (hc : c.fields = []) : Edits slots (give c) :=
  .bind (alloc_edits hc) fun _ => setTask_edits

theorem initial_fields {c : Catalog} {type : String} {cell : Cell} (h : c.initial type = .ok cell) :
    cell.fields = [] := by
  unfold Catalog.initial at h
  split at h
  case h_5 =>
    split at h
    · cases h
      rfl
    · cases h
  all_goals
    cases h
    rfl

theorem operate_fields {op : Operator} {whole : Expr} {l r cell : Cell} (h : op.apply whole l r = .ok cell) :
    cell.fields = [] := by
  unfold Operator.apply at h
  split at h
  case h_6 =>
    split at h
    · cases h
      rfl
    · cases h
  all_goals
    cases h
    try rfl

theorem orFault_run {e : Except Fault α} {m m' : Machine} {a : α} (h : (orFault e).run m = .ok a m') :
    e = .ok a ∧ m' = m := by
  cases e with
  | ok b =>
    cases h
    exact ⟨rfl, rfl⟩
  | error f => cases h

theorem fresh_edits {c : Catalog} {type : String} : Edits slots (fresh c type) :=
  .bind_of orFault_edits fun _ _ _ hrun => alloc_edits (initial_fields (orFault_run hrun).1)

theorem declare_edits {c : Catalog} {decls : List Decl} : Edits slots (declare c decls) := by
  induction decls with
  | nil => exact pure_edits
  | cons d rest ih =>
    refine .bind frame_edits fun f => ?_
    split
    · exact .bind fresh_edits fun _ => .bind setLocal_edits fun _ => ih
    · exact ih

theorem copy_edits {s : Slot} : Edits slots (copy s) :=
  .bind value_edits fun v _ _ => .single (.store v)

theorem after_get_bind {f : Machine → Exec α} {m : Machine} : (get >>= f).after m = (f m).after m := rfl

theorem assign_edits {target source : Slot} : Edits slots (assign target source) := by
  intro m _
  rw [assign, after_get_bind]
  cases hupdate : m.heap.update target source with
  | error e => exact .refl
  | ok u => exact .single (.assign hupdate)

/-! ### Fields -/

theorem cell_run {s : Slot} {m : Machine} : (cell s).run m = (orStuck (m.heap.cell? s)).run m := rfl

theorem setField_after {object : Slot} {name : String} {s : Slot} {m : Machine} :
    ((setField object name s).after m).heap =
      match m.heap.cell? object with
      | some (.object cls fields) => m.heap.write object (.object cls (fields.insert name s))
      | _ => m.heap := by
  cases hcell : m.heap.cell? object with
  | none =>
    have hrun : (cell object).run m = .error .stuck m := by rw [cell_run, hcell]; rfl
    rw [setField, after_bind_of_error hrun]
  | some c =>
    have hrun : (cell object).run m = .ok c m := by rw [cell_run, hcell]; rfl
    rw [setField, after_bind_of_ok hrun]
    cases c <;> rfl

/-- A value stored in new slots for a field of an object. -/
theorem setField_stored {object : Nat} {m : Machine} (name : String) (v : Value) (hobject : object < m.heap.size) :
    Heap.Edits m.heap
      ((setField object name (m.heap.store v).1).after { m with heap := (m.heap.store v).2 }).heap := by
  rw [setField_after]
  show Heap.Edits m.heap (match (m.heap.store v).2.cell? object with
    | some (.object cls fields) =>
      (m.heap.store v).2.write object (.object cls (fields.insert name (m.heap.store v).1))
    | _ => (m.heap.store v).2)
  rw [(Heap.store_extends m.heap v).keeps hobject]
  split
  · exact .single (.field name v ‹_›)
  · exact .single (.store v)

theorem fresh_run {c : Catalog} {type : String} {m m' : Machine} {s : Slot}
    (h : (fresh c type).run m = .ok s m') :
    ∃ v, s = (m.heap.store v).1 ∧ m' = { m with heap := (m.heap.store v).2 } := by
  unfold fresh at h
  cases hinitial : c.initial type with
  | error f =>
    rw [hinitial] at h
    cases h
  | ok cell =>
    obtain ⟨v, hv⟩ := Heap.alloc_eq_store (initial_fields hinitial)
    rw [hinitial] at h
    change EStateM.Result.ok (m.heap.alloc cell).1 { m with heap := (m.heap.alloc cell).2 } = _ at h
    rw [hv] at h
    cases h
    exact ⟨v, rfl, rfl⟩

theorem populate_edits {c : Catalog} {object : Slot} {decls : List Decl} :
    Edits [object] (populate c object decls) := by
  induction decls with
  | nil => exact pure_edits
  | cons d rest ih =>
    intro m hm
    have hobject := hm object (List.mem_singleton_self _)
    refine edits_bind (fresh_edits m hm) fun s m' hrun => ?_
    obtain ⟨v, rfl, rfl⟩ := fresh_run hrun
    have hfield := setField_stored d.name v hobject
    refine edits_bind hfield fun _ m' hset => ?_
    rw [after_of_ok hset] at hfield
    exact hfield.trans (ih m' fun s hs => Nat.lt_of_lt_of_le (hm s hs) hfield.grows)

theorem bind_run_eq_ok {x : Exec α} {f : α → Exec β} {m m'' : Machine} {b : β} :
    (x >>= f).run m = .ok b m'' ↔ ∃ a m', x.run m = .ok a m' ∧ (f a).run m' = .ok b m'' := by
  simp only [EStateM.run, bind, EStateM.bind]
  cases x m with
  | ok a m' => simp
  | error e m' => simp

/-- The object whose code runs is on the heap if its fields can be read. -/
theorem ownFields_run {m m' : Machine} {fields : Bindings} (h : ownFields.run m = .ok fields m') :
    m' = m ∧ (fields = .empty ∨ ∃ object, m.frame.object = some object ∧ object < m.heap.size) := by
  obtain ⟨f, m₁, hframe, h⟩ := bind_run_eq_ok.mp h
  cases hframe
  cases hobject : m.frame.object with
  | none =>
    simp only [hobject] at h
    cases h
    exact ⟨rfl, .inl rfl⟩
  | some object =>
    simp only [hobject] at h
    obtain ⟨c, m₁, hcell, h⟩ := bind_run_eq_ok.mp h
    rw [cell_run] at hcell
    cases hc : m.heap.cell? object with
    | none =>
      rw [hc] at hcell
      cases hcell
    | some c' =>
      rw [hc] at hcell
      cases hcell
      refine ⟨?_, .inr ⟨object, rfl, Heap.lt_size_of_cell? hc⟩⟩
      cases c <;> cases h
      rfl

/-- A variable that is found is a local one or a field of an object on the heap. -/
theorem lookup_run {name : String} {m m' : Machine} {s : Slot} (h : (lookup name).run m = .ok s m') :
    m' = m ∧ (m.frame.locals.contains name = true ∨
      ∃ object, m.frame.object = some object ∧ object < m.heap.size) := by
  obtain ⟨found, m₁, hfind, h⟩ := bind_run_eq_ok.mp h
  obtain ⟨f, m₂, hframe, hfind⟩ := bind_run_eq_ok.mp hfind
  cases hframe
  cases hlocal : m.frame.locals.get? name with
  | some s' =>
    simp only [hlocal] at hfind
    cases hfind
    cases h
    exact ⟨rfl, .inl (by rw [Bindings.contains, hlocal]; rfl)⟩
  | none =>
    simp only [hlocal] at hfind
    obtain ⟨fields, m₂, hfields, hget⟩ := bind_run_eq_ok.mp hfind
    obtain ⟨rfl, hobject⟩ := ownFields_run hfields
    cases found with
    | none => cases h
    | some s' =>
      cases h
      rcases hobject with rfl | hobject
      · cases hget
      · injection hget with _ hm
        exact ⟨hm.symm, .inr hobject⟩

theorem copy_run {s : Slot} {m m' : Machine} {t : Slot} (h : (copy s).run m = .ok t m') :
    ∃ v, t = (m.heap.store v).1 ∧ m' = { m with heap := (m.heap.store v).2 } := by
  obtain ⟨v, m₁, hvalue, h⟩ := bind_run_eq_ok.mp h
  change (orStuck (m.heap.value? s)).run m = _ at hvalue
  cases hv : m.heap.value? s with
  | none =>
    rw [hv] at hvalue
    cases hvalue
  | some v' =>
    rw [hv] at hvalue
    cases hvalue
    cases h
    exact ⟨v, rfl, rfl⟩

theorem assign_run {target source : Slot} {m m' : Machine} (h : (assign target source).run m = .ok () m') :
    ∃ u, m.heap.update target source = .ok u ∧ m' = { m with heap := m.heap.apply target u } := by
  change (orHalt (m.heap.update target source) >>= fun u => onHeap fun h => ((), h.apply target u)).run m = _ at h
  cases hu : m.heap.update target source with
  | error reason =>
    rw [hu] at h
    cases h
  | ok u =>
    rw [hu] at h
    cases h
    exact ⟨u, rfl, rfl⟩

/-- An item may take the place of a field, in slots of its own. -/
theorem rebind_stored {name : String} {m : Machine} (v : Value)
    (hfield : m.frame.locals.contains name = true ∨ ∃ object, m.frame.object = some object ∧ object < m.heap.size) :
    Heap.Edits m.heap
      ((rebind name (m.heap.store v).1).after { m with heap := (m.heap.store v).2 }).heap := by
  have hrun : frame.run { m with heap := (m.heap.store v).2 } = .ok m.frame { m with heap := (m.heap.store v).2 } :=
    rfl
  rw [rebind, after_bind_of_ok hrun]
  by_cases hlocal : m.frame.locals.contains name = true
  · rw [if_pos hlocal]
    exact .single (.store v)
  · obtain ⟨object, hobject, hsize⟩ := hfield.resolve_left hlocal
    rw [if_neg hlocal, hobject]
    exact setField_stored name v hsize

theorem storeItem_edits {name : String} {iterator item : Slot} : Edits slots (storeItem name iterator item) := by
  intro m hm
  refine edits_bind (lookup_edits m hm) fun target m' hlookup => ?_
  obtain ⟨rfl, hfield⟩ := lookup_run hlookup
  split
  · refine edits_bind (copy_edits m' hm) fun s m'' hcopy => ?_
    obtain ⟨v, rfl, rfl⟩ := copy_run hcopy
    exact rebind_stored v hfield
  · exact assign_edits _ hm

/-! ### Calls -/

theorem invoke_edits {c : Catalog} {cls : Class} {object : Option Slot} {method : Method} {arguments : List Slot} :
    Edits slots (invoke c cls object method arguments) := by
  unfold invoke
  split
  · exact .bind valuesOf_edits fun _ => .bind write_edits fun _ => setTask_edits
  · refine .bind note_edits fun _ => .bind frame_edits fun _ => .bind get_edits fun _ => ?_
    refine .bind push_edits fun _ => .bind setFrame_edits fun _ => ?_
    refine .bind bindAll_edits fun _ => ?_
    exact .bind declare_edits fun _ => .bind declare_edits fun _ => setTask_edits

theorem construct_edits {c : Catalog} {cls : Class} {k : Option ConstructorDecl} {arguments : List Slot} :
    Edits [] (construct c cls k arguments) := by
  refine .bind_alloc rfl fun object => .bind note_edits fun _ => ?_
  refine .bind frame_edits fun _ => .bind get_edits fun _ => ?_
  refine .bind push_edits fun _ => .bind setFrame_edits fun _ => ?_
  split
  · refine .bind bindAll_edits fun _ => ?_
    exact .bind populate_edits fun _ => setTask_edits
  · refine .bind bindAll_edits fun _ => .bind populate_edits fun _ => ?_
    exact .bind declare_edits fun _ => setTask_edits

theorem callOwn_edits {c : Catalog} {name : String} {targets : Nat} {arguments : List Slot} :
    Edits slots (callOwn c name targets arguments) := by
  refine .bind frame_edits fun f => .bind cells_edits fun _ => .bind resolve_edits fun found => ?_
  split
  · exact invoke_edits
  · exact throw_edits

theorem callVariable_edits {c : Catalog} {object name : String} {targets : Nat} {arguments : List Slot} :
    Edits slots (callVariable c object name targets arguments) := by
  refine .bind cells_edits fun _ => .bind find?_edits fun found => ?_
  split
  · exact throw_edits
  · refine .bind cell_edits fun cell => ?_
    split
    · refine .bind resolve_edits fun method => ?_
      split
      · exact invoke_edits
      · exact throw_edits
    · exact throw_edits

theorem callOn_edits {c : Catalog} {object name : String} {targets : Nat} {arguments : List Slot} :
    Edits slots (callOn c object name targets arguments) := by
  unfold callOn
  split
  · exact callVariable_edits
  · refine .bind cells_edits fun _ => .bind resolve_edits fun method => ?_
    split
    · exact invoke_edits
    · exact callVariable_edits

theorem create_edits {c : Catalog} {cls : Class} {arguments : List Slot} :
    Edits [] (create c cls arguments) := by
  refine .bind cells_edits fun values => ?_
  split
  · split
    · exact construct_edits
    · exact throw_edits
  · refine .bind orFault_edits fun found => ?_
    split
    · exact construct_edits
    · exact throw_edits

theorem reach_edits {c : Catalog} {arguments : List Slot} {goal : Goal} :
    Edits [] (reach c arguments goal) := by
  unfold reach
  split
  · exact callOwn_edits
  · exact callOn_edits
  · exact create_edits

theorem supply_edits {c : Catalog} {before : List Slot} {goal : Goal} {arguments : List Expr} :
    Edits [] (supply c before goal arguments) := by
  cases arguments with
  | nil => exact reach_edits
  | cons e rest => exact await_edits

/-! ### Loops -/

theorem askNext_edits {c : Catalog} {loop : Loop} {iterator : Slot} {cls : Class} {getNext : Method} :
    Edits slots (askNext c loop iterator cls getNext) :=
  .bind push_edits fun _ => invoke_edits

theorem iterate_edits {c : Catalog} {loop : Loop} {iterator : Slot} {cls : Class} :
    Edits slots (iterate c loop iterator cls) := by
  unfold iterate
  split
  · dsimp only
    split
    · exact .bind throw_edits fun _ => throw_edits
    · exact throw_edits
  · dsimp only
    split
    · exact .bind throw_edits fun _ => askNext_edits
    · exact askNext_edits

theorem recordCondition_edits {loop : Loop} {target s : Slot} :
    Edits slots (recordCondition loop target s) := by
  refine .bind cell_edits fun c => ?_
  split
  · refine .bind assign_edits fun _ => ?_
    split
    · exact await_edits
    · exact setTask_edits
  · exact throw_edits

theorem storeEach_edits {shortfall : Unit → String} {names : List String} {ss : List Slot} :
    Edits slots (storeEach shortfall names ss) := by
  induction names generalizing ss with
  | nil => exact pure_edits
  | cons name names ih =>
    cases ss with
    | nil => exact note_edits
    | cons s ss => exact .bind lookup_edits fun _ => .bind assign_edits fun _ => ih

/-! ### Steps -/

theorem execute_edits {c : Catalog} {s : Stmt} : Edits [] (execute c s) := by
  unfold execute
  split
  · exact .bind moveTo_edits fun _ => .bind lookup_edits fun _ => await_edits
  · exact .bind moveTo_edits fun _ => .bind push_edits fun _ => supply_edits
  · exact .bind moveTo_edits fun _ => await_edits
  · exact .bind moveTo_edits fun _ => .bind lookup_edits fun _ => await_edits
  · exact .bind moveTo_edits fun _ => await_edits

theorem evaluate_edits {c : Catalog} {e : Expr} : Edits [] (evaluate c e) := by
  unfold evaluate
  split
  · exact give_edits rfl
  · exact give_edits rfl
  · exact give_edits rfl
  · exact give_edits rfl
  · exact .bind lookup_edits fun _ => setTask_edits
  · exact await_edits
  · exact await_edits
  · exact .bind push_edits fun _ => supply_edits
  · split
    · exact throw_edits
    · exact supply_edits

theorem resume_edits {c : Catalog} {p : Pending} : Edits slots (resume c p) := by
  unfold resume
  split
  · exact setTask_edits
  · exact .bind moveTo_edits fun _ => await_edits
  · exact .bind moveTo_edits fun _ => await_edits
  · exact askNext_edits
  · refine .bind lookupEach_edits fun _ => .bind setFrame_edits fun _ => ?_
    exact .bind moveTo_edits fun _ => setTask_edits
  · exact .bind setFrame_edits fun _ => .bind moveTo_edits fun _ => setTask_edits
  · exact throw_edits

theorem deliver_edits {c : Catalog} {s : Slot} {p : Pending} : Edits [] (deliver c s p) := by
  unfold deliver
  split
  case h_1 => exact .bind assign_edits fun _ => setTask_edits
  case h_2 =>
    refine .bind cell_edits fun c => ?_
    split
    · exact give_edits rfl
    · exact throw_edits
  case h_3 => exact await_edits
  case h_4 =>
    refine .bind cell_edits fun l => .bind cell_edits fun r => ?_
    exact .bind_of orFault_edits fun _ _ _ hrun => give_edits (operate_fields (orFault_run hrun).1)
  case h_5 => exact supply_edits
  case h_6 =>
    refine .bind truthOf_edits fun b => ?_
    split <;> exact setTask_edits
  case h_7 =>
    refine .bind truthOf_edits fun b => ?_
    split
    · exact await_edits
    · exact setTask_edits
  case h_8 =>
    refine .bind cell_edits fun cell => ?_
    split
    · exact iterate_edits
    · refine .bind cell_edits fun cell => ?_
      split
      · exact iterate_edits
      · exact recordCondition_edits
  case h_9 => exact recordCondition_edits
  case h_10 => exact throw_edits

theorem deliverAll_edits {ss : List Slot} {p : Pending} : Edits slots (deliverAll ss p) := by
  unfold deliverAll
  split
  · split
    · exact setTask_edits
    · exact throw_edits
  · exact .bind moveTo_edits fun _ => .bind storeEach_edits fun _ => setTask_edits
  · refine .bind moveTo_edits fun _ => ?_
    split
    · refine .bind cell_edits fun cell => ?_
      split
      · exact .bind storeItem_edits fun _ => await_edits
      · exact setTask_edits
      · exact throw_edits
    · exact throw_edits
  · exact throw_edits

theorem enter_edits {c : Catalog} : Edits slots (enter c) := by
  unfold enter
  split
  · exact throw_edits
  · exact .bind note_edits fun _ => invoke_edits

/-- A step only edits the heap. -/
theorem step_edits {c : Catalog} : Edits [] (step c) := by
  refine .bind get_edits fun m => ?_
  split
  · exact enter_edits
  · exact .bind push_edits fun _ => execute_edits
  · exact .bind pop_edits fun _ => resume_edits
  · exact evaluate_edits
  · exact .bind pop_edits fun _ => deliver_edits
  · exact .bind pop_edits fun _ => deliverAll_edits

end Offside.Exec

namespace Offside

/-- So does a run. -/
theorem Machine.run_edits (c : Catalog) (bound : Nat) (m : Machine) :
    Heap.Edits m.heap (m.run c bound).1.heap := by
  induction bound generalizing m with
  | zero => exact .refl
  | succ bound ih =>
    have hstep := @Exec.step_edits c m (List.forall_mem_nil _)
    unfold Machine.run
    cases hrun : (Exec.step c).run m with
    | ok _ m' =>
      rw [Exec.after_of_ok hrun] at hstep
      exact hstep.trans (ih m')
    | error e m' => rwa [Exec.after, hrun] at hstep

open Heap in
/-- Fields own their values throughout a run: no slot is the contents of two fields, and no object is
reachable from itself through fields. So every slot has a value and can be copied, and an assignment
between slots never gets stuck. -/
theorem run_owned (c : Catalog) (m : Machine) (bound : Nat) :
    let h := (m.restart.run c bound).1.heap
    (∀ s s' name name' t, h.Holds s name t → h.Holds s' name' t → s = s' ∧ name = name') ∧
      (∀ s, ¬ Relation.TransGen h.Contains s s) ∧
      (∀ s, s < h.size → (h.value? s).isSome ∧ (h.copy s).isSome) ∧
      ∀ target source, target < h.size → source < h.size → h.assign target source ≠ .error .stuck := by
  have howned : (m.restart.run c bound).1.heap.Owned :=
    empty_owned.edits (Machine.run_edits c bound m.restart)
  refine ⟨fun _ _ _ _ _ hs hs' => howned.single hs hs', howned.acyclic, fun s hs => ?_,
    fun _ _ htarget hsource => howned.assign_ne_stuck htarget hsource⟩
  exact ⟨howned.value?_isSome hs, howned.copy_isSome hs⟩

end Offside
