import Offside.Proofs.Machine.Operands
import Offside.Proofs.Machine.Storing

/-! What a loop over an iterator does.

The loop asks the iterator for its next item until there is none, and runs its body once for each item. The
variable of the loop is looked up again for each item. It is given a slot of its own if it has the iterator's,
and is assigned to otherwise; in both cases it holds the item's value when the body starts. -/
namespace Offside

open Exec

namespace Machine

/-- The machine executes the statements to their end, and hands nothing to the work that waits in `k` before. -/
structure Executes (c : Catalog) (body : List Stmt) (k : List Pending) (m m' : Machine) : Prop where
  starts : m.task = .run body ∧ m.stack = k
  runs : ∃ steps, m.run c steps = (m', none) ∧
    ∀ i < steps, (m.run c i).1.task.handsOver = true → k.length < (m.run c i).1.stack.length
  ends : m'.task = .run [] ∧ m'.stack = k

/-- The machine calls `getNext` on the iterator for a loop. The body of the method starts at `entered` and is
done at `finished`, where the method's returns have the slots `more` and `item`. The loop gets these at
`returned`. -/
structure Asks (c : Catalog) (loop : Loop) (iterator : Slot) (cls : Class) (getNext : Method) (base : List Pending)
    (more item : Slot) (m entered finished returned : Machine) : Prop where
  calls : (step c).run m = .ok () entered
  scope : entered.frame.object = some iterator ∧ entered.frame.cls = cls
  body : ∃ locals body, getNext.action = .run locals body ∧ entered.Executes c body
    (.leave getNext.header.returns m.frame m.here :: .item loop iterator cls getNext :: base) finished
  returns : List.Forall₂ (fun d s => finished.Denotes d.name s) getNext.header.returns [more, item]
  leaves : (step c).run finished = .ok () returned
  gets : returned = { finished with
    frame := m.frame, here := m.here, task := .values [more, item],
    stack := .item loop iterator cls getNext :: base }

/-- The loop passes through so many items, from a state in which it is about to ask for the first one to the
state in which it is over. -/
inductive Passes (c : Catalog) (loop : Loop) (iterator : Slot) (cls : Class) (getNext : Method)
    (base : List Pending) : Nat → Machine → Machine → Prop
  -- There is no item, and nothing else happens.
  | over {m entered finished returned after : Machine} {more item : Slot} :
      Asks c loop iterator cls getNext base more item m entered finished returned →
      returned.heap.cell? more = some (.truth false) → (step c).run returned = .ok () after →
      after = { returned with here := some loop.span, task := .run [], stack := base } →
      Passes c loop iterator cls getNext base 0 m after
  -- There is one. The variable has its value when the body starts.
  | pass {m entered finished returned begun ended after : Machine} {more item t : Slot} {v : Value} {count : Nat} :
      Asks c loop iterator cls getNext base more item m entered finished returned →
      returned.heap.cell? more = some (.truth true) → returned.heap.value? item = some v →
      (step c).run returned = .ok () begun → begun.Denotes loop.name t → begun.heap.value? t = some v →
      begun.Executes c loop.body (.itemAgain loop iterator cls getNext :: base) ended →
      Passes c loop iterator cls getNext base count ended after →
      Passes c loop iterator cls getNext base (count + 1) m after

/-- The machine executes a loop with a variable to its end. It is about to at first, when the variable has the
slot `target`. The expression has come to `s` at `middle`, and the loop is over at `after`. The rest of the
statements waits on the stack then, and more waits above it all the while before. -/
structure Loops (c : Catalog) (m : Machine) (loop : Loop) (target s : Slot) (middle after : Machine) : Prop where
  finds : m.Denotes loop.name target
  evaluates : ∃ first, (step c).run m = .ok () first ∧ first.Evaluates c loop.source s middle
  finishes : ∃ steps, middle.run c (steps + 1) = (after, none) ∧
    ∀ i < steps, m.stack.length + 1 < (middle.run c (i + 1)).1.stack.length
  works : ∃ rest, m.task = .run (.loop (some loop.name) loop.source loop.body loop.span :: rest) ∧
    after.task = .run [] ∧ after.stack = .rest rest :: m.stack

/-- What a loop is over: the object that its expression came to, or else the one that its variable holds. -/
def LoopsOver (middle : Machine) (target s iterator : Slot) (cls : Class) : Prop :=
  ∃ fields, middle.heap.cell? iterator = some (.object cls fields) ∧
    (iterator = s ∨ iterator = target ∧ ∀ cls fields, middle.heap.cell? s ≠ some (.object cls fields))

/-! ### Work that waits until it is handed something -/

/-- After so many steps the machine hands something to the work that waits in `k`, for the first time. -/
structure Hands (c : Catalog) (k : List Pending) (steps : Nat) (m m' : Machine) : Prop where
  run : m.run c steps = (m', none)
  waits : ∀ i < steps, (m.run c i).1.task.handsOver = true → k.length < (m.run c i).1.stack.length
  hands : m'.task.handsOver = true
  stack : m'.stack = k

variable {c : Catalog} {m m' m'' after : Machine} {k : List Pending} {steps : Nat}

/-- Statements are executed to their end if they are done when something is handed over. -/
theorem Hands.executes {body : List Stmt} (h : m.Hands c k steps m') (htask : m.task = .run body) (hstack : m.stack = k)
    (hdone : m'.task = .run []) : m.Executes c body k m' :=
  ⟨⟨htask, hstack⟩, ⟨steps, h.run, h.waits⟩, hdone, h.stack⟩

theorem run_of_add (h : m.run c steps = (m', none)) (more : Nat) : m.run c (steps + more) = m'.run c more := by
  rw [run_add, h]

/-- Work is handed something before it is gone. -/
theorem exists_hands (own : List Pending) (hstack : m.stack = own ++ k) (hrun : m.run c steps = (after, none))
    (hend : after.stack.length < k.length) :
    ∃ i more m' next, steps = i + (more + 1) ∧ m.Hands c k i m' ∧ (step c).run m' = .ok () next ∧
      next.run c more = (after, none) := by
  induction steps generalizing m own with
  | zero =>
    cases hrun
    rw [hstack, List.length_append] at hend
    omega
  | succ steps ih =>
    rw [run] at hrun
    cases hstep : (step c).run m with
    | error reason next =>
      rw [hstep] at hrun
      cases hrun
    | ok u next =>
      rw [hstep] at hrun
      by_cases hover : m.task.handsOver = true ∧ own = []
      · refine ⟨0, steps, m, next, (Nat.zero_add _).symm, ⟨rfl, fun i hi => absurd hi (Nat.not_lt_zero i), hover.1, ?_⟩,
          hstep, hrun⟩
        rw [hstack, hover.2, List.nil_append]
      · let alone : Machine := { m with stack := own }
        have hown : m = alone.above k := by rw [above, ← hstack]
        obtain ⟨next', -, rfl⟩ := (step_above (m := alone) fun htask hnone => hover ⟨htask, hnone⟩).ok_right
          ((congrArg (step c).run hown).symm.trans hstep)
        obtain ⟨i, more, m', last, rfl, hhands, hlast⟩ := ih next'.stack rfl hrun
        have hshift : ∀ j, m.run c (j + 1) = (next'.above k).run c j := fun j => by rw [run, hstep]
        refine ⟨i + 1, more, m', last, by omega, ⟨(hshift i).trans hhands.run, fun j hj htask => ?_, hhands.hands,
          hhands.stack⟩, hlast⟩
        cases j with
        | zero =>
          have hne : own ≠ [] := fun hnone => hover ⟨htask, hnone⟩
          show k.length < m.stack.length
          rw [hstack, List.length_append]
          have := List.length_pos_of_ne_nil hne
          omega
        | succ j =>
          rw [hshift] at htask ⊢
          exact hhands.waits j (Nat.lt_of_succ_lt_succ hj) htask

/-! ### The steps of a loop -/

section Steps
variable {loop : Loop} {iterator : Slot} {cls : Class} {getNext : Method} {base : List Pending}

/-- A loop starts with a look at its variable. -/
theorem step_loop {rest : List Stmt} {target : Slot}
    (htask : m.task = .run (.loop (some loop.name) loop.source loop.body loop.span :: rest))
    (hfinds : m.Denotes loop.name target) (hstep : (step c).run m = .ok () m') :
    m'.stack = .source loop target :: .rest rest :: m.stack := by
  obtain ⟨heap, frame, here, task, stack, records, threshold, log⟩ := m
  obtain rfl : task = _ := htask
  let w : World := ⟨heap, frame, records, threshold, log⟩
  have hlook : (lookup loop.name >>= fun t => await (.source loop t) (.eval loop.source)).run
      (w.machine (some loop.span) (.run (.loop (some loop.name) loop.source loop.body loop.span :: rest))
        (.rest rest :: stack)) = .ok () m' := hstep
  have huniform := (lookup_local loop.name).uniform
  have hfound : (lookup loop.name).run (w.machine here _ stack) = .ok target _ := hfinds
  rw [huniform] at hfound
  rw [huniform.run_bind] at hlook
  cases hon : (lookup loop.name).on w with
  | error reason w' =>
    rw [hon] at hfound
    cases hfound
  | ok t w' =>
    rw [hon] at hfound hlook
    cases hfound
    cases hlook
    rfl

/-- Work that takes no value goes on once statements are done, and not otherwise. -/
theorem resume_of_step {p : Pending} (hvalue : ∀ s m m', (deliver c s p).run m ≠ .ok () m')
    (hvalues : ∀ slots m m', (deliverAll slots p).run m ≠ .ok () m') (hstack : m.stack = p :: k)
    (htask : m.task.handsOver = true) (hstep : (step c).run m = .ok () m') :
    m.task = .run [] ∧ (resume c p).run { m with stack := k } = .ok () m' := by
  obtain ⟨heap, frame, here, task, stack, records, threshold, log⟩ := m
  obtain rfl : stack = _ := hstack
  cases task with
  | enter | eval e => cases htask
  | run body =>
    cases body with
    | nil => exact ⟨rfl, hstep⟩
    | cons s rest => cases htask
  | value s => exact absurd hstep (hvalue s _ m')
  | values slots => exact absurd hstep (hvalues slots _ m')

/-- A method is left once its body is done, with the slots of its returns. -/
theorem step_leave_eq_ok {returns : List Decl} {caller : Frame} {place : Option Span}
    (hstack : m.stack = .leave returns caller place :: k) (htask : m.task.handsOver = true)
    (hstep : (step c).run m = .ok () m') :
    m.task = .run [] ∧ ∃ slots, List.Forall₂ (fun d s => m.Denotes d.name s) returns slots ∧
      m' = { m with frame := caller, here := place, task := .values slots, stack := k } := by
  obtain ⟨hdone, hresume⟩ := resume_of_step (fun _ _ _ h => by cases h) (fun _ _ _ h => by cases h) hstack htask hstep
  refine ⟨hdone, ?_⟩
  obtain ⟨heap, frame, here, task, stack, records, threshold, log⟩ := m
  let w : World := ⟨heap, frame, records, threshold, log⟩
  change (lookupEach returns >>= fun slots => setFrame caller >>= fun _ => moveTo place >>= fun _ =>
    setTask (.values slots)).run (w.machine here task k) = .ok () m' at hresume
  rw [(lookupEach_local returns).uniform.run_bind] at hresume
  cases hslots : (lookupEach returns).on w with
  | error reason w' =>
    rw [hslots] at hresume
    cases hresume
  | ok slots w' =>
    obtain ⟨rfl, heach⟩ := lookupEach_eq_ok hslots
    rw [hslots] at hresume
    cases hresume
    exact ⟨slots, heach.imp fun d s hs => (lookup_local d.name).uniform.run_of_ok hs here task stack, rfl⟩

/-- The loop stores an item and runs its body, or it is over. -/
theorem step_item {more item : Slot} (hstack : m.stack = .item loop iterator cls getNext :: base)
    (htask : m.task = .values [more, item]) (hstep : (step c).run m = .ok () m') :
    (m.heap.cell? more = some (.truth true) ∧ ∃ stored,
      (storeItem loop.name iterator item).run { m with here := some loop.span, stack := base } = .ok () stored ∧
      m' = { stored with task := .run loop.body, stack := .itemAgain loop iterator cls getNext :: stored.stack }) ∨
    m.heap.cell? more = some (.truth false) ∧
      m' = { m with here := some loop.span, task := .run [], stack := base } := by
  obtain ⟨heap, frame, here, task, stack, records, threshold, log⟩ := m
  obtain rfl : stack = _ := hstack
  obtain rfl : task = _ := htask
  change (deliverAll [more, item] (.item loop iterator cls getNext)).run
    ⟨heap, frame, here, .values [more, item], base, records, threshold, log⟩ = _ at hstep
  unfold deliverAll at hstep
  obtain ⟨_, m₁, hmove, hstep⟩ := bind_run_eq_ok.mp hstep
  cases hmove
  obtain ⟨v, m₂, hv, hstep⟩ := bind_run_eq_ok.mp hstep
  obtain ⟨rfl, hcell⟩ := cell_eq_ok hv
  cases v with
  | truth value =>
    cases value with
    | true =>
      obtain ⟨_, stored, hstores, hawait⟩ := bind_run_eq_ok.mp hstep
      cases hawait
      exact .inl ⟨hcell, stored, hstores, rfl⟩
    | false =>
      cases hstep
      exact .inr ⟨hcell, rfl⟩
  | _ => cases hstep

theorem iterate_eq_ok (h : (iterate c loop iterator cls).run m = .ok () m') :
    cls.implements "iterator" = true ∧ ∃ getNext, cls.getNext? = some getNext ∧
      (askNext c loop iterator cls getNext).run m = .ok () m' := by
  unfold iterate at h
  cases himplements : cls.implements "iterator" with
  | false =>
    rw [himplements] at h
    cases h
  | true =>
    rw [himplements] at h
    cases hnext : cls.getNext? with
    | none =>
      rw [hnext] at h
      cases h
    | some getNext =>
      rw [hnext] at h
      exact ⟨rfl, getNext, rfl, h⟩

/-- A loop asks for the first item of the object that it is over. -/
theorem step_source {target s : Slot} (hstack : m.stack = .source loop target :: base) (htask : m.task = .value s)
    (hover : m.LoopsOver target s iterator cls) (hstep : (step c).run m = .ok () m') :
    (iterate c loop iterator cls).run { m with stack := base } = .ok () m' := by
  obtain ⟨fields, hobject, hwhich⟩ := hover
  obtain ⟨heap, frame, here, task, stack, records, threshold, log⟩ := m
  obtain rfl : stack = _ := hstack
  obtain rfl : task = _ := htask
  change (deliver c s (.source loop target)).run ⟨heap, frame, here, .value s, base, records, threshold, log⟩ = _
    at hstep
  unfold deliver at hstep
  obtain ⟨v, m₁, hv, hstep⟩ := bind_run_eq_ok.mp hstep
  obtain ⟨rfl, hcell⟩ := cell_eq_ok hv
  rcases hwhich with rfl | ⟨rfl, hnone⟩
  · cases hobject.symm.trans hcell
    exact hstep
  · cases v with
    | object other others => exact absurd hcell (hnone other others)
    | _ =>
      obtain ⟨v', m₂, hv', hstep⟩ := bind_run_eq_ok.mp hstep
      obtain ⟨rfl, hcell'⟩ := cell_eq_ok hv'
      cases hobject.symm.trans hcell'
      exact hstep

/-- To ask for an item is to start the body of `getNext` on the iterator. -/
theorem askNext_eq_ok {locals : List Decl} {body : List Stmt} (haction : getNext.action = .run locals body)
    (h : (askNext c loop iterator cls getNext).run m = .ok () m') :
    m'.task = .run body ∧ m'.frame.object = some iterator ∧ m'.frame.cls = cls ∧
      m'.stack = .leave getNext.header.returns m.frame m.here :: .item loop iterator cls getNext :: m.stack := by
  obtain ⟨heap, frame, here, task, stack, records, threshold, log⟩ := m
  let w : World := ⟨heap, frame, records, threshold, log⟩
  change (invoke c cls (some iterator) getNext []).run
    (w.machine here task (.item loop iterator cls getNext :: stack)) = _ at h
  have hframe := noted_frame .trace (fun _ => s!"calling {cls.name}.{getNext.header.print}") w
  rw [invoke_eq haction, (note_local _ _).uniform.run_bind, note_on] at h
  generalize Exec.noted _ _ w = w₀ at h hframe
  change (Eval.openScope c cls (some iterator) getNext.header locals [] >>= fun _ => setTask (.run body)).run
    (w₀.machine here task (.leave getNext.header.returns w₀.frame here :: .item loop iterator cls getNext :: stack)) =
      _ at h
  rw [(openScope_uniform _ _ _ _ _).run_bind] at h
  cases hopens : (Eval.openScope c cls (some iterator) getNext.header locals []).on w₀ with
  | error reason w₁ =>
    rw [hopens] at h
    cases h
  | ok u w₁ =>
    rw [hopens] at h
    cases h
    have hscope := Eval.openScope_grows hopens
    refine ⟨rfl, hscope.object, hscope.cls, ?_⟩
    rw [← show w₀.frame = frame from hframe]
    rfl

end Steps

/-! ### Items -/

section Items
variable {name : String} {iterator item target : Slot}

/-- A variable that is given a copy in a slot of its own has the value that was copied. -/
theorem rebind_copy_holds (hm : m.Based c) (hitem : item < m.heap.size) (hfinds : m.Finds name target)
    (h : (copy item >>= rebind name).run m = .ok () m') :
    ∃ t v, m'.Denotes name t ∧ m'.heap.value? t = some v ∧ m.heap.value? item = some v := by
  obtain ⟨t, heap, hcopy, howned, hcopied⟩ := hm.heap.owned.copied hitem
  obtain ⟨v, hv, ht⟩ := hcopied.value
  rw [run_bind, copy_run_of_copy hcopy] at h
  rcases hfinds with hlocal | ⟨hnone, object, fields, hobject, hcell, -⟩
  · cases (rebind_local_run (m := { m with heap }) (Bindings.contains_eq_true hlocal)).symm.trans h
    exact ⟨t, v, denotes_of_finds (.inl Bindings.get?_insert_self), ht, hv⟩
  · -- The object that gets the field is no part of the copy.
    have hold : object < m.heap.size := Heap.lt_size_of_cell? hcell
    have hlt : object < heap.size := Nat.lt_of_lt_of_le hold hcopied.grows
    have hcell' : heap.cell? object = some (.object m.frame.cls fields) := (hcopied.keeps object hold).trans hcell
    cases (rebind_field_run (m := { m with heap }) hnone hobject hcell').symm.trans h
    refine ⟨t, v, denotes_of_finds (.inr ⟨hnone, object, fields.insert name t, hobject, ?_,
      Bindings.get?_insert_self⟩), ?_, hv⟩
    · exact (Heap.cell?_write hlt _ object).trans (if_pos rfl)
    · rw [← ht]
      have hin : t < heap.size := Heap.lt_size_iff.mpr ⟨_, Heap.form?_of_value? ht⟩
      refine howned.value?_congr hin (Nat.le_of_eq (Heap.size_write ..).symm) fun r hr => ?_
      exact (Heap.cell?_write hlt _ r).trans (if_neg (Nat.ne_of_lt (Nat.lt_of_lt_of_le hold (hcopied.fresh r hr))))

/-- The variable of a loop has the item's value once the item is stored. -/
theorem storeItem_holds (hc : c.Regular) (hm : m.Based c) (hitem : item < m.heap.size)
    (h : (storeItem name iterator item).run m = .ok () m') :
    ∃ t v, m'.Denotes name t ∧ m'.heap.value? t = some v ∧ m.heap.value? item = some v := by
  obtain ⟨target, m₁, hlookup, hstores⟩ := bind_run_eq_ok.mp h
  have hfinds := finds_of_lookup hm hlookup
  obtain ⟨rfl, -⟩ := lookup_run hlookup
  split at hstores
  · exact rebind_copy_holds hm hitem hfinds hstores
  · obtain ⟨u, hu, rfl⟩ := assign_run hstores
    obtain ⟨v, hv⟩ := Option.isSome_iff_exists.mp (hm.heap.owned.value?_isSome hitem)
    have hstill := hfinds.apply hu fun hself => hm.heap.owned.acyclic target (.single hself)
    exact ⟨target, v, denotes_of_finds hstill, (hm.value?_apply hc hu).trans hv, hv⟩

end Items

/-! ### The loop as a whole -/

section Whole
variable {loop : Loop} {iterator : Slot} {cls : Class} {getNext : Method} {base : List Pending}

/-- What a loop asks for is returned to it, if it goes on after that. -/
theorem exists_asks {locals : List Decl} {body : List Stmt} {entered : Machine}
    (haction : getNext.action = .run locals body) (hreturns : getNext.header.returns.length = 2)
    (hstep : (step c).run m = .ok () entered)
    (hask : (askNext c loop iterator cls getNext).run { m with stack := base } = .ok () entered)
    (hrun : entered.run c steps = (after, none)) (hend : after.stack.length ≤ base.length) :
    ∃ i more item finished returned rest, steps = i + 1 + rest ∧
      Asks c loop iterator cls getNext base more item m entered finished returned ∧
      entered.run c (i + 1) = (returned, none) ∧ returned.run c rest = (after, none) := by
  obtain ⟨htask, hobject, hcls, hstack⟩ := askNext_eq_ok haction hask
  have hbelow : after.stack.length < (Pending.leave getNext.header.returns m.frame m.here ::
      .item loop iterator cls getNext :: base).length := by
    simp only [List.length_cons]
    omega
  obtain ⟨i, rest, finished, returned, rfl, hhands, hleave, hrest⟩ := exists_hands [] hstack hrun hbelow
  obtain ⟨hdone, slots, hslots, rfl⟩ := step_leave_eq_ok hhands.stack hhands.hands hleave
  obtain ⟨more, item, rfl⟩ := List.length_eq_two.mp (hslots.length_eq.symm.trans hreturns)
  have hexecutes := hhands.executes htask hstack hdone
  exact ⟨i, more, item, finished, _, rest, by omega,
    ⟨hstep, ⟨hobject, hcls⟩, ⟨locals, body, haction, hexecutes⟩, hslots, hleave, rfl⟩,
    run_succ_eq_none.mpr ⟨finished, hhands.run, hleave⟩, hrest⟩

/-- The body starts with the item's value in the variable. -/
theorem item_holds (hc : c.Regular) {returned begun stored : Machine} {more item : Slot}
    (hm : returned.Sensible c fun _ _ => True) (htask : returned.task = .values [more, item])
    (hstores : (storeItem loop.name iterator item).run { returned with here := some loop.span, stack := base } =
      .ok () stored)
    (hbegun : begun = { stored with
      task := .run loop.body, stack := .itemAgain loop iterator cls getNext :: stored.stack }) :
    begun.stack = .itemAgain loop iterator cls getNext :: base ∧ ∃ t v, begun.Denotes loop.name t ∧
      begun.heap.value? t = some v ∧ returned.heap.value? item = some v := by
  subst hbegun
  have hbased : ({ returned with here := some loop.span, stack := base } : Machine).Based c :=
    ⟨hm.based.heap, hm.based.frame⟩
  have hfits := hm.fits
  rw [htask] at hfits
  have hitem := hfits.1 item (List.mem_cons_of_mem _ List.mem_cons_self)
  have hstays : Meets c (storeItem loop.name iterator item) _ _ := storeItem_meets hc hbased hitem
  rw [Meets, hstores] at hstays
  obtain ⟨t, v, ht, hv, hv'⟩ := storeItem_holds hc hbased hitem hstores
  have hfinds := finds_of_lookup hstays.based ht
  exact ⟨congrArg _ hstays.stack, t, v, denotes_of_finds hfinds, hv, hv'⟩

/-- The body runs to its end and the loop asks again, if it goes on after that. -/
theorem exists_body {begun : Machine} (htask : begun.task = .run loop.body)
    (hstack : begun.stack = .itemAgain loop iterator cls getNext :: base) (hrun : begun.run c steps = (after, none))
    (hend : after.stack.length ≤ base.length) :
    ∃ i rest ended entered, steps = i + (rest + 1) ∧ begun.run c i = (ended, none) ∧
      begun.Executes c loop.body (.itemAgain loop iterator cls getNext :: base) ended ∧
      (step c).run ended = .ok () entered ∧
      (askNext c loop iterator cls getNext).run { ended with stack := base } = .ok () entered ∧
      entered.run c rest = (after, none) := by
  obtain ⟨i, rest, ended, entered, hsteps, hhands, hstep, hrest⟩ :=
    exists_hands [] hstack hrun (Nat.lt_succ_of_le hend)
  obtain ⟨hdone, hask⟩ := resume_of_step (fun _ _ _ h => by cases h) (fun _ _ _ h => by cases h) hhands.stack
    hhands.hands hstep
  exact ⟨i, rest, ended, entered, hsteps, hhands.run, hhands.executes htask hstack hdone, hstep, hask, hrest⟩

/-- The loop asks for items and runs its body, one after the other, until there is none. -/
theorem exists_passes (hc : c.Regular) {locals : List Decl} {body : List Stmt}
    (haction : getNext.action = .run locals body) (hreturns : getNext.header.returns.length = 2)
    {entered : Machine} (hm : m.Sensible c fun _ _ => True) (hstep : (step c).run m = .ok () entered)
    (hask : (askNext c loop iterator cls getNext).run { m with stack := base } = .ok () entered)
    (hrun : entered.run c steps = (after, none)) (hend : after.stack = base)
    (hwaits : ∀ i < steps, base.length < (entered.run c i).1.stack.length) :
    ∃ count, Passes c loop iterator cls getNext base count m after := by
  induction steps using Nat.strong_induction_on generalizing m entered with
  | _ steps ih =>
    have hlow : after.stack.length ≤ base.length := hend ▸ Nat.le_refl _
    obtain ⟨i, more, item, finished, returned, rest, rfl, hasks, hreturned, hrest⟩ :=
      exists_asks haction hreturns hstep hask hrun hlow
    have hone : m.run c 1 = (entered, none) := run_succ_eq_none.mpr ⟨m, rfl, hstep⟩
    have hentered := hm.run hc hone
    have hsensible := hentered.run hc hreturned
    have hvalues : returned.task = .values [more, item] := by rw [hasks.gets]
    have hstack : returned.stack = .item loop iterator cls getNext :: base := by rw [hasks.gets]
    cases rest with
    | zero =>
      -- The loop waits for the returns still, so it is not over yet.
      cases hrest
      exact absurd (congrArg List.length (hstack.symm.trans hend)) (Nat.succ_ne_self _)
    | succ rest =>
      rw [run] at hrest
      cases hnext : (step c).run returned with
      | error reason next =>
        rw [hnext] at hrest
        cases hrest
      | ok u begun =>
        rw [hnext] at hrest
        have hbegun := run_succ_eq_none.mpr ⟨returned, hreturned, hnext⟩
        rcases step_item hstack hvalues hnext with ⟨htrue, stored, hstores, hbegins⟩ | ⟨hfalse, hover⟩
        · obtain ⟨hwaiting, t, v, ht, hv, hv'⟩ := item_holds hc hsensible hvalues hstores hbegins
          obtain ⟨j, rest, ended, entered', rfl, hended, hexecutes, hstep', hask', hrest'⟩ :=
            exists_body (by rw [hbegins]) hwaiting hrest hlow
          have hagain := run_succ_eq_none.mpr ⟨ended, (run_of_add hbegun j).trans hended, hstep'⟩
          obtain ⟨count, hpasses⟩ := ih rest (by omega) (hentered.run hc ((run_of_add hbegun j).trans hended)) hstep'
            hask' hrest' fun l hl => by
              rw [← run_of_add hagain]
              exact hwaits _ (by omega)
          exact ⟨count + 1, .pass hasks htrue hv' hnext ht hv hexecutes hpasses⟩
        · -- Nothing waits for the loop any more, so it is over.
          have hlast : rest = 0 := by
            by_contra hne
            have hhigh := hwaits (i + 1 + 1) (by omega)
            rw [hbegun, hover] at hhigh
            exact absurd hhigh (Nat.lt_irrefl _)
          subst hlast
          cases hrest
          exact ⟨0, .over hasks hfalse hnext hover⟩

end Whole

end Machine

/-- A loop over an iterator asks it for items until there is none, and runs its body once for each, with the
item's value in the variable at the start. Nothing is written after the last answer. -/
theorem iterator_loop_passes (p : Program) (m₀ m middle after : Machine) (n : Nat) (loop : Loop)
    (target s iterator : Slot) (cls : Class) (hreach : m₀.restart.run (.ofProgram p) n = (m, none))
    (h : m.Loops (.ofProgram p) loop target s middle after) (hover : middle.LoopsOver target s iterator cls) :
    cls.implements "iterator" = true ∧ ∃ getNext count, cls.getNext? = some getNext ∧
      Machine.Passes (.ofProgram p) loop iterator cls getNext after.stack count middle after := by
  have hc := Catalog.ofProgram_regular p
  obtain ⟨hfinds, ⟨first, hfirst, -, ⟨i, hmiddle, -⟩, hvalue, hstack⟩, ⟨steps, hrun, hwaits⟩, rest, htask, -, hend⟩ := h
  have hm : m.Sensible (.ofProgram p) fun _ _ => True := (Machine.run_sensible hc hreach).imp fun _ _ _ => trivial
  have hone : m.run (.ofProgram p) 1 = (first, none) := Machine.run_succ_eq_none.mpr ⟨m, rfl, hfirst⟩
  have hsensible := (hm.run hc hone).run hc hmiddle
  rw [Machine.step_loop htask hfinds hfirst, ← hend] at hstack
  rw [Machine.run] at hrun
  cases hstep : (step (.ofProgram p)).run middle with
  | error reason entered =>
    rw [hstep] at hrun
    cases hrun
  | ok u entered =>
    rw [hstep] at hrun
    have hiterate := Machine.step_source hstack hvalue hover hstep
    obtain ⟨himplements, getNext, hnext, hask⟩ := Machine.iterate_eq_ok hiterate
    obtain ⟨fields, hobject, -⟩ := hover
    have hcls := hsensible.based.heap.cls_mem (Heap.form?_object.mpr ⟨fields, hobject⟩)
    obtain ⟨-, -, hreturns, hruns⟩ := hc.getNext? hcls hnext
    cases haction : getNext.action with
    | write => exact absurd haction hruns
    | run locals body =>
      have hlength : after.stack.length = m.stack.length + 1 := by rw [hend, List.length_cons]
      obtain ⟨count, hpasses⟩ := Machine.exists_passes hc haction hreturns hsensible hstep hask hrun rfl fun j hj => by
        have hhigh := hwaits j hj
        rw [Machine.run, hstep] at hhigh
        rw [hlength]
        exact hhigh
      exact ⟨himplements, getNext, count, hnext, hpasses⟩

/-! ### A variable that holds the iterator -/

/-- A loop over the object in its own variable. The body changes what is in the variable. -/
def Loop.repeating : Loop :=
  let place : Span := .single ⟨1, 1, "f"⟩
  ⟨"x", .variable "x", [.assign "x" (.not (.variable "x")) place], place⟩

/-- The object gives two items. -/
def Program.repeating : Program :=
  let loop : Loop := .repeating
  let place := loop.span
  let getNext : MethodDecl :=
    ⟨⟨"getNext", [], [⟨"boolean", "more"⟩, ⟨"boolean", "item"⟩]⟩, false, false, [],
      [.assign "more" (.not (.variable "last")) place, .assign "item" (.variable "later") place,
        .assign "last" (.variable "later") place, .assign "later" (.truth true) place], place⟩
  let start : MethodDecl :=
    ⟨⟨"start", [], []⟩, false, true, [⟨"twice", "x"⟩],
      [.assign "x" (.create "twice" []) place, .loop (some loop.name) loop.source loop.body loop.span], place⟩
  ⟨[], [⟨"main", [], [], [], [start], place⟩,
    ⟨"twice", ["iterator"], [⟨⟨"boolean", "later"⟩, [], []⟩, ⟨⟨"boolean", "last"⟩, [], []⟩], [], [getNext], place⟩]⟩

theorem iterator_loop_passes_repeating :
    (Machine.start .critical).restart.run (.ofProgram .repeating) 6 = (Program.repeating.after 6, none) ∧
    (Program.repeating.after 6).Loops (.ofProgram .repeating) .repeating 0 0 (Program.repeating.after 8)
      (Program.repeating.after 83) ∧
    ∃ cls, (Program.repeating.after 8).LoopsOver 0 0 0 cls ∧ cls.implements "iterator" = true ∧
      ∃ getNext count, cls.getNext? = some getNext ∧
        Machine.Passes (.ofProgram .repeating) .repeating 0 cls getNext (Program.repeating.after 83).stack count
          (Program.repeating.after 8) (Program.repeating.after 83) := by
  have hgoes : ∀ steps ∈ [6, 7, 8, 83],
      ((Machine.start .critical).restart.run (.ofProgram .repeating) steps).2.isNone := by decide +kernel
  have hreach : (Machine.start .critical).restart.run (.ofProgram .repeating) 6 = (Program.repeating.after 6, none) :=
    Program.reaches_after (hgoes 6 (by simp))
  have hevaluates : (Program.repeating.after 7).Evaluates (.ofProgram .repeating) Loop.repeating.source 0
      (Program.repeating.after 8) := by
    refine ⟨?_, ⟨0, Machine.run_between (hgoes 8 (by simp)), fun i hi => absurd hi (Nat.not_lt_zero i)⟩, ?_, ?_⟩
    all_goals decide +kernel
  have hloops : (Program.repeating.after 6).Loops (.ofProgram .repeating) .repeating 0 0 (Program.repeating.after 8)
      (Program.repeating.after 83) := by
    refine ⟨?_, ⟨Program.repeating.after 7, Machine.step_between (hgoes 7 (by simp)), hevaluates⟩,
      ⟨74, Machine.run_between (hgoes 83 (by simp)), by decide +kernel⟩, [], ?_, ?_, ?_⟩
    all_goals decide +kernel
  have htype : ((Program.repeating.after 8).heap.cell? 0).map Cell.typeName = some "twice" := by decide +kernel
  obtain ⟨v, hcell, hname⟩ := Option.map_eq_some_iff.mp htype
  cases v with
  | object cls fields =>
    have hover : (Program.repeating.after 8).LoopsOver 0 0 0 cls := ⟨fields, hcell, .inl rfl⟩
    exact ⟨hreach, hloops, cls, hover, iterator_loop_passes .repeating (.start .critical) _ _ _ 6 .repeating 0 0 0 cls
      hreach hloops hover⟩
  | _ => simp [Cell.typeName] at hname

end Offside
