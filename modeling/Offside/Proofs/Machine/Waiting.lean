import Offside.Proofs.Machine.Calls
import Offside.Proofs.Machine.Receivers

/-! What the work on a machine's stack waits for, and that it gets it.

A task hands over nothing, a value, or what a call returned. `Awaits` says of a stack that the work on
top is made for that, and that what it hands over in turn is what the work below is made for. A machine
is sensible if its stack awaits what its task hands over. Every step of a sensible machine leads to a
sensible one, or is the last for a reason of the program's own. -/
namespace Offside

/-- What a task hands over. -/
inductive Answer where
  /-- Nothing: statements are done. -/
  | done
  | value
  /-- So many returns of a call, or none because it wrote. -/
  | values (count : Option Nat)

/-- What may come of a goal. A call that keeps nothing may return however much. -/
inductive Goal.Gives : Goal → Answer → Prop
  | returned {object : Option String} {name : String} {targets count : Nat} :
      targets = 0 ∨ targets = count → Gives (.call object name targets) (.values (some count))
  | wrote {object : Option String} {name : String} {targets : Nat} :
      Gives (.call object name targets) (.values none)
  | made {cls : Class} : Gives (.create cls) .value

/-- Objects are made of classes of the catalog, and a call whose returns go into variables is the one
that the work on top of the stack is about. -/
structure Goal.Fits (c : Catalog) (goal : Goal) (stack : List Pending) : Prop where
  cls : ∀ cls, goal = .create cls → cls ∈ c.classes
  call : ∀ call targets span rest, stack = .receive call targets span :: rest →
    goal = .call call.object call.method targets.length

/-- An iterator, and the method that it is asked with. -/
structure Iterates (c : Catalog) (h : Heap) (iterator : Slot) (cls : Class) (getNext : Method) : Prop where
  object : h.form? iterator = some (.object cls)
  method : getNext ∈ cls.methods
  parameters : getNext.header.parameters = []
  returns : getNext.header.returns.length = 2
  runs : getNext.action ≠ .write

/-- The stack is made for what a task hands over in this scope. -/
inductive Awaits (c : Catalog) (h : Heap) : Answer → Frame → List Pending → Prop
  | empty {count : Option Nat} {f : Frame} : Awaits c h (.values count) f []
  -- Nothing is handed over.
  | rest {f : Frame} {k : List Pending} {body : List Stmt} : Awaits c h .done f k →
      Awaits c h .done f (.rest body :: k)
  | again {f : Frame} {k : List Pending} {source : Expr} {body : List Stmt} {span : Span} :
      Awaits c h .done f k → Awaits c h .done f (.again source body span :: k)
  | recordAgain {f : Frame} {k : List Pending} {loop : Loop} {target : Nat} : target < h.size →
      Awaits c h .done f k → Awaits c h .done f (.recordAgain loop target :: k)
  | itemAgain {f : Frame} {k : List Pending} {loop : Loop} {iterator : Slot} {cls : Class}
      {getNext : Method} : Iterates c h iterator cls getNext → Awaits c h .done f k →
      Awaits c h .done f (.itemAgain loop iterator cls getNext :: k)
  | leave {f f' : Frame} {k : List Pending} {returns : List Decl} {span : Option Span} :
      (∀ d ∈ returns, f.locals.contains d.name = true) → f'.Sensible c h →
      Awaits c h (.values (some returns.length)) f' k → Awaits c h .done f (.leave returns f' span :: k)
  | built {f f' : Frame} {k : List Pending} {object : Nat} {span : Option Span} : object < h.size →
      f'.Sensible c h → Awaits c h .value f' k → Awaits c h .done f (.built object f' span :: k)
  -- A value is.
  | store {f : Frame} {k : List Pending} {target : Nat} : target < h.size → Awaits c h .done f k →
      Awaits c h .value f (.store target :: k)
  | negate {f : Frame} {k : List Pending} : Awaits c h .value f k → Awaits c h .value f (.negate :: k)
  | left {f : Frame} {k : List Pending} {op : Operator} {left right : Expr} : Awaits c h .value f k →
      Awaits c h .value f (.left op left right :: k)
  | right {f : Frame} {k : List Pending} {op : Operator} {left right : Expr} {s : Nat} : s < h.size →
      Awaits c h .value f k → Awaits c h .value f (.right op left right s :: k)
  | argument {f : Frame} {k : List Pending} {before : List Slot} {after : List Expr} {goal : Goal} :
      (∀ s ∈ before, s < h.size) → goal.Fits c k → (∀ a, goal.Gives a → Awaits c h a f k) →
      Awaits c h .value f (.argument before after goal :: k)
  | choose {f : Frame} {k : List Pending} {condition : Expr} {yes : List Stmt}
      {no : Option (List Stmt)} : Awaits c h .done f k →
      Awaits c h .value f (.choose condition yes no :: k)
  | test {f : Frame} {k : List Pending} {source : Expr} {body : List Stmt} {span : Span} :
      Awaits c h .done f k → Awaits c h .value f (.test source body span :: k)
  | source {f : Frame} {k : List Pending} {loop : Loop} {target : Nat} : target < h.size →
      Awaits c h .done f k → Awaits c h .value f (.source loop target :: k)
  | record {f : Frame} {k : List Pending} {loop : Loop} {target : Nat} : target < h.size →
      Awaits c h .done f k → Awaits c h .value f (.record loop target :: k)
  -- What a call returned is.
  | single {f : Frame} {k : List Pending} {count : Option Nat} {call : Call} : Awaits c h .value f k →
      Awaits c h (.values count) f (.single call :: k)
  | receive {f : Frame} {k : List Pending} {count : Option Nat} {call : Call} {targets : List String}
      {span : Span} : count = none ∨ targets = [] ∨ count = some targets.length → Awaits c h .done f k →
      Awaits c h (.values count) f (.receive call targets span :: k)
  | item {f : Frame} {k : List Pending} {loop : Loop} {iterator : Slot} {cls : Class}
      {getNext : Method} : Iterates c h iterator cls getNext → Awaits c h .done f k →
      Awaits c h (.values (some 2)) f (.item loop iterator cls getNext :: k)

section
variable {c : Catalog} {h h' : Heap}

theorem Iterates.later {iterator : Slot} {cls : Class} {getNext : Method} (hk : h.Keeps h')
    (hi : Iterates c h iterator cls getNext) : Iterates c h' iterator cls getNext :=
  { hi with object := hk _ _ hi.object }

/-- A stack awaits the same when there are more slots and more variables. -/
theorem Awaits.later {a : Answer} {f f' : Frame} {k : List Pending} (hk : h.Keeps h')
    (hf : f.Grows f') (ha : Awaits c h a f k) : Awaits c h' a f' k := by
  induction ha generalizing f' with
  | empty => exact .empty
  | rest _ ih => exact .rest (ih hf)
  | again _ ih => exact .again (ih hf)
  | recordAgain ht _ ih => exact .recordAgain (hk.lt ht) (ih hf)
  | itemAgain hi _ ih => exact .itemAgain (hi.later hk) (ih hf)
  | leave hr hf' _ ih => exact .leave (fun d hd => hf.locals _ (hr d hd)) (hf'.mono hk) (ih (.refl _))
  | built ho hf' _ ih => exact .built (hk.lt ho) (hf'.mono hk) (ih (.refl _))
  | store ht _ ih => exact .store (hk.lt ht) (ih hf)
  | negate _ ih => exact .negate (ih hf)
  | left _ ih => exact .left (ih hf)
  | right hs _ ih => exact .right (hk.lt hs) (ih hf)
  | argument hs hg _ ih => exact .argument (fun s hmem => hk.lt (hs s hmem)) hg fun a ha => ih a ha hf
  | choose _ ih => exact .choose (ih hf)
  | test _ ih => exact .test (ih hf)
  | source ht _ ih => exact .source (hk.lt ht) (ih hf)
  | record ht _ ih => exact .record (hk.lt ht) (ih hf)
  | single _ ih => exact .single (ih hf)
  | receive hn _ ih => exact .receive hn (ih hf)
  | item hi _ ih => exact .item (hi.later hk) (ih hf)

end

/-- The stack awaits what the task hands over. Where a call statement gets nothing because its call
wrote, `wrote` says of which call. -/
def Task.Fits (c : Catalog) (wrote : Call → List String → Prop) (h : Heap) (f : Frame)
    (k : List Pending) : Task → Prop
  | .enter => k = []
  | .run _ => Awaits c h .done f k
  | .eval _ => Awaits c h .value f k
  | .value s => s < h.size ∧ Awaits c h .value f k
  | .values slots => (∀ s ∈ slots, s < h.size) ∧ ∃ count, Awaits c h (.values count) f k ∧
      (count = some slots.length ∨ count = none ∧ slots = [] ∧
        ∀ call targets span rest, k = .receive call targets span :: rest → wrote call targets)

structure Machine.Sensible (c : Catalog) (wrote : Call → List String → Prop) (m : Machine) : Prop where
  based : m.Based c
  fits : m.task.Fits c wrote m.heap m.frame m.stack

theorem Machine.Sensible.imp {c : Catalog} {wrote wrote' : Call → List String → Prop} {m : Machine}
    (hm : m.Sensible c wrote) (himp : ∀ call targets, wrote call targets → wrote' call targets) :
    m.Sensible c wrote' := by
  refine ⟨hm.based, ?_⟩
  have hfits := hm.fits
  cases htask : m.task with
  | values slots =>
    rw [htask] at hfits
    obtain ⟨hs, count, hk, hcount⟩ := hfits
    refine ⟨hs, count, hk, hcount.imp_right fun ⟨hnone, hslots, hwrote⟩ => ⟨hnone, hslots, ?_⟩⟩
    exact fun call targets span rest hstack => himp _ _ (hwrote call targets span rest hstack)
  | _ =>
    rw [htask] at hfits
    exact hfits

/-- A sensible machine, and how its heap came about. -/
structure Machine.Follows (c : Catalog) (free : Prop) (wrote : Call → List String → Prop) (h : Heap)
    (m : Machine) : Prop where
  sensible : m.Sensible c wrote
  changes : h.Changes c free m.heap

/-- With these arguments the call reaches the console's method, which writes. -/
def Call.Writes (c : Catalog) (w : World) (call : Call) (targets : List String) (slots : List Slot) : Prop :=
  ∃ t w', (Exec.callee c call.object call.method targets.length slots).on w = .ok t w' ∧
    t.cls = Class.console ∧ t.method.action = .write

theorem Machine.Stays.awaits {c : Catalog} {free : Prop} {m m' : Machine} {a : Answer} {k : List Pending}
    (hs : m.Stays c free m') (ha : Awaits c m.heap a m.frame k) : Awaits c m'.heap a m'.frame k :=
  ha.later hs.changes.keepsForms hs.grows

namespace Exec
variable {c : Catalog} {free : Prop} {wrote : Call → List String → Prop} {m : Machine}

/-! ### Calls -/

theorem reach_meets (hc : c.Regular) {goal : Goal} {slots : List Slot} (hm : m.Based c)
    (hs : ∀ s ∈ slots, s < m.heap.size) (hgoal : goal.Fits c m.stack)
    (hk : ∀ a, goal.Gives a → Awaits c m.heap a m.frame m.stack)
    (hwrote : ∀ call targets span rest, m.stack = .receive call targets span :: rest →
      call.Writes c m.world targets slots → wrote call targets) :
    Meets c (reach c slots goal) m fun _ m' => m'.Follows c free wrote m.heap := by
  cases goal with
  | call object name targets =>
    rw [reach_call_eq]
    refine (callee_meets hm hs).and_run.bind fun t m₁ ht => ?_
    obtain ⟨⟨⟨log, rfl⟩, hserved⟩, hrun⟩ := ht
    have hlength : t.method.action = .write ∨ t.method.header.parameters.length = slots.length :=
      hserved.serves.imp_right And.left
    have hlogged : ({ m with log } : Machine).Based c := ⟨hm.heap, hm.frame⟩
    refine (invoke_meets free hc hlogged hserved.cls hserved.method hserved.object hlength hs).imp
      fun _ m' hm' => ?_
    obtain ⟨hbased, hch, hcalled⟩ := hm'
    refine ⟨⟨hbased, ?_⟩, hch⟩
    cases hcalled with
    | wrote haction hframe hstack htask =>
      rw [htask, hframe, hstack]
      refine ⟨List.forall_mem_nil _, _, (hk _ .wrote).later hch.keepsForms (.refl _), .inr ⟨rfl, rfl, ?_⟩⟩
      intro call targets' span rest hreceive
      refine hwrote call targets' span rest hreceive ?_
      cases hgoal.call call targets' span rest hreceive
      obtain ⟨w, hon, -⟩ := (callee_local ..).uniform.run_eq_ok hrun
      exact ⟨t, w, hon, hc.writes _ hserved.cls _ hserved.method haction, haction⟩
    | entered haction hstack htask hreturns =>
      rw [htask, hstack]
      have hcount := hserved.serves.resolve_left (by rw [haction]; exact nofun)
      exact .leave hreturns (hm.frame.mono hch.keepsForms)
        ((hk _ (.returned hcount.2)).later hch.keepsForms (.refl _))
  | create cls =>
    rw [reach_create_eq]
    have hcls := hgoal.cls cls rfl
    refine (maker_meets hcls hs).bind fun k m₁ hmaker => ?_
    obtain ⟨rfl, hnone, hsome⟩ := hmaker
    refine (construct_meets free hc hm hcls hnone hsome hs).imp fun _ m' hm' => ?_
    obtain ⟨hbased, hch, ⟨object, hstack, hform⟩, htask⟩ := hm'
    refine ⟨⟨hbased, ?_⟩, hch⟩
    rw [htask, hstack]
    exact .built (Heap.lt_size_iff.mpr ⟨_, hform⟩) (hm.frame.mono hch.keepsForms)
      ((hk _ .made).later hch.keepsForms (.refl _))

theorem supply_meets (hc : c.Regular) {goal : Goal} {before : List Slot} {after : List Expr}
    (hm : m.Based c) (hs : ∀ s ∈ before, s < m.heap.size) (hgoal : goal.Fits c m.stack)
    (hk : ∀ a, goal.Gives a → Awaits c m.heap a m.frame m.stack)
    (hwrote : after = [] → ∀ call targets span rest, m.stack = .receive call targets span :: rest →
      call.Writes c m.world targets before.reverse → wrote call targets) :
    Meets c (supply c before goal after) m fun _ m' => m'.Follows c free wrote m.heap := by
  cases after with
  | nil => exact reach_meets hc hm (fun s hmem => hs s (List.mem_reverse.mp hmem)) hgoal hk (hwrote rfl)
  | cons e after => exact Meets.of_ok rfl ⟨⟨⟨hm.heap, hm.frame⟩, .argument hs hgoal hk⟩, .refl⟩

/-! ### Loops over iterators -/

theorem askNext_meets (hc : c.Regular) {loop : Loop} {iterator : Slot} {cls : Class} {getNext : Method}
    (hm : m.Based c) (hi : Iterates c m.heap iterator cls getNext)
    (hk : Awaits c m.heap .done m.frame m.stack) :
    Meets c (askNext c loop iterator cls getNext) m fun _ m' => m'.Follows c free wrote m.heap := by
  have hpushed : ({ m with stack := .item loop iterator cls getNext :: m.stack } : Machine).Based c :=
    ⟨hm.heap, hm.frame⟩
  refine Meets.bind_ok rfl ((invoke_meets free hc hpushed (hm.heap.cls_mem hi.object) hi.method ?_
    (.inr (by rw [hi.parameters]; rfl)) (List.forall_mem_nil _)).imp fun _ m' hm' => ?_)
  · intro s hs
    cases hs
    exact hi.object
  obtain ⟨hbased, hch, hcalled⟩ := hm'
  refine ⟨⟨hbased, ?_⟩, hch⟩
  cases hcalled with
  | wrote haction => exact absurd haction hi.runs
  | entered haction hstack htask hreturns =>
    rw [htask, hstack]
    refine .leave hreturns (hm.frame.mono hch.keepsForms) ?_
    rw [hi.returns]
    exact .item (hi.later hch.keepsForms) (hk.later hch.keepsForms (.refl _))

theorem iterate_meets (hc : c.Regular) {loop : Loop} {iterator : Slot} {cls : Class} (hm : m.Based c)
    (hi : m.heap.form? iterator = some (.object cls)) (hk : Awaits c m.heap .done m.frame m.stack) :
    Meets c (iterate c loop iterator cls) m fun _ m' => m'.Follows c free wrote m.heap := by
  unfold iterate
  by_cases himplements : cls.implements "iterator" = true
  · rw [if_neg (by rw [himplements]; exact Bool.false_ne_true)]
    refine Meets.bind_ok rfl ?_
    cases hnext : cls.getNext? with
    | none => exact fault_meets trivial
    | some getNext =>
      obtain ⟨hmethod, hparams, hreturns, hruns⟩ := hc.getNext? (hm.heap.cls_mem hi) hnext
      exact askNext_meets hc hm ⟨hi, hmethod, hparams, hreturns, hruns⟩ hk
  · rw [if_pos (by simpa using himplements)]
    exact fault_meets trivial

theorem recordCondition_meets (hc : c.Regular) {loop : Loop} {target s : Nat} (hm : m.Based c)
    (htarget : target < m.heap.size) (hs : s < m.heap.size)
    (hk : Awaits c m.heap .done m.frame m.stack) :
    Meets c (recordCondition loop target s) m fun _ m' => m'.Follows c free wrote m.heap := by
  refine (cell_meets hs).bind fun v m' hv => ?_
  obtain ⟨rfl, hv⟩ := hv
  cases v with
  | truth value =>
    refine (assign_meets free hc hm htarget hs).bind fun _ m₁ hm₁ => ?_
    have hk₁ : Awaits c m₁.heap .done m₁.frame m₁.stack := by
      rw [hm₁.1.stack]
      exact hm₁.1.awaits hk
    have hbased := hm₁.1.based
    cases value with
    | true =>
      exact Meets.of_ok rfl ⟨⟨⟨hbased.heap, hbased.frame⟩,
        .recordAgain (hm₁.1.changes.keepsForms.lt htarget) hk₁⟩, hm₁.1.changes⟩
    | false => exact Meets.of_ok rfl ⟨⟨⟨hbased.heap, hbased.frame⟩, hk₁⟩, hm₁.1.changes⟩
  | _ => exact fault_meets trivial

/-! ### Statements and expressions -/

theorem execute_meets (hc : c.Regular) {s : Stmt} (hm : m.Based c)
    (hk : Awaits c m.heap .done m.frame m.stack)
    (hwrote : ∀ call targets span, s = .call call targets span → call.arguments = [] →
      call.Writes c m.world targets [] → wrote call targets) :
    Meets c (execute c s) m fun _ m' => m'.Follows c free wrote m.heap := by
  cases s with
  | assign target e span =>
    have hmoved : ({ m with here := some span } : Machine).Based c := ⟨hm.heap, hm.frame⟩
    refine Meets.bind_ok rfl ((lookup_meets hmoved target).bind fun t m' ht => ?_)
    obtain ⟨rfl, hlt, -⟩ := ht
    exact Meets.of_ok rfl ⟨⟨⟨hm.heap, hm.frame⟩, .store hlt hk⟩, .refl⟩
  | call call targets span =>
    refine Meets.bind_ok rfl (Meets.bind_ok rfl ?_)
    refine supply_meets hc ⟨hm.heap, hm.frame⟩ (List.forall_mem_nil _) ⟨?_, ?_⟩ ?_ ?_
    · intro cls hcls
      cases hcls
    · intro call' targets' span' rest hstack
      cases hstack
      rfl
    · intro a ha
      cases ha with
      | returned hcount =>
        refine .receive (.inr (hcount.imp List.eq_nil_of_length_eq_zero fun hcount => ?_)) hk
        rw [hcount]
      | wrote => exact .receive (.inl rfl) hk
    · intro hnone call' targets' span' rest hstack hwrites
      cases hstack
      exact hwrote call targets span rfl hnone hwrites
  | loop target source body span =>
    cases target with
    | none => exact Meets.of_ok rfl ⟨⟨⟨hm.heap, hm.frame⟩, .test hk⟩, .refl⟩
    | some name =>
      have hmoved : ({ m with here := some span } : Machine).Based c := ⟨hm.heap, hm.frame⟩
      refine Meets.bind_ok rfl ((lookup_meets hmoved name).bind fun t m' ht => ?_)
      obtain ⟨rfl, hlt, -⟩ := ht
      exact Meets.of_ok rfl ⟨⟨⟨hm.heap, hm.frame⟩, .source hlt hk⟩, .refl⟩
  | branch condition yes no span => exact Meets.of_ok rfl ⟨⟨⟨hm.heap, hm.frame⟩, .choose hk⟩, .refl⟩

/-- A new cell is handed over. -/
theorem give_meets (hc : c.Regular) {cell : Cell} (hm : m.Based c) (hblank : c.Blank cell)
    (hk : Awaits c m.heap .value m.frame m.stack) :
    Meets c (give cell) m fun _ m' => m'.Follows c free wrote m.heap := by
  have hch : m.heap.Changes c free (m.heap.alloc cell).2 := .single (.alloc hblank)
  have hbased := hm.changed hc hch
  refine Meets.of_ok rfl ⟨⟨⟨hbased.heap, hbased.frame⟩, ?_, hk.later hch.keepsForms (.refl _)⟩, hch⟩
  show m.heap.size < (m.heap.alloc cell).2.size
  rw [Heap.size_alloc]
  exact Nat.lt_succ_self _

/-- No variables receive a value. -/
theorem Awaits.ne_receive {h : Heap} {f : Frame} {k rest : List Pending} {call : Call}
    {targets : List String} {span : Span} (ha : Awaits c h .value f k) :
    k ≠ .receive call targets span :: rest := by
  intro hk
  rw [hk] at ha
  cases ha

theorem evaluate_meets (hc : c.Regular) {e : Expr} (hm : m.Based c)
    (hk : Awaits c m.heap .value m.frame m.stack) :
    Meets c (evaluate c e) m fun _ m' => m'.Follows c free wrote m.heap := by
  cases e with
  | number value => exact give_meets hc hm ⟨rfl, nofun⟩ hk
  | text value => exact give_meets hc hm ⟨rfl, nofun⟩ hk
  | truth value => exact give_meets hc hm ⟨rfl, nofun⟩ hk
  | character value => exact give_meets hc hm ⟨rfl, nofun⟩ hk
  | «variable» name =>
    refine (lookup_meets hm name).bind fun t m' ht => ?_
    obtain ⟨rfl, hlt, -⟩ := ht
    exact Meets.of_ok rfl ⟨⟨⟨hm.heap, hm.frame⟩, hlt, hk⟩, .refl⟩
  | not operand => exact Meets.of_ok rfl ⟨⟨⟨hm.heap, hm.frame⟩, .negate hk⟩, .refl⟩
  | binary op left right => exact Meets.of_ok rfl ⟨⟨⟨hm.heap, hm.frame⟩, .left hk⟩, .refl⟩
  | call object method arguments =>
    refine Meets.bind_ok rfl ?_
    refine supply_meets hc ⟨hm.heap, hm.frame⟩ (List.forall_mem_nil _) ⟨?_, ?_⟩ ?_ ?_
    · intro cls hcls
      cases hcls
    · intro _ _ _ _ hstack
      cases hstack
    · intro a ha
      cases ha with
      | returned => exact .single hk
      | wrote => exact .single hk
    · intro _ _ _ _ _ hstack
      cases hstack
  | create name arguments =>
    unfold evaluate
    dsimp only
    cases hclass : c.class? name with
    | none => exact fault_meets trivial
    | some cls =>
      refine supply_meets hc hm (List.forall_mem_nil _) ⟨?_, ?_⟩ ?_ ?_
      · intro cls' hcls
        cases hcls
        exact (Catalog.class?_eq_some hclass).1
      · intro _ _ _ _ hstack
        exact absurd hstack (Awaits.ne_receive hk)
      · intro a ha
        cases ha
        exact hk
      · intro _ _ _ _ _ hstack
        exact absurd hstack (Awaits.ne_receive hk)

/-! ### Going on -/

theorem resume_meets (hc : c.Regular) {p : Pending} (hm : m.Based c)
    (hk : Awaits c m.heap .done m.frame (p :: m.stack)) :
    Meets c (resume c p) m fun _ m' => m'.Follows c free wrote m.heap := by
  cases hk with
  | rest hk => exact Meets.of_ok rfl ⟨⟨⟨hm.heap, hm.frame⟩, hk⟩, .refl⟩
  | again hk => exact Meets.of_ok rfl ⟨⟨⟨hm.heap, hm.frame⟩, .test hk⟩, .refl⟩
  | recordAgain ht hk => exact Meets.of_ok rfl ⟨⟨⟨hm.heap, hm.frame⟩, .record ht hk⟩, .refl⟩
  | itemAgain hi hk => exact askNext_meets hc hm hi hk
  | @leave _ f' _ returns span hreturns hf hk =>
    refine (lookupEach_meets hm returns).bind fun slots m' hslots => ?_
    obtain ⟨rfl, hlength, hs⟩ := hslots
    exact Meets.of_ok rfl ⟨⟨⟨hm.heap, hf⟩, hs, _, hk, .inl (by rw [hlength])⟩, .refl⟩
  | built ho hf hk => exact Meets.of_ok rfl ⟨⟨⟨hm.heap, hf⟩, ho, hk⟩, .refl⟩

theorem operate_proper {op : Operator} {whole : Expr} {l r : Cell} (f : Fault)
    (hf : op.apply whole l r = .error f) : f.Proper c := by
  unfold Operator.apply at hf
  split at hf
  case h_6 =>
    split at hf
    · cases hf
    · cases hf
      trivial
  all_goals
    cases hf
    try trivial

theorem operate_blank {op : Operator} {whole : Expr} {l r cell : Cell}
    (h : op.apply whole l r = .ok cell) : c.Blank cell := by
  unfold Operator.apply at h
  split at h
  case h_6 =>
    split at h
    · cases h
      exact ⟨rfl, nofun⟩
    · cases h
  all_goals
    cases h
    try exact ⟨rfl, nofun⟩

theorem deliver_meets (hc : c.Regular) {p : Pending} {s : Nat} (hm : m.Based c) (hs : s < m.heap.size)
    (hk : Awaits c m.heap .value m.frame (p :: m.stack))
    (hwrote : ∀ before goal, p = .argument before [] goal → ∀ call targets span rest,
      m.stack = .receive call targets span :: rest →
      call.Writes c m.world targets (s :: before).reverse → wrote call targets) :
    Meets c (deliver c s p) m fun _ m' => m'.Follows c free wrote m.heap := by
  cases hk with
  | store ht hk =>
    refine (assign_meets free hc hm ht hs).bind fun _ m₁ hm₁ => ?_
    refine Meets.of_ok rfl ⟨⟨⟨hm₁.1.based.heap, hm₁.1.based.frame⟩, ?_⟩, hm₁.1.changes⟩
    show Awaits c m₁.heap .done m₁.frame m₁.stack
    rw [hm₁.1.stack]
    exact hm₁.1.awaits hk
  | negate hk =>
    refine (cell_meets hs).bind fun v m' hv => ?_
    obtain ⟨rfl, -⟩ := hv
    cases v with
    | truth value => exact give_meets hc hm ⟨rfl, nofun⟩ hk
    | _ => exact fault_meets trivial
  | left hk => exact Meets.of_ok rfl ⟨⟨⟨hm.heap, hm.frame⟩, .right hs hk⟩, .refl⟩
  | right hl hk =>
    refine (cell_meets hl).bind fun left m' hleft => ?_
    obtain ⟨rfl, -⟩ := hleft
    refine (cell_meets hs).bind fun right m'' hright => ?_
    obtain ⟨rfl, -⟩ := hright
    refine (orFault_meets operate_proper).bind fun cell m₁ hcell => ?_
    obtain ⟨rfl, hcell⟩ := hcell
    exact give_meets hc hm (operate_blank hcell) hk
  | @argument _ _ before after goal hbefore hgoal hk =>
    refine supply_meets hc hm (List.forall_mem_cons.mpr ⟨hs, hbefore⟩) hgoal hk ?_
    intro hnone
    subst hnone
    exact hwrote before goal rfl
  | choose hk =>
    refine (truthOf_meets hs).bind fun value m' hm' => ?_
    subst hm'
    cases value <;> exact Meets.of_ok rfl ⟨⟨⟨hm.heap, hm.frame⟩, hk⟩, .refl⟩
  | test hk =>
    refine (truthOf_meets hs).bind fun value m' hm' => ?_
    subst hm'
    cases value with
    | true => exact Meets.of_ok rfl ⟨⟨⟨hm.heap, hm.frame⟩, .again hk⟩, .refl⟩
    | false => exact Meets.of_ok rfl ⟨⟨⟨hm.heap, hm.frame⟩, hk⟩, .refl⟩
  | source ht hk =>
    refine (cell_meets hs).bind fun v m' hv => ?_
    obtain ⟨rfl, hv⟩ := hv
    cases v with
    | object cls fields => exact iterate_meets hc hm (Heap.form?_object.mpr ⟨fields, hv⟩) hk
    | _ =>
      refine (cell_meets ht).bind fun v' m'' hv' => ?_
      obtain ⟨rfl, hv'⟩ := hv'
      cases v' with
      | object cls fields => exact iterate_meets hc hm (Heap.form?_object.mpr ⟨fields, hv'⟩) hk
      | _ => exact recordCondition_meets hc hm ht hs hk
  | record ht hk => exact recordCondition_meets hc hm ht hs hk

theorem deliverAll_meets (hc : c.Regular) {p : Pending} {slots : List Slot} {count : Option Nat}
    (hm : m.Based c) (hs : ∀ s ∈ slots, s < m.heap.size)
    (hk : Awaits c m.heap (.values count) m.frame (p :: m.stack))
    (hcount : count = some slots.length ∨ count = none ∧ slots = [])
    (hfree : ∀ more item others loop iterator cls getNext, slots = more :: item :: others →
      p = .item loop iterator cls getNext → m.heap.cell? more = some (.truth true) →
      m.FindsField loop.name iterator → free) :
    Meets c (deliverAll slots p) m fun _ m' => m'.Follows c free wrote m.heap := by
  cases hk with
  | single hk =>
    cases slots with
    | nil => exact fault_meets trivial
    | cons s others => exact Meets.of_ok rfl ⟨⟨⟨hm.heap, hm.frame⟩, hs s List.mem_cons_self, hk⟩, .refl⟩
  | @receive _ _ _ call targets span _ hk =>
    have hmoved : ({ m with here := some span } : Machine).Based c := ⟨hm.heap, hm.frame⟩
    refine Meets.bind_ok rfl ((storeEach_meets free hc hmoved hs).bind fun _ m₁ hm₁ => ?_)
    refine Meets.of_ok rfl ⟨⟨⟨hm₁.based.heap, hm₁.based.frame⟩, ?_⟩, hm₁.changes⟩
    show Awaits c m₁.heap .done m₁.frame m₁.stack
    rw [hm₁.stack]
    exact hm₁.awaits hk
  | @item _ _ loop iterator cls getNext hi hk =>
    have htwo : slots.length = 2 := by
      rcases hcount with hcount | ⟨hcount, -⟩
      · exact (Option.some.inj hcount).symm
      · cases hcount
    obtain ⟨more, item, rfl⟩ := List.length_eq_two.mp htwo
    obtain ⟨hmore, hrest⟩ := List.forall_mem_cons.mp hs
    have hitem : item < m.heap.size := hrest item List.mem_cons_self
    have hmoved : ({ m with here := some loop.span } : Machine).Based c := ⟨hm.heap, hm.frame⟩
    have hcell := cell_meets (c := c) (m := { m with here := some loop.span }) hmore
    refine Meets.bind_ok rfl (hcell.bind fun v m' hv => ?_)
    obtain ⟨rfl, hv⟩ := hv
    cases v with
    | truth value =>
      cases value with
      | true =>
        refine (storeItem_meets hc hmoved hitem).bind fun _ m₁ hm₁ => ?_
        have hch : m.heap.Changes c free m₁.heap := hm₁.changes.imp fun hfield =>
          hfree more item [] loop iterator cls getNext rfl rfl hv hfield
        refine Meets.of_ok rfl ⟨⟨⟨hm₁.based.heap, hm₁.based.frame⟩, ?_⟩, hch⟩
        refine .itemAgain (hi.later hch.keepsForms) ?_
        rw [hm₁.stack]
        exact hm₁.awaits hk
      | false => exact Meets.of_ok rfl ⟨⟨⟨hm.heap, hm.frame⟩, hk⟩, .refl⟩
    | _ => exact fault_meets trivial

theorem enter_meets (hc : c.Regular) (hm : m.Based c) (hstack : m.stack = []) :
    Meets c (enter c) m fun _ m' => m'.Follows c free wrote m.heap := by
  unfold enter
  cases hentry : c.entry? with
  | none => exact fault_meets trivial
  | some found =>
    obtain ⟨cls, method⟩ := found
    obtain ⟨hcls, hmethod, hparams⟩ := Catalog.entry?_eq_some hentry
    refine (note_meets _ _).bind fun _ m₁ hm₁ => ?_
    obtain ⟨log, rfl⟩ := hm₁
    have hlogged : ({ m with log } : Machine).Based c := ⟨hm.heap, hm.frame⟩
    refine (invoke_meets free hc hlogged hcls hmethod (fun _ hs => by cases hs) (.inr (by rw [hparams]; rfl))
      (List.forall_mem_nil _)).imp fun _ m' hm' => ?_
    obtain ⟨hbased, hch, hcalled⟩ := hm'
    refine ⟨⟨hbased, ?_⟩, hch⟩
    cases hcalled with
    | wrote haction hframe hstack' htask =>
      rw [htask, hstack', hstack]
      exact ⟨List.forall_mem_nil _, _, .empty, .inl rfl⟩
    | entered haction hstack' htask hreturns =>
      rw [htask, hstack', hstack]
      exact .leave hreturns (hm.frame.mono hch.keepsForms) .empty

end Exec

/-! ### Steps -/

/-- The machine has the arguments of a call statement's call and looks for its method next. -/
def Machine.Calls (m : Machine) (call : Call) (targets : List String) (slots : List Slot) : Prop :=
  (∃ span rest, m.task = .run (.call call targets span :: rest) ∧ call.arguments = [] ∧ slots = []) ∨
    ∃ s before span rest, m.task = .value s ∧
      m.stack = .argument before [] (.call call.object call.method targets.length) ::
        .receive call targets span :: rest ∧ slots = (s :: before).reverse

/-- The machine is at a call statement's call that writes. -/
def Machine.Writes (c : Catalog) (m : Machine) (call : Call) (targets : List String) : Prop :=
  ∃ slots, m.Calls call targets slots ∧ call.Writes c m.world targets slots

/-- The machine is in a loop over an iterator that is in a field, and about to give that field another
slot. -/
def Machine.RebindsField (m : Machine) : Prop :=
  ∃ more item others loop iterator cls getNext rest, m.task = .values (more :: item :: others) ∧
    m.stack = .item loop iterator cls getNext :: rest ∧ m.heap.cell? more = some (.truth true) ∧
    m.FindsField loop.name iterator

namespace Exec
variable {c : Catalog} {wrote : Call → List String → Prop} {m : Machine}

theorem pop_run {p : Pending} {k : List Pending} (hstack : m.stack = p :: k) :
    pop.run m = .ok p { m with stack := k } := by
  obtain ⟨heap, frame, here, task, stack, records, threshold, log⟩ := m
  subst hstack
  rfl

/-- Taking work from an empty stack ends a run. -/
theorem pop_meets {α : Type} {f : Pending → Exec α} {post : α → Machine → Prop} (hstack : m.stack = []) :
    Meets c (pop >>= f) m post := by
  obtain ⟨heap, frame, here, task, stack, records, threshold, log⟩ := m
  subst hstack
  trivial

/-- A step of a sensible machine leads to a sensible one, or is the last for a reason of the program's
own. -/
theorem step_meets (hc : c.Regular) (hm : m.Sensible c wrote) :
    Meets c (step c) m fun _ m' => m'.Follows c m.RebindsField (m.Writes c) m.heap := by
  obtain ⟨hbased, hfits⟩ := hm
  refine Meets.bind_ok rfl ?_
  cases htask : m.task with
  | enter =>
    rw [htask] at hfits
    exact enter_meets hc hbased hfits
  | run body =>
    rw [htask] at hfits
    cases body with
    | nil =>
      cases hstack : m.stack with
      | nil =>
        rw [hstack] at hfits
        cases hfits
      | cons p k =>
        rw [hstack] at hfits
        refine Meets.bind_ok (pop_run hstack) ?_
        exact resume_meets hc ⟨hbased.heap, hbased.frame⟩ hfits
    | cons s rest =>
      refine Meets.bind_ok rfl (execute_meets hc ⟨hbased.heap, hbased.frame⟩ (.rest hfits) ?_)
      rintro call targets span rfl hnone hwrites
      exact ⟨[], .inl ⟨span, rest, htask, hnone, rfl⟩, hwrites⟩
  | eval e =>
    rw [htask] at hfits
    exact evaluate_meets hc hbased hfits
  | value s =>
    rw [htask] at hfits
    obtain ⟨hs, hk⟩ := hfits
    cases hstack : m.stack with
    | nil =>
      rw [hstack] at hk
      cases hk
    | cons p k =>
      rw [hstack] at hk
      refine Meets.bind_ok (pop_run hstack) ?_
      refine deliver_meets hc ⟨hbased.heap, hbased.frame⟩ hs hk ?_
      rintro before goal rfl call targets span rest hreceive hwrites
      have hgoal : goal = .call call.object call.method targets.length := by
        cases hk with
        | argument _ hgoal => exact hgoal.call call targets span rest hreceive
      subst hgoal
      refine ⟨_, .inr ⟨s, before, span, rest, htask, ?_, rfl⟩, hwrites⟩
      rw [hstack, show k = _ from hreceive]
  | values slots =>
    rw [htask] at hfits
    obtain ⟨hs, count, hk, hcount⟩ := hfits
    cases hstack : m.stack with
    | nil => exact pop_meets hstack
    | cons p k =>
      rw [hstack] at hk
      refine Meets.bind_ok (pop_run hstack) ?_
      refine deliverAll_meets hc ⟨hbased.heap, hbased.frame⟩ hs hk (hcount.imp_right fun h => ⟨h.1, h.2.1⟩) ?_
      rintro more item others loop iterator cls getNext rfl rfl hmore hfield
      exact ⟨more, item, others, loop, iterator, cls, getNext, k, htask, hstack, hmore, hfield⟩

end Exec

end Offside
