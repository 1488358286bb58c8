import Offside.Proofs.Heap.Copies
import Offside.Proofs.Machine.Assignment

/-! Values that are stored in several variables, one after another.

Each variable is looked up and written before the next one is, so a write can change what is stored later,
or where. It does not if no variable's slot is part of another's contents, and none is part of what is stored
after it. -/
namespace Offside

open Exec

namespace Heap

variable {h : Heap} {target source : Slot} {u : Update}

/-- Neither slot is part of the other's contents. -/
def Apart (h : Heap) (s t : Slot) : Prop :=
  ¬ Relation.ReflTransGen h.Contains s t ∧ ¬ Relation.ReflTransGen h.Contains t s

theorem eq_of_reach {s t : Slot} {v : Cell} (hs : h.cell? s = some v) (hv : v.fields = [])
    (hreach : Relation.ReflTransGen h.Contains s t) : s = t := by
  rcases hreach.cases_head with heq | ⟨_, ⟨name, v', hcell, hmem⟩, -⟩
  · exact heq
  · cases hs.symm.trans hcell
    rw [hv] at hmem
    cases hmem

/-- Different slots are apart if no fields are in them. -/
theorem apart_of_plain {s t : Slot} {v w : Cell} (hs : h.cell? s = some v) (hv : v.fields = [])
    (ht : h.cell? t = some w) (hw : w.fields = []) (hne : s ≠ t) : h.Apart s t :=
  ⟨fun hreach => hne (eq_of_reach hs hv hreach), fun hreach => hne (eq_of_reach ht hw hreach).symm⟩

/-- What does not reach the slot that is written to reaches nothing more afterwards. -/
theorem reach_of_apply (ho : h.Owned) (hu : h.update target source = .ok u) {s t : Nat} (hs : s < h.size)
    (hunreached : ¬ Relation.ReflTransGen h.Contains s target)
    (hreach : Relation.ReflTransGen (h.apply target u).Contains s t) : Relation.ReflTransGen h.Contains s t := by
  induction hreach with
  | refl => exact .refl
  | @tail y z _ hlast ih =>
    have hne : y ≠ target := fun heq => hunreached (heq ▸ ih)
    obtain ⟨name, hholds⟩ := hlast
    exact ih.tail ⟨name, (holds_congr (cell?_apply hu (ho.reach_lt hs ih) hne)).mp hholds⟩

theorem Apart.apply {s t : Nat} (ha : h.Apart s t) (ho : h.Owned) (hu : h.update target source = .ok u)
    (hs : s < h.size) (ht : t < h.size) (hs' : h.Apart target s) (ht' : h.Apart target t) :
    (h.apply target u).Apart s t :=
  ⟨fun hreach => ha.1 (reach_of_apply ho hu hs hs'.2 hreach), fun hreach => ha.2 (reach_of_apply ho hu ht ht'.2 hreach)⟩

/-- After a write, what is written does not reach what is apart from it. -/
theorem unreached_apply {t : Nat} (hu : h.update target source = .ok u) (ht : t < h.size) (ha : h.Apart target t) :
    ¬ Relation.ReflTransGen (h.apply target u).Contains target t := by
  by_cases hne : target = source
  · subst hne
    rw [apply_self hu]
    exact ha.1
  · intro hreach
    rcases Relation.reflTransGen_iff_eq_or_transGen.mp hreach with heq | hreach
    · exact ha.1 (heq ▸ .refl)
    · exact Nat.not_le_of_lt ht (reach_apply hu hne hreach)

end Heap

namespace Machine

/-- Each variable gets the value that is in its slot of the list just then, and what its own slot is no part of
stays as it is. -/
inductive StoresInTurn : List String → List Slot → Machine → Machine → Prop
  | done {slots : List Slot} {m m' : Machine} : m'.heap = m.heap → m'.frame = m.frame → StoresInTurn [] slots m m'
  | next {name : String} {names : List String} {r : Slot} {slots : List Slot} {t : Slot} {m m₁ m' : Machine} :
      m.Denotes name t → m₁.frame = m.frame → m₁.heap.value? t = m.heap.value? r →
      (∀ s < m.heap.size, ¬ Relation.ReflTransGen m.heap.Contains s t → m₁.heap.value? s = m.heap.value? s) →
      StoresInTurn names slots m₁ m' → StoresInTurn (name :: names) (r :: slots) m m'

variable {c : Catalog} {m m' : Machine} {shortfall : Unit → String} {name : String} {names : List String}
  {r s t : Slot} {slots ts : List Slot} {u : Heap.Update}

/-- A variable has its slot still after a write, unless it is a field of what is written to. -/
theorem Finds.apply (hu : m.heap.update t r = .ok u) (h : m.Finds name s) (hunheld : ¬ m.heap.Contains t s) :
    ({ m with heap := m.heap.apply t u } : Machine).Finds name s := by
  rcases h with hlocal | ⟨hlocal, object, fields, hobject, hcell, hfield⟩
  · exact .inl hlocal
  · have hne : object ≠ t := by
      rintro rfl
      exact hunheld ⟨name, _, hcell, Bindings.mem_of_get? hfield⟩
    refine .inr ⟨hlocal, object, fields, hobject, ?_, hfield⟩
    exact (Heap.cell?_apply hu (Heap.lt_size_of_cell? hcell) hne).trans hcell

theorem Finds.eq (h : m.Finds name s) (h' : m.Finds name t) : s = t := by
  cases (denotes_of_finds h).symm.trans (denotes_of_finds h')
  rfl

theorem Based.apply (hc : c.Regular) (hm : m.Based c) (hu : m.heap.update t r = .ok u) :
    ({ m with heap := m.heap.apply t u } : Machine).Based c := by
  have hch : m.heap.Changes c False (m.heap.apply t u) := .single (.assign hu)
  exact hm.changed hc hch

theorem Based.value?_apply (hc : c.Regular) (hm : m.Based c) (hu : m.heap.update t r = .ok u) :
    (m.heap.apply t u).value? t = m.heap.value? r :=
  hm.heap.owned.value?_apply hu fun _ _ hcls hother hname =>
    hc.eq_of_name (hm.heap.cls_mem hcls) (hm.heap.cls_mem hother) hname

/-- A variable is looked up and written before the others are. -/
theorem storeEach_cons (hm : m.Based c)
    (h : (storeEach shortfall (name :: names) (r :: slots)).run m = .ok () m') :
    ∃ t u, m.Finds name t ∧ m.heap.update t r = .ok u ∧
      (storeEach shortfall names slots).run { m with heap := m.heap.apply t u } = .ok () m' := by
  obtain ⟨t, m₁, hlookup, h⟩ := bind_run_eq_ok.mp h
  obtain ⟨_, m₂, hassign, hrest⟩ := bind_run_eq_ok.mp h
  have hfinds := finds_of_lookup hm hlookup
  obtain ⟨rfl, -⟩ := lookup_run hlookup
  obtain ⟨u, hu, rfl⟩ := assign_run hassign
  exact ⟨t, u, hfinds, hu, hrest⟩

theorem storeEach_inTurn (hc : c.Regular) (hm : m.Based c) (hlength : names.length ≤ slots.length)
    (h : (storeEach shortfall names slots).run m = .ok () m') : StoresInTurn names slots m m' := by
  induction names generalizing m slots with
  | nil =>
    cases h
    exact .done rfl rfl
  | cons name names ih =>
    cases slots with
    | nil => exact absurd hlength (Nat.not_succ_le_zero _)
    | cons r slots =>
      obtain ⟨t, u, hfinds, hu, hrest⟩ := storeEach_cons hm h
      have hlater := ih (hm.apply hc hu) (Nat.le_of_succ_le_succ hlength) hrest
      refine .next (denotes_of_finds hfinds) (by rfl) (hm.value?_apply hc hu) (fun s hs hunreached => ?_) hlater
      exact hm.heap.owned.value?_apply_of_unreached hu hs hunreached

/-! ### Variables apart from one another -/

theorem Finds.forall_mem {P : Slot → Prop} (hnames : List.Forall₂ m.Finds names ts)
    (hP : ∀ name t, m.Finds name t → P t) : ∀ t ∈ ts, P t := by
  induction hnames with
  | nil => exact List.forall_mem_nil _
  | cons hfinds _ ih => exact List.forall_mem_cons.mpr ⟨hP _ _ hfinds, ih⟩

theorem Finds.lt_all (hm : m.Based c) (hnames : List.Forall₂ m.Finds names ts) : ∀ t ∈ ts, t < m.heap.size :=
  forall_mem hnames fun _ _ hfinds => hfinds.lt hm

/-- The other variables are where they were after a write apart from them. -/
theorem Finds.apply_all (hu : m.heap.update t r = .ok u) (hnames : List.Forall₂ m.Finds names ts)
    (hapart : ∀ t' ∈ ts, m.heap.Apart t t') :
    List.Forall₂ ({ m with heap := m.heap.apply t u } : Machine).Finds names ts := by
  induction hnames with
  | nil => exact .nil
  | cons hfinds _ ih =>
    obtain ⟨hhead, htail⟩ := List.forall_mem_cons.mp hapart
    exact .cons (hfinds.apply hu fun hcontains => hhead.1 (.single hcontains)) (ih htail)

/-- The first of several stores apart from one another leaves the others as they were. -/
theorem storeEach_first (hc : c.Regular) (hm : m.Based c) (hnames : List.Forall₂ m.Finds (name :: names) (t :: ts))
    (hts : (t :: ts).Pairwise m.heap.Apart)
    (h : (storeEach shortfall (name :: names) (r :: slots)).run m = .ok () m') :
    ∃ u, m.heap.update t r = .ok u ∧
      (storeEach shortfall names slots).run { m with heap := m.heap.apply t u } = .ok () m' ∧
      ({ m with heap := m.heap.apply t u } : Machine).Based c ∧
      List.Forall₂ ({ m with heap := m.heap.apply t u } : Machine).Finds names ts ∧
      ts.Pairwise (m.heap.apply t u).Apart := by
  obtain ⟨hfirst, hrest⟩ := List.forall₂_cons.mp hnames
  obtain ⟨hapart, hpairs⟩ := List.pairwise_cons.mp hts
  obtain ⟨t', u, hfinds, hu, hstores⟩ := storeEach_cons hm h
  obtain rfl := hfirst.eq hfinds
  have hlt := Finds.lt_all hm hrest
  refine ⟨u, hu, hstores, hm.apply hc hu, Finds.apply_all hu hrest hapart, hpairs.imp_of_mem fun ha hb hab => ?_⟩
  exact hab.apply hm.heap.owned hu (hlt _ ha) (hlt _ hb) (hapart _ ha) (hapart _ hb)

/-- Stores keep the values that they are no part of, and the variables that are no part of theirs. -/
theorem storeEach_keeps (hc : c.Regular) (hm : m.Based c) (hnames : List.Forall₂ m.Finds names ts)
    (hlength : ts.length = slots.length) (hts : ts.Pairwise m.heap.Apart)
    (h : (storeEach shortfall names slots).run m = .ok () m') :
    (∀ s < m.heap.size, (∀ t ∈ ts, ¬ Relation.ReflTransGen m.heap.Contains s t) →
      m'.heap.value? s = m.heap.value? s) ∧
    ∀ name s, m.Finds name s → (∀ t ∈ ts, ¬ Relation.ReflTransGen m.heap.Contains t s) → m'.Finds name s := by
  induction ts generalizing m names slots with
  | nil =>
    cases hnames
    cases h
    exact ⟨fun _ _ _ => rfl, fun _ _ hfinds _ => hfinds⟩
  | cons t ts ih =>
    obtain ⟨first, names, -, -, rfl⟩ := List.forall₂_cons_right_iff.mp hnames
    obtain ⟨r, slots, rfl⟩ := List.exists_cons_of_length_eq_add_one hlength.symm
    obtain ⟨u, hu, hstores, hm₁, hrest, hpairs⟩ := storeEach_first hc hm hnames hts h
    obtain ⟨hvalues, hvariables⟩ := ih hm₁ hrest (Nat.succ.inj hlength) hpairs hstores
    have ho := hm.heap.owned
    have hapart := (List.pairwise_cons.mp hts).1
    have hlt := (List.forall_mem_cons.mp (Finds.lt_all hm hnames)).2
    constructor
    · intro s hs hunreached
      obtain ⟨hnot, hnots⟩ := List.forall_mem_cons.mp hunreached
      rw [hvalues s (Nat.lt_of_lt_of_le hs (Heap.Edit.assign hu).grows) fun t' ht' hreach =>
        hnots t' ht' (Heap.reach_of_apply ho hu hs hnot hreach)]
      exact ho.value?_apply_of_unreached hu hs hnot
    · intro name s hs hunreached
      obtain ⟨hnot, hnots⟩ := List.forall_mem_cons.mp hunreached
      refine hvariables name s (hs.apply hu fun hcontains => hnot (.single hcontains)) fun t' ht' hreach => ?_
      exact hnots t' ht' (Heap.reach_of_apply ho hu (hlt t' ht') (hapart t' ht').2 hreach)

/-- Variables that are apart from one another get what is in the slots before the first write, if no write
reaches what is stored later. -/
theorem storeEach_apart (hc : c.Regular) (hm : m.Based c) (hnames : List.Forall₂ m.Finds names ts)
    (hlength : ts.length = slots.length) (hslots : ∀ r ∈ slots, r < m.heap.size) (hts : ts.Pairwise m.heap.Apart)
    (hlater : (ts.zip slots).Pairwise fun a b => ¬ Relation.ReflTransGen m.heap.Contains b.2 a.1)
    (h : (storeEach shortfall names slots).run m = .ok () m') :
    List.Forall₂ m'.Finds names ts ∧ List.Forall₂ (fun t r => m'.heap.value? t = m.heap.value? r) ts slots := by
  induction ts generalizing m names slots with
  | nil =>
    cases hnames
    cases List.eq_nil_of_length_eq_zero hlength.symm
    exact ⟨.nil, .nil⟩
  | cons t ts ih =>
    obtain ⟨name, names, -, -, rfl⟩ := List.forall₂_cons_right_iff.mp hnames
    obtain ⟨r, slots, rfl⟩ := List.exists_cons_of_length_eq_add_one hlength.symm
    obtain ⟨u, hu, hstores, hm₁, hrest, hpairs⟩ := storeEach_first hc hm hnames hts h
    have ho := hm.heap.owned
    have hapart := (List.pairwise_cons.mp hts).1
    have hlt := (List.forall_mem_cons.mp (Finds.lt_all hm hnames)).2
    obtain ⟨-, hslots⟩ := List.forall_mem_cons.mp hslots
    obtain ⟨hfirst, hlater⟩ := List.pairwise_cons.mp hlater
    have hlength := Nat.succ.inj hlength
    have hgrows := (Heap.Edit.assign hu).grows
    have hslot : ∀ b ∈ ts.zip slots, b.2 < m.heap.size := fun b hb => hslots _ (List.of_mem_zip hb).2
    obtain ⟨hfound, hstored⟩ := ih hm₁ hrest hlength (fun r hr => Nat.lt_of_lt_of_le (hslots r hr) hgrows) hpairs
      (hlater.imp_of_mem fun _ hb hab hreach => hab (Heap.reach_of_apply ho hu (hslot _ hb) (hfirst _ hb) hreach))
      hstores
    obtain ⟨hvalues, hvariables⟩ := storeEach_keeps hc hm₁ hrest hlength hpairs hstores
    refine ⟨.cons (hvariables name t ?_ fun t' ht' hreach => ?_) hfound, .cons ?_ ?_⟩
    · exact (List.forall₂_cons.mp hnames).1.apply hu fun hself => ho.acyclic t (.single hself)
    · exact (hapart t' ht').2 (Heap.reach_of_apply ho hu (hlt t' ht') (hapart t' ht').2 hreach)
    · rw [hvalues t (Nat.lt_of_lt_of_le (Heap.update_ok hu).1 hgrows) fun t' ht' =>
        Heap.unreached_apply hu (hlt t' ht') (hapart t' ht')]
      exact hm.value?_apply hc hu
    · refine List.forall₂_iff_zip.mpr ⟨hlength, fun {a b} hab => ?_⟩
      rw [(List.forall₂_iff_zip.mp hstored).2 hab]
      exact ho.value?_apply_of_unreached hu (hslot _ hab) (hfirst _ hab)

end Machine

end Offside
