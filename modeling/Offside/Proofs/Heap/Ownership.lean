import Mathlib.Data.List.Chain
import Mathlib.Data.List.Nodup
import Mathlib.Data.List.Perm.Subperm
import Mathlib.Logic.Relation
import Mathlib.Order.WellFounded
import Offside.Heap.Basic

/-! Fields own their values.

On an `Owned` heap no slot is the contents of two fields, and following fields comes to an end. What
keeps a heap so is that fields are only ever given slots that were made for them: a heap `Grafts` onto
another if all that is new in it are trees of new slots, hung into the old ones. -/
namespace Offside

/-- The fields of an object. Other cells have none. -/
def Cell.fields : Cell → List (String × Slot)
  | .object _ fields => fields.entries
  | _ => []

namespace Heap
variable {h h' h'' : Heap}

/-! ### Cells -/

theorem size_alloc (c : Cell) : (h.alloc c).2.size = h.size + 1 := Array.size_push ..

theorem size_write (s : Slot) (c : Cell) : (h.write s c).size = h.size := Array.size_setIfInBounds ..

theorem cell?_alloc (c : Cell) (s : Slot) :
    (h.alloc c).2.cell? s = if s = h.size then some c else h.cell? s := Array.getElem?_push ..

theorem cell?_write {s : Slot} (hs : s < h.size) (c : Cell) (t : Slot) :
    (h.write s c).cell? t = if s = t then some c else h.cell? t := by
  unfold write cell?
  rw [Array.getElem?_setIfInBounds]
  split
  · exact if_pos (‹s = t› ▸ hs)
  · rfl

theorem lt_size_of_cell? {s : Slot} {c : Cell} (hs : h.cell? s = some c) : s < h.size :=
  (Array.getElem?_eq_some_iff.mp hs).1

/-! ### Ownership -/

/-- The field of that name in the object at `s` has its contents at `t`. -/
def Holds (h : Heap) (s : Slot) (name : String) (t : Slot) : Prop :=
  ∃ c, h.cell? s = some c ∧ (name, t) ∈ c.fields

/-- One field step leads from `s` to `t`. -/
def Contains (h : Heap) (s t : Slot) : Prop := ∃ name, h.Holds s name t

/-- Fields own their values. -/
structure Owned (h : Heap) : Prop where
  inside : ∀ {s : Nat} {name : String} {t : Nat}, h.Holds s name t → t < h.size
  single : ∀ {s s' : Nat} {name name' : String} {t : Nat}, h.Holds s name t → h.Holds s' name' t →
    s = s' ∧ name = name'
  ends : WellFounded fun t s => h.Contains s t

theorem empty_owned : empty.Owned := by
  have hnone : ∀ {s name t}, ¬ empty.Holds s name t := by
    rintro s name t ⟨c, hc, -⟩
    exact absurd (lt_size_of_cell? hc) (Nat.not_lt_zero _)
  exact ⟨fun hs => absurd hs hnone, fun hs => absurd hs hnone,
    ⟨fun s => ⟨s, fun t ⟨name, hs⟩ => absurd hs hnone⟩⟩⟩

/-- No object is reachable from itself. -/
theorem Owned.acyclic (ho : h.Owned) (s : Slot) : ¬ Relation.TransGen h.Contains s s :=
  fun hs => absurd (Relation.transGen_swap.mpr hs) (ho.ends.transGen.irrefl.irrefl s)

/-- All that is new are trees of new slots, and every new slot has at most one owner. -/
structure Grafts (h h' : Heap) : Prop where
  grows : h.size ≤ h'.size
  inside : ∀ {s : Nat} {name : String} {t : Nat}, h'.Holds s name t → t < h'.size
  old : ∀ {s : Nat} {name : String} {t : Nat}, s < h.size → h'.Holds s name t → h.Holds s name t ∨ h.size ≤ t
  new : ∀ {s : Nat} {name : String} {t : Nat}, h.size ≤ s → h'.Holds s name t → h.size ≤ t ∧ t < s
  single : ∀ {s s' : Nat} {name name' : String} {t : Nat}, h.size ≤ t → h'.Holds s name t →
    h'.Holds s' name' t → s = s' ∧ name = name'

theorem Grafts.old_of_lt (hg : Grafts h h') {s : Slot} {name : String} {t : Slot} (ht : t < h.size)
    (hs : h'.Holds s name t) : h.Holds s name t := by
  by_cases hold : s < h.size
  · exact (hg.old hold hs).resolve_right (Nat.not_le_of_lt ht)
  · exact absurd (hg.new (Nat.le_of_not_lt hold) hs).1 (Nat.not_le_of_lt ht)

/-- Grafting keeps the values of fields their own. -/
theorem Owned.graft (ho : h.Owned) (hg : Grafts h h') : h'.Owned where
  inside := hg.inside
  single := by
    intro s s' name name' t hs hs'
    by_cases ht : t < h.size
    · exact ho.single (hg.old_of_lt ht hs) (hg.old_of_lt ht hs')
    · exact hg.single (Nat.le_of_not_lt ht) hs hs'
  ends := by
    -- New slots hold earlier new slots only, and old ones hold these or what they held before.
    have hnew : ∀ s, h.size ≤ s → Acc (fun t s => h'.Contains s t) s := by
      intro s
      induction s using Nat.strongRecOn with
      | ind s ih =>
        intro hs
        refine ⟨s, fun t ⟨name, ht⟩ => ?_⟩
        have hlt := hg.new hs ht
        exact ih t hlt.2 hlt.1
    refine ⟨fun s => ?_⟩
    induction s using ho.ends.induction with
    | h s ih =>
      by_cases hs : s < h.size
      · refine ⟨s, fun t ⟨name, ht⟩ => ?_⟩
        rcases hg.old hs ht with hold | hge
        · exact ih t ⟨name, hold⟩
        · exact hnew t hge
      · exact hnew s (Nat.le_of_not_lt hs)

/-! ### New slots -/

/-- More slots, in which there are trees. The roots belong to nobody yet. -/
structure Extends (h h' : Heap) (roots : List Slot) : Prop where
  grows : h.size ≤ h'.size
  keeps : ∀ {s : Nat}, s < h.size → h'.cell? s = h.cell? s
  new : ∀ {s : Nat} {name : String} {t : Nat}, h.size ≤ s → h'.Holds s name t → h.size ≤ t ∧ t < s
  single : ∀ {s s' : Nat} {name name' : String} {t : Nat}, h.size ≤ s → h.size ≤ s' → h'.Holds s name t →
    h'.Holds s' name' t → s = s' ∧ name = name'
  range : ∀ {r : Nat}, r ∈ roots → h.size ≤ r ∧ r < h'.size
  nodup : roots.Nodup
  unowned : ∀ {r : Nat}, r ∈ roots → ∀ {s : Nat} {name : String}, h.size ≤ s → ¬ h'.Holds s name r

theorem Extends.refl : Extends h h [] where
  grows := Nat.le_refl _
  keeps := fun _ => rfl
  new := fun hs ⟨_, hc, _⟩ => absurd (lt_size_of_cell? hc) (Nat.not_lt_of_le hs)
  single := fun hs _ ⟨_, hc, _⟩ => absurd (lt_size_of_cell? hc) (Nat.not_lt_of_le hs)
  range := fun hr => nomatch hr
  nodup := .nil
  unowned := fun hr => nomatch hr

theorem holds_congr {s : Slot} {name : String} {t : Slot} (hcell : h'.cell? s = h.cell? s) :
    h'.Holds s name t ↔ h.Holds s name t := by
  simp only [Holds, hcell]

theorem Extends.trans {roots roots' : List Slot} (hx : Extends h h' roots) (hy : Extends h' h'' roots') :
    Extends h h'' (roots ++ roots') := by
  -- A slot is new in the first extension or in the second, and the second holds none of the first.
  have hnew : ∀ {s : Nat} {name : String} {t : Nat}, h.size ≤ s → h''.Holds s name t →
      (s < h'.size ∧ h'.Holds s name t) ∨ (h'.size ≤ s ∧ h'.size ≤ t ∧ t < s) := by
    intro s name t hs ht
    by_cases hlt : s < h'.size
    · exact .inl ⟨hlt, (holds_congr (hy.keeps hlt)).mp ht⟩
    · exact .inr ⟨Nat.le_of_not_lt hlt, hy.new (Nat.le_of_not_lt hlt) ht⟩
  refine ⟨Nat.le_trans hx.grows hy.grows, fun hs => ?_, fun hs ht => ?_, fun hs hs' ht ht' => ?_,
    fun hr => ?_, ?_, fun hr s name hs ht => ?_⟩
  · rw [hy.keeps (Nat.lt_of_lt_of_le hs hx.grows), hx.keeps hs]
  · rcases hnew hs ht with ⟨-, ht⟩ | ⟨-, hge, hlt⟩
    · exact hx.new hs ht
    · exact ⟨Nat.le_trans hx.grows hge, hlt⟩
  · rcases hnew hs ht with ⟨hlt, hold⟩ | ⟨hge, htge, -⟩ <;>
      rcases hnew hs' ht' with ⟨hlt', hold'⟩ | ⟨hge', htge', -⟩
    · exact hx.single hs hs' hold hold'
    · have := (hx.new hs hold).2
      omega
    · have := (hx.new hs' hold').2
      omega
    · exact hy.single hge hge' ht ht'
  · have := hx.grows
    have := hy.grows
    rcases List.mem_append.mp hr with hr | hr
    · have := hx.range hr
      omega
    · have := hy.range hr
      omega
  · refine List.nodup_append.mpr ⟨hx.nodup, hy.nodup, fun r hr r' hr' => ?_⟩
    exact Nat.ne_of_lt (Nat.lt_of_lt_of_le (hx.range hr).2 (hy.range hr').1)
  · rcases List.mem_append.mp hr with hr | hr
    · have hrange := hx.range hr
      rcases hnew hs ht with ⟨-, ht⟩ | ⟨-, hge, -⟩
      · exact hx.unowned hr hs ht
      · omega
    · have hrange := hy.range hr
      rcases hnew hs ht with ⟨hlt, ht⟩ | ⟨hge, -⟩
      · have := (hx.new hs ht).2
        omega
      · exact hy.unowned hr hge ht

theorem holds_alloc {c : Cell} {s : Nat} {name : String} {t : Nat} (ht : (h.alloc c).2.Holds s name t) :
    (s = h.size ∧ (name, t) ∈ c.fields) ∨ (s < h.size ∧ h.Holds s name t) := by
  obtain ⟨c', hc', hmem⟩ := ht
  rw [cell?_alloc] at hc'
  split at hc'
  · cases hc'
    exact .inl ⟨‹_›, hmem⟩
  · exact .inr ⟨lt_size_of_cell? hc', c', hc', hmem⟩

/-- A cell in a new slot takes the roots as its fields. -/
theorem Extends.alloc {c : Cell} (hx : Extends h h' (c.fields.map (·.2))) :
    Extends h (h'.alloc c).2 [h'.size] := by
  have hroot : ∀ {name : String} {t : Nat}, (name, t) ∈ c.fields → t ∈ c.fields.map (·.2) :=
    fun hmem => List.mem_map_of_mem hmem
  have hsize := @size_alloc h' c
  have hgrows := hx.grows
  refine ⟨by omega, fun hs => ?_, fun hs ht => ?_, fun hs hs' ht ht' => ?_, fun hr => ?_,
    List.nodup_singleton _, fun hr s name hs ht => ?_⟩
  · rw [cell?_alloc, if_neg (Nat.ne_of_lt (Nat.lt_of_lt_of_le hs hgrows)), hx.keeps hs]
  · rcases holds_alloc ht with ⟨rfl, hmem⟩ | ⟨-, ht⟩
    · exact hx.range (hroot hmem)
    · exact hx.new hs ht
  · rcases holds_alloc ht with ⟨rfl, hmem⟩ | ⟨hlt, hold⟩ <;>
      rcases holds_alloc ht' with ⟨rfl, hmem'⟩ | ⟨hlt', hold'⟩
    · exact ⟨rfl, congrArg Prod.fst (List.inj_on_of_nodup_map hx.nodup hmem hmem' rfl)⟩
    · exact absurd hold' (hx.unowned (hroot hmem) hs')
    · exact absurd hold (hx.unowned (hroot hmem') hs)
    · exact hx.single hs hs' hold hold'
  · rw [List.mem_singleton.mp hr]
    omega
  · rw [List.mem_singleton.mp hr] at ht
    rcases holds_alloc ht with ⟨rfl, hmem⟩ | ⟨hlt, hold⟩
    · have := (hx.range (hroot hmem)).2
      omega
    · have := (hx.new hs hold).2
      omega

mutual

/-- A value is stored in new slots, with its own slot as their root. -/
theorem store_extends (h : Heap) (v : Value) : Extends h (h.store v).2 [(h.store v).1] := by
  cases v with
  | number value => exact Extends.alloc (c := .number value) .refl
  | text value => exact Extends.alloc (c := .text value) .refl
  | truth value => exact Extends.alloc (c := .truth value) .refl
  | character code => exact Extends.alloc (c := .character code) .refl
  | object cls fields =>
    exact Extends.alloc (c := .object cls ⟨(h.storeFields fields).1⟩) (storeFields_extends h fields)

theorem storeFields_extends (h : Heap) (fields : List (String × Value)) :
    Extends h (h.storeFields fields).2 ((h.storeFields fields).1.map (·.2)) := by
  cases fields with
  | nil => exact .refl
  | cons field rest => exact (store_extends h field.2).trans (storeFields_extends _ rest)

end

/-- A cell without fields in a new slot is a stored value. -/
theorem alloc_eq_store {c : Cell} (hc : c.fields = []) : ∃ v, ∀ h : Heap, h.alloc c = h.store v := by
  cases c with
  | number value => exact ⟨.number value, fun _ => rfl⟩
  | text value => exact ⟨.text value, fun _ => rfl⟩
  | truth value => exact ⟨.truth value, fun _ => rfl⟩
  | character code => exact ⟨.character code, fun _ => rfl⟩
  | object cls fields =>
    obtain ⟨entries⟩ := fields
    obtain rfl : entries = [] := hc
    exact ⟨.object cls [], fun _ => rfl⟩

/-! ### Hanging new slots into old ones -/

/-- What a slot held that is still old is old. -/
theorem Extends.holds_old {roots : List Slot} (ho : h.Owned) (hx : Extends h h' roots) {s : Nat}
    {name : String} {t : Nat} (ht : h'.Holds s name t) :
    (s < h.size ∧ h.Holds s name t ∧ t < h.size) ∨ (h.size ≤ s ∧ h.size ≤ t ∧ t < h'.size) := by
  by_cases hs : s < h.size
  · have hold := (holds_congr (hx.keeps hs)).mp ht
    exact .inl ⟨hs, hold, ho.inside hold⟩
  · obtain ⟨hge, hlt⟩ := hx.new (Nat.le_of_not_lt hs) ht
    obtain ⟨c, hc, -⟩ := ht
    exact .inr ⟨Nat.le_of_not_lt hs, hge, Nat.lt_trans hlt (lt_size_of_cell? hc)⟩

/-- More slots leave fields their own. -/
theorem Owned.extend {roots : List Slot} (ho : h.Owned) (hx : Extends h h' roots) : h'.Owned := by
  refine ho.graft ⟨hx.grows, fun ht => ?_, fun hs ht => ?_, hx.new, fun hge ht ht' => ?_⟩
  · have := hx.grows
    rcases hx.holds_old ho ht with ⟨-, -, hlt⟩ | ⟨-, -, hlt⟩ <;> omega
  · exact .inl ((holds_congr (hx.keeps hs)).mp ht)
  · rcases hx.holds_old ho ht with ⟨-, -, hlt⟩ | ⟨hs, -⟩
    · omega
    rcases hx.holds_old ho ht' with ⟨-, -, hlt⟩ | ⟨hs', -⟩
    · omega
    exact hx.single hs hs' ht ht'

theorem holds_write {target : Nat} {c : Cell} (htarget : target < h.size) {s : Nat} {name : String} {t : Nat}
    (ht : (h.write target c).Holds s name t) :
    (s = target ∧ (name, t) ∈ c.fields) ∨ (s ≠ target ∧ h.Holds s name t) := by
  obtain ⟨c', hc', hmem⟩ := ht
  rw [cell?_write htarget] at hc'
  split at hc'
  · cases hc'
    exact .inl ⟨‹target = s›.symm, hmem⟩
  · exact .inr ⟨Ne.symm ‹_›, c', hc', hmem⟩

/-- An old slot may be given new roots as fields, each once, besides fields that it has. -/
theorem Owned.hang {roots : List Slot} {target : Nat} {c : Cell} (ho : h.Owned) (hx : Extends h h' roots)
    (htarget : target < h.size)
    (hfields : ∀ {name : String} {t : Nat}, (name, t) ∈ c.fields → h.Holds target name t ∨ t ∈ roots)
    (hnames : ∀ {name name' : String} {t : Nat}, t ∈ roots → (name, t) ∈ c.fields → (name', t) ∈ c.fields →
      name = name') : (h'.write target c).Owned := by
  have hsize := @size_write h' target c
  have hgrows := hx.grows
  have htarget' : target < h'.size := Nat.lt_of_lt_of_le htarget hgrows
  have hroot : ∀ {name : String} {t : Nat}, h.size ≤ t → (name, t) ∈ c.fields → t ∈ roots :=
    fun hge hmem => (hfields hmem).resolve_left fun ht => Nat.not_lt_of_le hge (ho.inside ht)
  -- A new slot that is held is held by the target, or was held by a new slot.
  have hnew : ∀ {s : Nat} {name : String} {t : Nat}, h.size ≤ t → (h'.write target c).Holds s name t →
      (s = target ∧ t ∈ roots ∧ (name, t) ∈ c.fields) ∨ (h.size ≤ s ∧ h'.Holds s name t) := by
    intro s name t hge ht
    rcases holds_write htarget' ht with ⟨rfl, hmem⟩ | ⟨-, ht⟩
    · exact .inl ⟨rfl, hroot hge hmem, hmem⟩
    · rcases hx.holds_old ho ht with ⟨-, -, hlt⟩ | ⟨hs, -⟩
      · omega
      · exact .inr ⟨hs, ht⟩
  refine ho.graft ⟨by omega, fun ht => ?_, fun hs ht => ?_, fun hs ht => ?_, fun hge ht ht' => ?_⟩
  · rcases holds_write htarget' ht with ⟨rfl, hmem⟩ | ⟨-, ht⟩
    · rcases hfields hmem with ht | hr
      · have := ho.inside ht
        omega
      · have := hx.range hr
        omega
    · rcases hx.holds_old ho ht with ⟨-, -, hlt⟩ | ⟨-, -, hlt⟩ <;> omega
  · rcases holds_write htarget' ht with ⟨rfl, hmem⟩ | ⟨-, ht⟩
    · exact (hfields hmem).imp_right fun hr => (hx.range hr).1
    · exact .inl ((holds_congr (hx.keeps hs)).mp ht)
  · rcases holds_write htarget' ht with ⟨rfl, -⟩ | ⟨-, ht⟩
    · omega
    · exact hx.new hs ht
  · rcases hnew hge ht with ⟨rfl, hr, hmem⟩ | ⟨hs, hold⟩ <;>
      rcases hnew hge ht' with ⟨rfl, hr', hmem'⟩ | ⟨hs', hold'⟩
    · exact ⟨rfl, hnames hr hmem hmem'⟩
    · exact absurd hold' (hx.unowned hr hs')
    · exact absurd hold (hx.unowned hr' hs)
    · exact hx.single hs hs' hold hold'

/-! ### Edits -/

/-- What a step can do to the heap: store a value in new slots, do so for a field of an object, or
assign. -/
inductive Edit (h : Heap) : Heap → Prop
  | store (v : Value) : Edit h (h.store v).2
  | field {object cls fields} (name : String) (v : Value) :
      h.cell? object = some (.object cls fields) →
      Edit h ((h.store v).2.write object (.object cls (fields.insert name (h.store v).1)))
  | assign {target source u} : h.update target source = .ok u → Edit h (h.apply target u)

theorem mem_insert {b : Bindings} {name name' : String} {s t : Slot}
    (hmem : (name', t) ∈ (b.insert name s).entries) : (name', t) = (name, s) ∨ (name', t) ∈ b.entries := by
  obtain ⟨entries⟩ := b
  simp only [Bindings.insert] at hmem ⊢
  induction entries with
  | nil => simpa [Bindings.insert.go] using hmem
  | cons entry rest ih =>
    simp only [Bindings.insert.go] at hmem
    split at hmem
    · rcases List.mem_cons.mp hmem with heq | hmem
      · exact .inl heq
      · exact .inr (List.mem_cons_of_mem _ hmem)
    · split at hmem
      · exact (List.mem_cons.mp hmem)
      · rcases List.mem_cons.mp hmem with heq | hmem
        · exact .inr (heq ▸ List.mem_cons_self ..)
        · exact (ih hmem).imp_right (List.mem_cons_of_mem _)

/-- An assignment has a target, and replaces nothing by an object. -/
theorem update_ok {target source : Slot} {u : Update} (hu : h.update target source = .ok u) :
    target < h.size ∧ ∀ c, u = .replace c → c.fields = [] := by
  unfold update at hu
  split at hu
  case h_5 htarget _ =>
    refine ⟨lt_size_of_cell? htarget, fun c hc => ?_⟩
    subst hc
    split at hu
    · cases hu
    split at hu
    · cases hu
    split at hu <;> cases hu
  case h_6 | h_7 => cases hu
  all_goals
    cases hu
    exact ⟨lt_size_of_cell? ‹_›, fun c hc => by cases hc; rfl⟩

theorem Owned.apply {target source : Slot} {u : Update} (ho : h.Owned) (hu : h.update target source = .ok u) :
    (h.apply target u).Owned := by
  obtain ⟨htarget, hplain⟩ := update_ok hu
  cases u with
  | keep => exact ho
  | replace c =>
    have hnone : ∀ {entry}, entry ∉ c.fields := by simp [hplain c rfl]
    exact ho.hang .refl htarget (fun hmem => absurd hmem hnone) (fun _ hmem => absurd hmem hnone)
  | refill cls fields =>
    have hx := storeFields_extends h fields
    refine ho.hang hx htarget (fun hmem => .inr (List.mem_map_of_mem hmem)) (fun _ hmem hmem' => ?_)
    exact congrArg Prod.fst (List.inj_on_of_nodup_map hx.nodup hmem hmem' rfl)

/-- Whatever a step does to the heap, fields own their values. -/
theorem Owned.edit (ho : h.Owned) (he : Edit h h') : h'.Owned := by
  cases he with
  | store v => exact ho.extend (store_extends h v)
  | assign hu => exact ho.apply hu
  | @field object cls fields name v hobject =>
    have hx := store_extends h v
    have hfields : ∀ {name' : String} {t : Nat}, (name', t) ∈ (fields.insert name (h.store v).1).entries →
        (name' = name ∧ t = (h.store v).1) ∨ h.Holds object name' t :=
      fun hmem => (mem_insert hmem).imp Prod.mk.inj fun hold => ⟨_, hobject, hold⟩
    refine ho.hang hx (lt_size_of_cell? hobject) (fun hmem => ?_) (fun hr hmem hmem' => ?_)
    · exact (hfields hmem).symm.imp_right fun heq => List.mem_singleton.mpr heq.2
    · have hold : ∀ {name' : String}, ¬ h.Holds object name' _ := fun ht =>
        Nat.not_lt_of_le (hx.range hr).1 (ho.inside ht)
      rw [((hfields hmem).resolve_right hold).1, ((hfields hmem').resolve_right hold).1]

theorem Edit.grows (he : Edit h h') : h.size ≤ h'.size := by
  cases he with
  | store v => exact (store_extends h v).grows
  | field name v _ =>
    rw [size_write]
    exact (store_extends h v).grows
  | @assign target _ u _ =>
    cases u with
    | keep => exact Nat.le_refl _
    | replace c => exact Nat.le_of_eq (size_write target c).symm
    | refill cls fields =>
      refine Nat.le_trans (storeFields_extends h fields).grows (Nat.le_of_eq ?_)
      exact (size_write target _).symm

/-- Any number of edits. -/
abbrev Edits : Heap → Heap → Prop := Relation.ReflTransGen Edit

theorem Edits.grows (he : Edits h h') : h.size ≤ h'.size := by
  induction he with
  | refl => exact Nat.le_refl _
  | tail _ he ih => exact Nat.le_trans ih he.grows

theorem Owned.edits (ho : h.Owned) (he : Edits h h') : h'.Owned := by
  induction he with
  | refl => exact ho
  | tail _ he ih => exact ih.edit he

/-! ### Values -/

theorem readFields_eq_none {read : Slot → Option Value} {entries : List (String × Slot)}
    (hnone : readFields read entries = none) : ∃ name s, (name, s) ∈ entries ∧ read s = none := by
  induction entries with
  | nil => cases hnone
  | cons entry rest ih =>
    obtain ⟨name, s⟩ := entry
    simp only [readFields] at hnone
    cases hs : read s with
    | none => exact ⟨name, s, List.mem_cons_self .., hs⟩
    | some value =>
      cases hrest : readFields read rest with
      | none =>
        obtain ⟨name', s', hmem, hs'⟩ := ih hrest
        exact ⟨name', s', List.mem_cons_of_mem _ hmem, hs'⟩
      | some values => simp [hs, hrest] at hnone

/-- A slot without a value of some depth starts a chain of fields of that length. -/
theorem Owned.chain_of_deep (ho : h.Owned) {depth : Nat} {s : Slot} (hs : s < h.size)
    (hnone : h.valueWithin depth s = none) :
    ∃ path : List Slot, path.length = depth ∧ (s :: path).IsChain h.Contains := by
  induction depth generalizing s with
  | zero => exact ⟨[], rfl, List.isChain_singleton s⟩
  | succ depth ih =>
    simp only [valueWithin] at hnone
    split at hnone
    case h_1 hcell => exact absurd (Array.getElem?_eq_none_iff.mp hcell) (Nat.not_le_of_lt hs)
    case h_6 cls fields hcell =>
      obtain ⟨name, t, hmem, ht⟩ := readFields_eq_none (Option.map_eq_none_iff.mp hnone)
      have hholds : h.Holds s name t := ⟨_, hcell, hmem⟩
      obtain ⟨path, hlength, hchain⟩ := ih (ho.inside hholds) ht
      exact ⟨t :: path, by rw [List.length_cons, hlength], List.isChain_cons_cons.mpr ⟨⟨name, hholds⟩, hchain⟩⟩
    all_goals cases hnone

/-- No chain of fields is longer than the heap is large. -/
theorem Owned.length_le (ho : h.Owned) {s : Slot} {path : List Slot} (hs : s < h.size)
    (hchain : (s :: path).IsChain h.Contains) : path.length < h.size := by
  have hpairwise : (s :: path).Pairwise (Relation.TransGen h.Contains) :=
    List.isChain_iff_pairwise.mp (hchain.imp fun _ _ => .single)
  have hnodup : (s :: path).Nodup := by
    refine hpairwise.imp ?_
    rintro a _ hab rfl
    exact ho.acyclic a hab
  have hrange : s :: path ⊆ List.range h.size := by
    intro t ht
    rw [List.mem_range]
    rcases List.mem_cons.mp ht with rfl | ht
    · exact hs
    · cases (List.pairwise_cons.mp hpairwise).1 t ht with
      | single hlast | tail _ hlast =>
        obtain ⟨name, hholds⟩ := hlast
        exact ho.inside hholds
  have hlength := (List.subperm_of_subset hnodup hrange).length_le
  rwa [List.length_cons, List.length_range] at hlength

/-- Every slot has a value. -/
theorem Owned.value?_isSome (ho : h.Owned) {s : Slot} (hs : s < h.size) : (h.value? s).isSome := by
  cases hvalue : h.value? s with
  | some v => rfl
  | none =>
    obtain ⟨path, hlength, hchain⟩ := ho.chain_of_deep hs hvalue
    exact absurd (ho.length_le hs hchain) (by omega)

theorem Owned.copy_isSome (ho : h.Owned) {s : Slot} (hs : s < h.size) : (h.copy s).isSome := by
  rw [copy, Option.isSome_map]
  exact ho.value?_isSome hs

/-- The value of an object is an object. -/
theorem value?_object {s : Slot} {cls : Class} {fields : Bindings} {v : Value}
    (hs : h.cell? s = some (.object cls fields)) (hv : h.value? s = some v) :
    ∃ values, v = .object cls values := by
  obtain ⟨n, hn⟩ := Nat.exists_eq_succ_of_ne_zero (Nat.ne_zero_of_lt (lt_size_of_cell? hs))
  rw [value?, hn] at hv
  simp only [valueWithin, hs, Option.map_eq_some_iff] at hv
  obtain ⟨values, -, rfl⟩ := hv
  exact ⟨values, rfl⟩

/-- An assignment between slots goes through or is faulty, but does not get stuck. -/
theorem Owned.assign_ne_stuck (ho : h.Owned) {target source : Slot} (htarget : target < h.size)
    (hsource : source < h.size) : h.assign target source ≠ .error .stuck := by
  intro hassign
  have hstuck : h.update target source = .error .stuck := by
    unfold assign at hassign
    cases hu : h.update target source with
    | ok u => rw [hu] at hassign; cases hassign
    | error e => rw [hu] at hassign; cases hassign; rfl
  obtain ⟨into, hinto⟩ : ∃ c, h.cell? target = some c := ⟨_, Array.getElem?_eq_getElem htarget⟩
  obtain ⟨cell, hcell⟩ : ∃ c, h.cell? source = some c := ⟨_, Array.getElem?_eq_getElem hsource⟩
  obtain ⟨v, hv⟩ := Option.isSome_iff_exists.mp (ho.value?_isSome hsource)
  unfold update at hstuck
  split at hstuck
  case h_5 hobject =>
    split at hstuck
    · cases hstuck
    split at hstuck
    · cases hstuck
    split at hstuck
    · cases hstuck
    · rename_i hother
      obtain ⟨values, rfl⟩ := value?_object hobject hv
      exact hother _ _ hv
  case h_7 hnone => exact hnone _ _ hinto hcell
  all_goals cases hstuck

end Heap

end Offside
