import Offside.Proofs.Heap.Ownership

/-! What slots are made of.

The form of a slot is its kind, and for an object its class too. No edit of a heap changes the form
of a slot. A law says which objects there may be, by their class and the forms of their fields. A heap
that obeys one gives values that obey it, and still does when such values are stored in it. -/
namespace Offside

/-- The kind of a value. An object's class is part of it. -/
inductive Form where
  | number
  | text
  | truth
  | character
  | object (cls : Class)

def Cell.form : Cell → Form
  | .number _ => .number
  | .text _ => .text
  | .truth _ => .truth
  | .character _ => .character
  | .object cls _ => .object cls

def Value.form : Value → Form
  | .number _ => .number
  | .text _ => .text
  | .truth _ => .truth
  | .character _ => .character
  | .object cls _ => .object cls

namespace Heap
variable {h h' h'' : Heap}

def form? (h : Heap) (s : Slot) : Option Form := (h.cell? s).map Cell.form

theorem form?_of_cell? {s : Slot} {c : Cell} (hs : h.cell? s = some c) : h.form? s = some c.form := by
  rw [form?, hs]
  rfl

theorem form?_object {s : Slot} {cls : Class} :
    h.form? s = some (.object cls) ↔ ∃ fields, h.cell? s = some (.object cls fields) := by
  constructor
  · intro hs
    obtain ⟨c, hc, hform⟩ := Option.map_eq_some_iff.mp hs
    cases c with
    | object cls' fields =>
      cases hform
      exact ⟨fields, hc⟩
    | _ => cases hform
  · rintro ⟨fields, hs⟩
    exact form?_of_cell? hs

theorem exists_cell? {s : Nat} (hs : s < h.size) : ∃ c, h.cell? s = some c :=
  ⟨_, Array.getElem?_eq_getElem hs⟩

theorem lt_size_iff {s : Nat} : s < h.size ↔ ∃ form, h.form? s = some form := by
  constructor
  · intro hs
    obtain ⟨c, hc⟩ := exists_cell? hs
    exact ⟨c.form, form?_of_cell? hc⟩
  · rintro ⟨form, hs⟩
    obtain ⟨c, hc, -⟩ := Option.map_eq_some_iff.mp hs
    exact lt_size_of_cell? hc

/-! ### Slots keep their forms -/

/-- Every slot of `h` is one of `h'`, of the same form. -/
def Keeps (h h' : Heap) : Prop := ∀ s form, h.form? s = some form → h'.form? s = some form

theorem Keeps.refl : h.Keeps h := fun _ _ hs => hs

theorem Keeps.trans (hk : h.Keeps h') (hk' : h'.Keeps h'') : h.Keeps h'' :=
  fun s form hs => hk' s form (hk s form hs)

theorem Keeps.lt {s : Nat} (hk : h.Keeps h') (hs : s < h.size) : s < h'.size := by
  obtain ⟨form, hform⟩ := lt_size_iff.mp hs
  exact lt_size_iff.mpr ⟨form, hk s form hform⟩

theorem Extends.keepsForms {roots : List Slot} (hx : Extends h h' roots) : h.Keeps h' := by
  intro s form hs
  have hlt : s < h.size := lt_size_iff.mpr ⟨form, hs⟩
  rw [form?, hx.keeps hlt]
  exact hs

theorem alloc_keeps (c : Cell) : h.Keeps (h.alloc c).2 := by
  intro s form hs
  have hlt : s < h.size := lt_size_iff.mpr ⟨form, hs⟩
  rw [form?, cell?_alloc, if_neg (Nat.ne_of_lt hlt)]
  exact hs

theorem form?_alloc (c : Cell) : (h.alloc c).2.form? h.size = some c.form := by
  rw [form?, cell?_alloc, if_pos rfl]
  rfl

/-- A cell may give way to one of its form. -/
theorem write_keeps {s : Nat} {c : Cell} (hs : h.form? s = some c.form) : h.Keeps (h.write s c) := by
  intro t form ht
  rw [form?, cell?_write (lt_size_iff.mpr ⟨_, hs⟩)]
  by_cases hst : s = t
  · rw [if_pos hst]
    rw [hst, ht] at hs
    exact hs.symm
  · rw [if_neg hst]
    exact ht

/-- What assignments do: nothing, if an object is assigned to itself; or they replace a cell by one of
its form, or the fields of an object by those of a value whose class has the same name. -/
theorem update_cases {target source : Slot} {u : Update} (hu : h.update target source = .ok u) :
    u = .keep ∨
      (∃ c, u = .replace c ∧ h.form? target = some c.form ∧ ∀ cls, c.form ≠ .object cls) ∨
      ∃ cls other fields, u = .refill cls fields ∧ h.form? target = some (.object cls) ∧
        h.value? source = some (.object other fields) ∧ cls.name = other.name := by
  unfold update at hu
  split at hu
  case h_5 cls _ other _ htarget hsource =>
    split at hu
    · cases hu
    · rename_i hname
      split at hu
      · cases hu
        exact .inl rfl
      · cases hv : h.value? source with
        | none =>
          rw [hv] at hu
          cases hu
        | some v =>
          obtain ⟨fields, rfl⟩ := value?_object hsource hv
          rw [hv] at hu
          cases hu
          exact .inr (.inr ⟨cls, other, fields, rfl, form?_of_cell? htarget, rfl, not_not.mp hname⟩)
  case h_6 | h_7 => cases hu
  all_goals
    rename_i htarget hsource
    cases hu
    have hform := form?_of_cell? htarget
    exact .inr (.inl ⟨_, rfl, hform, nofun⟩)

theorem apply_keeps {target source : Slot} {u : Update} (hu : h.update target source = .ok u) :
    h.Keeps (h.apply target u) := by
  rcases update_cases hu with rfl | ⟨c, rfl, hform, -⟩ | ⟨cls, other, fields, rfl, hform, -⟩
  · exact .refl
  · exact write_keeps hform
  · have hstored := (storeFields_extends h fields).keepsForms
    exact hstored.trans (write_keeps (hstored _ _ hform))

theorem Edit.keepsForms (he : Edit h h') : h.Keeps h' := by
  cases he with
  | store v => exact (store_extends h v).keepsForms
  | field name v hobject =>
    have hstored := (store_extends h v).keepsForms
    exact hstored.trans (write_keeps (hstored _ _ (form?_object.mpr ⟨_, hobject⟩)))
  | assign hu => exact apply_keeps hu

/-- Whatever is done to a heap, slots keep their forms. -/
theorem Edits.keepsForms (he : Edits h h') : h.Keeps h' := by
  induction he with
  | refl => exact .refl
  | tail _ he ih => exact ih.trans he.keepsForms

/-! ### Laws -/

/-- The fields have these names and forms, in this order. -/
def Makeup (h : Heap) : List (String × Slot) → List (String × Form) → Prop :=
  List.Forall₂ fun field part => field.1 = part.1 ∧ h.form? field.2 = some part.2

theorem Makeup.mono (hk : h.Keeps h') {fields : List (String × Slot)} {parts : List (String × Form)}
    (hm : h.Makeup fields parts) : h'.Makeup fields parts :=
  hm.imp fun _ _ hpart => ⟨hpart.1, hk _ _ hpart.2⟩

theorem Makeup.unique {fields : List (String × Slot)} {parts others : List (String × Form)}
    (hm : h.Makeup fields parts) (ho : h.Makeup fields others) : parts = others := by
  induction hm generalizing others with
  | nil =>
    cases ho
    rfl
  | @cons field part _ _ hpart _ ih =>
    cases ho with
    | @cons _ other _ _ hother hrest =>
      have hname : part.1 = other.1 := hpart.1.symm.trans hother.1
      have hform : part.2 = other.2 := Option.some.inj (hpart.2.symm.trans hother.2)
      rw [Prod.ext hname hform, ih hrest]

theorem Makeup.lt {fields : List (String × Slot)} {parts : List (String × Form)} (hm : h.Makeup fields parts)
    {name : String} {s : Nat} (hmem : (name, s) ∈ fields) : s < h.size := by
  induction hm with
  | nil => cases hmem
  | cons hfirst _ ih =>
    rcases List.mem_cons.mp hmem with rfl | hmem
    · exact lt_size_iff.mpr ⟨_, hfirst.2⟩
    · exact ih hmem

theorem exists_makeup {fields : List (String × Slot)} (hf : ∀ field ∈ fields, field.2 < h.size) :
    ∃ parts, h.Makeup fields parts := by
  induction fields with
  | nil => exact ⟨[], .nil⟩
  | cons field rest ih =>
    obtain ⟨form, hform⟩ := lt_size_iff.mp (hf field List.mem_cons_self)
    obtain ⟨parts, hparts⟩ := ih fun f hmem => hf f (List.mem_cons_of_mem _ hmem)
    exact ⟨(field.1, form) :: parts, .cons ⟨rfl, hform⟩ hparts⟩

end Heap

/-- A condition on objects of a class with fields of these names and forms. -/
abbrev Law := Class → List (String × Form) → Prop

/-- The cell may be on the heap. -/
def Cell.Obeys (law : Law) (h : Heap) : Cell → Prop
  | .object cls fields => ∃ parts, h.Makeup fields.entries parts ∧ law cls parts
  | _ => True

/-- Every object on the heap obeys the law. -/
def Heap.Lawful (law : Law) (h : Heap) : Prop := ∀ s c, h.cell? s = some c → c.Obeys law h

namespace Value

def makeup (fields : List (String × Value)) : List (String × Form) := fields.map fun f => (f.1, f.2.form)

mutual

/-- The value obeys the law, and so does every value in it. -/
def Obeys (law : Law) : Value → Prop
  | .object cls fields => law cls (makeup fields) ∧ AllObey law fields
  | _ => True

def AllObey (law : Law) : List (String × Value) → Prop
  | [] => True
  | (_, v) :: rest => v.Obeys law ∧ AllObey law rest

end

end Value

section Laws
variable {h h' : Heap} {law : Law}

theorem Cell.Obeys.mono (hk : h.Keeps h') {c : Cell} (hc : c.Obeys law h) : c.Obeys law h' := by
  cases c with
  | object cls fields =>
    obtain ⟨parts, hparts, hlaw⟩ := hc
    exact ⟨parts, hparts.mono hk, hlaw⟩
  | _ => trivial

namespace Heap

theorem empty_lawful : empty.Lawful law :=
  fun _ _ hs => absurd (lt_size_of_cell? hs) (Nat.not_lt_zero _)

theorem Lawful.alloc {c : Cell} (hl : h.Lawful law) (hc : c.Obeys law h) : (h.alloc c).2.Lawful law := by
  intro s c' hs
  rw [cell?_alloc] at hs
  split at hs
  · cases hs
    exact hc.mono (alloc_keeps c)
  · exact (hl s c' hs).mono (alloc_keeps c)

theorem Lawful.write {s : Nat} {c : Cell} (hl : h.Lawful law) (hs : h.form? s = some c.form)
    (hc : c.Obeys law h) : (h.write s c).Lawful law := by
  intro t c' ht
  rw [cell?_write (lt_size_iff.mpr ⟨_, hs⟩)] at ht
  split at ht
  · cases ht
    exact hc.mono (write_keeps hs)
  · exact (hl t c' ht).mono (write_keeps hs)

/-! ### Values of lawful heaps -/

theorem readFields_obey {read : Slot → Option Value}
    (hread : ∀ s v, read s = some v → v.Obeys law ∧ h.form? s = some v.form)
    {fields : List (String × Slot)} {values : List (String × Value)}
    (hfields : readFields read fields = some values) :
    Value.AllObey law values ∧ h.Makeup fields (Value.makeup values) := by
  induction fields generalizing values with
  | nil =>
    cases hfields
    exact ⟨trivial, .nil⟩
  | cons field rest ih =>
    obtain ⟨name, s⟩ := field
    simp only [readFields] at hfields
    cases hs : read s with
    | none =>
      rw [hs] at hfields
      cases hfields
    | some v =>
      cases hrest : readFields read rest with
      | none =>
        rw [hs, hrest] at hfields
        cases hfields
      | some vs =>
        rw [hs, hrest] at hfields
        cases hfields
        obtain ⟨hv, hform⟩ := hread s v hs
        obtain ⟨hvs, hmakeup⟩ := ih hrest
        exact ⟨⟨hv, hvs⟩, .cons ⟨rfl, hform⟩ hmakeup⟩

theorem Lawful.valueWithin (hl : h.Lawful law) {depth : Nat} {s : Slot} {v : Value}
    (hv : h.valueWithin depth s = some v) : v.Obeys law ∧ h.form? s = some v.form := by
  induction depth generalizing s v with
  | zero => cases hv
  | succ depth ih =>
    simp only [Heap.valueWithin] at hv
    split at hv
    case h_1 => cases hv
    case h_6 cls fields hcell =>
      obtain ⟨values, hvalues, rfl⟩ := Option.map_eq_some_iff.mp hv
      obtain ⟨hall, hmakeup⟩ := readFields_obey (fun _ _ => ih) hvalues
      -- What was read of the fields are the parts that the law speaks of.
      obtain ⟨parts, hparts, hlaw⟩ := hl s _ hcell
      rw [hparts.unique hmakeup] at hlaw
      exact ⟨⟨hlaw, hall⟩, form?_of_cell? hcell⟩
    all_goals
      rename_i hcell
      cases hv
      exact ⟨trivial, form?_of_cell? hcell⟩

theorem Lawful.value (hl : h.Lawful law) {s : Slot} {v : Value} (hv : h.value? s = some v) :
    v.Obeys law ∧ h.form? s = some v.form := hl.valueWithin hv

mutual

/-- Values that obey the law may be stored. -/
theorem Lawful.store (h : Heap) (v : Value) (hl : h.Lawful law) (hv : v.Obeys law) :
    (h.store v).2.Lawful law ∧ (h.store v).2.form? (h.store v).1 = some v.form := by
  cases v with
  | number value => exact ⟨hl.alloc trivial, form?_alloc _⟩
  | text value => exact ⟨hl.alloc trivial, form?_alloc _⟩
  | truth value => exact ⟨hl.alloc trivial, form?_alloc _⟩
  | character code => exact ⟨hl.alloc trivial, form?_alloc _⟩
  | object cls fields =>
    obtain ⟨hlaw, hall⟩ := hv
    obtain ⟨hlawful, hmakeup⟩ := Lawful.storeFields h fields hl hall
    exact ⟨hlawful.alloc ⟨_, hmakeup, hlaw⟩, form?_alloc _⟩

theorem Lawful.storeFields (h : Heap) (fields : List (String × Value)) (hl : h.Lawful law)
    (hv : Value.AllObey law fields) :
    (h.storeFields fields).2.Lawful law ∧
      (h.storeFields fields).2.Makeup (h.storeFields fields).1 (Value.makeup fields) := by
  cases fields with
  | nil => exact ⟨hl, .nil⟩
  | cons field rest =>
    obtain ⟨name, v⟩ := field
    obtain ⟨hfirst, hform⟩ := Lawful.store h v hl hv.1
    obtain ⟨hrest, hmakeup⟩ := Lawful.storeFields (h.store v).2 rest hfirst hv.2
    exact ⟨hrest, .cons ⟨rfl, (storeFields_extends _ rest).keepsForms _ _ hform⟩ hmakeup⟩

end

end Heap

end Laws

end Offside
