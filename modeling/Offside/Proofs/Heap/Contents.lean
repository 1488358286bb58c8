import Offside.Proofs.Heap.Forms

/-! The values in the slots of a heap, and what becomes of them.

On an owned heap every slot has a value, and an object's value is made of those of its fields. A value
that is stored comes back as it was, and an assignment makes the target's value that of the source,
while a slot from which the target cannot be reached keeps its value. -/
namespace Offside.Heap

variable {h h' : Heap}

/-! ### Reading deeper -/

theorem readFields_congr {read read' : Slot → Option Value} {entries : List (String × Slot)}
    (hread : ∀ entry ∈ entries, read entry.2 = read' entry.2) :
    readFields read entries = readFields read' entries := by
  induction entries with
  | nil => rfl
  | cons entry rest ih =>
    obtain ⟨name, s⟩ := entry
    rw [readFields, readFields, ih fun entry hentry => hread entry (List.mem_cons_of_mem _ hentry),
      hread (name, s) List.mem_cons_self]

theorem readFields_mono {read read' : Slot → Option Value} (hread : ∀ s v, read s = some v → read' s = some v)
    {entries : List (String × Slot)} {values : List (String × Value)} (h : readFields read entries = some values) :
    readFields read' entries = some values := by
  induction entries generalizing values with
  | nil => exact h
  | cons entry rest ih =>
    obtain ⟨name, s⟩ := entry
    rw [readFields] at h ⊢
    cases hs : read s with
    | none =>
      rw [hs] at h
      cases h
    | some v =>
      cases hrest : readFields read rest with
      | none =>
        rw [hs, hrest] at h
        cases h
      | some vs =>
        rw [hs, hrest] at h
        rw [hread s v hs, ih hrest]
        exact h

/-- A value is the same at every depth that it has one at. -/
theorem valueWithin_succ {depth : Nat} {s : Slot} {v : Value} (hv : h.valueWithin depth s = some v) :
    h.valueWithin (depth + 1) s = some v := by
  induction depth generalizing s v with
  | zero => cases hv
  | succ depth ih =>
    rw [valueWithin] at hv ⊢
    split at hv
    case h_6 cls fields hcell =>
      obtain ⟨values, hvalues, rfl⟩ := Option.map_eq_some_iff.mp hv
      rw [readFields_mono (fun _ _ => ih) hvalues]
      rfl
    all_goals exact hv

theorem valueWithin_mono {depth depth' : Nat} {s : Slot} {v : Value} (hv : h.valueWithin depth s = some v)
    (hle : depth ≤ depth') : h.valueWithin depth' s = some v := by
  induction hle with
  | refl => exact hv
  | step _ ih => exact valueWithin_succ ih

/-- The value of an object is made of the values of its fields. -/
theorem Owned.value?_eq (ho : h.Owned) {s : Slot} {cls : Class} {fields : Bindings}
    (hs : h.cell? s = some (.object cls fields)) :
    h.value? s = (readFields h.value? fields.entries).map (.object cls) := by
  obtain ⟨v, hv⟩ := Option.isSome_iff_exists.mp (ho.value?_isSome (lt_size_of_cell? hs))
  obtain ⟨n, hn⟩ := Nat.exists_eq_succ_of_ne_zero (Nat.ne_zero_of_lt (lt_size_of_cell? hs))
  rw [hv]
  rw [value?, hn, valueWithin, hs] at hv
  obtain ⟨values, hvalues, rfl⟩ := Option.map_eq_some_iff.mp hv
  have hdeeper : ∀ t v, h.valueWithin n t = some v → h.value? t = some v :=
    fun t v hv => valueWithin_mono hv (hn ▸ Nat.le_succ n)
  rw [readFields_mono hdeeper hvalues]
  rfl

/-- Cells without fields are values by themselves. -/
theorem value?_plain {s s' : Slot} {c : Cell} (hs : h.cell? s = some c) (hs' : h'.cell? s' = some c)
    (hplain : ∀ cls, c.form ≠ .object cls) : h.value? s = h'.value? s' := by
  obtain ⟨n, hn⟩ := Nat.exists_eq_succ_of_ne_zero (Nat.ne_zero_of_lt (lt_size_of_cell? hs))
  obtain ⟨n', hn'⟩ := Nat.exists_eq_succ_of_ne_zero (Nat.ne_zero_of_lt (lt_size_of_cell? hs'))
  rw [value?, value?, hn, hn', valueWithin, valueWithin, hs, hs']
  cases c with
  | object cls fields => exact absurd rfl (hplain cls)
  | _ => rfl

/-! ### Slots that nothing is done to -/

/-- A value depends on the cells that can be reached. -/
theorem valueWithin_congr {s : Slot} (hsame : ∀ t, Relation.ReflTransGen h.Contains s t → h'.cell? t = h.cell? t)
    (depth : Nat) : h'.valueWithin depth s = h.valueWithin depth s := by
  induction depth generalizing s with
  | zero => rfl
  | succ depth ih =>
    rw [valueWithin, valueWithin, hsame s .refl]
    split
    case h_6 cls fields hcell =>
      rw [readFields_congr fun entry hentry => ?_]
      have hcontains : h.Contains s entry.2 := ⟨entry.1, _, hcell, hentry⟩
      exact ih fun t ht => hsame t (.head hcontains ht)
    all_goals rfl

theorem Owned.value?_congr (ho : h.Owned) {s : Nat} (hs : s < h.size) (hsize : h.size ≤ h'.size)
    (hsame : ∀ t, Relation.ReflTransGen h.Contains s t → h'.cell? t = h.cell? t) : h'.value? s = h.value? s := by
  obtain ⟨v, hv⟩ := Option.isSome_iff_exists.mp (ho.value?_isSome hs)
  rw [hv]
  rw [value?, ← valueWithin_congr hsame] at hv
  exact valueWithin_mono hv hsize

theorem Owned.reach_lt (ho : h.Owned) {s t : Nat} (hs : s < h.size) (ht : Relation.ReflTransGen h.Contains s t) :
    t < h.size := by
  cases ht with
  | refl => exact hs
  | tail _ hlast =>
    obtain ⟨name, hholds⟩ := hlast
    exact ho.inside hholds

/-- New slots change no value. -/
theorem Extends.value? {roots : List Slot} (hx : Extends h h' roots) (ho : h.Owned) {s : Nat} (hs : s < h.size) :
    h'.value? s = h.value? s :=
  ho.value?_congr hs hx.grows fun _ ht => hx.keeps (ho.reach_lt hs ht)

/-! ### Storing -/

theorem Owned.value?_alloc (ho : h.Owned) (c : Cell) {s : Nat} (hs : s < h.size) :
    (h.alloc c).2.value? s = h.value? s := by
  refine ho.value?_congr hs (size_alloc c ▸ Nat.le_succ _) fun t ht => ?_
  rw [cell?_alloc, if_neg (Nat.ne_of_lt (ho.reach_lt hs ht))]

theorem value?_alloc_plain {c : Cell} (hplain : ∀ cls, c.form ≠ .object cls) :
    (h.alloc c).2.value? h.size = (empty.alloc c).2.value? 0 :=
  value?_plain (by rw [cell?_alloc, if_pos rfl]) (by rw [cell?_alloc]; exact if_pos rfl) hplain

mutual

/-- A value that is stored is there. -/
theorem Owned.value?_store {h : Heap} (ho : h.Owned) (v : Value) :
    (h.store v).2.value? (h.store v).1 = some v := by
  cases v with
  | object cls fields =>
    have hfields := ho.readFields_store fields
    have hx := storeFields_extends h fields
    have hstored := ho.extend (store_extends h (.object cls fields))
    have hnew : (h.store (.object cls fields)).2.cell? (h.storeFields fields).2.size =
        some (.object cls ⟨(h.storeFields fields).1⟩) := by
      show ((h.storeFields fields).2.alloc _).2.cell? _ = _
      rw [cell?_alloc, if_pos rfl]
    have hsame : readFields (h.store (.object cls fields)).2.value? (h.storeFields fields).1 =
        readFields (h.storeFields fields).2.value? (h.storeFields fields).1 :=
      readFields_congr fun entry hentry =>
        (ho.extend hx).value?_alloc _ (hx.range (List.mem_map_of_mem hentry)).2
    show (h.store (.object cls fields)).2.value? (h.storeFields fields).2.size = _
    rw [hstored.value?_eq hnew, hsame, hfields]
    rfl
  | number value => exact value?_alloc_plain fun _ h => by cases h
  | text value => exact value?_alloc_plain fun _ h => by cases h
  | truth value => exact value?_alloc_plain fun _ h => by cases h
  | character code => exact value?_alloc_plain fun _ h => by cases h

theorem Owned.readFields_store {h : Heap} (ho : h.Owned) (fields : List (String × Value)) :
    readFields (h.storeFields fields).2.value? (h.storeFields fields).1 = some fields := by
  cases fields with
  | nil => rfl
  | cons field rest =>
    obtain ⟨name, v⟩ := field
    have hx := store_extends h v
    have hfirst := ho.value?_store v
    have hrest := (ho.extend hx).readFields_store rest
    have hkept := (storeFields_extends (h.store v).2 rest).value? (ho.extend hx)
      (hx.range List.mem_cons_self).2
    show readFields ((h.store v).2.storeFields rest).2.value?
      ((name, (h.store v).1) :: ((h.store v).2.storeFields rest).1) = _
    rw [readFields, hkept, hfirst, hrest]

end

/-! ### Assignment -/

/-- A value is of the form that its slot has. -/
theorem form?_of_value? {s : Slot} {v : Value} (hv : h.value? s = some v) : h.form? s = some v.form := by
  rw [value?] at hv
  cases hsize : h.size with
  | zero =>
    rw [hsize] at hv
    cases hv
  | succ n =>
    rw [hsize, valueWithin] at hv
    split at hv
    case h_1 => cases hv
    case h_6 hcell =>
      obtain ⟨values, -, rfl⟩ := Option.map_eq_some_iff.mp hv
      exact form?_of_cell? hcell
    all_goals
      rename_i hcell
      cases hv
      exact form?_of_cell? hcell

section Assignment
variable {target source : Nat} {u : Update}

theorem update_source (hu : h.update target source = .ok u) :
    (u = .keep → target = source) ∧ ∀ c, u = .replace c → h.cell? source = some c := by
  unfold update at hu
  split at hu
  case h_5 =>
    split at hu
    · cases hu
    split at hu
    · cases hu
      exact ⟨fun _ => ‹target = source›, fun _ h => by cases h⟩
    split at hu
    · cases hu
      exact ⟨fun h => (by cases h), fun _ h => by cases h⟩
    · cases hu
  case h_6 | h_7 => cases hu
  all_goals
    rename_i hsource
    cases hu
    exact ⟨fun h => (by cases h), fun c hc => by cases hc; exact hsource⟩

/-- An assignment changes no other slot. -/
theorem cell?_apply (hu : h.update target source = .ok u) {s : Nat} (hs : s < h.size) (hne : s ≠ target) :
    (h.apply target u).cell? s = h.cell? s := by
  have htarget := (update_ok hu).1
  cases u with
  | keep => rfl
  | replace c => exact (cell?_write htarget c s).trans (if_neg hne.symm)
  | refill cls fields =>
    have hx := storeFields_extends h fields
    rw [← hx.keeps hs]
    exact (cell?_write (Nat.lt_of_lt_of_le htarget hx.grows) _ s).trans (if_neg hne.symm)

/-- A slot from which the target cannot be reached keeps its value. -/
theorem Owned.value?_apply_of_unreached (ho : h.Owned) (hu : h.update target source = .ok u) {s : Nat}
    (hs : s < h.size) (hunreached : ¬ Relation.ReflTransGen h.Contains s target) :
    (h.apply target u).value? s = h.value? s := by
  refine ho.value?_congr hs (Edit.assign hu).grows fun t ht => ?_
  exact cell?_apply hu (ho.reach_lt hs ht) fun heq => hunreached (heq ▸ ht)

/-- New slots lead to new slots only. -/
theorem Extends.reach_new {roots : List Slot} (hx : Extends h h' roots) {s t : Nat} (hs : h.size ≤ s)
    (ht : Relation.ReflTransGen h'.Contains s t) : h.size ≤ t := by
  induction ht with
  | refl => exact hs
  | tail _ hlast ih =>
    obtain ⟨name, hholds⟩ := hlast
    exact (hx.new ih hholds).1

/-- An object that is given copies of fields has these fields afterwards, and no others. -/
theorem Owned.value?_refill {cls : Class} {fields : List (String × Value)} (ho : h.Owned)
    (hu : h.update target source = .ok (.refill cls fields)) :
    (h.apply target (.refill cls fields)).value? target = some (.object cls fields) := by
  have htarget := (update_ok hu).1
  have hx := storeFields_extends h fields
  have htarget' := Nat.lt_of_lt_of_le htarget hx.grows
  have hstored := ho.extend hx
  have hcell : (h.apply target (.refill cls fields)).cell? target =
      some (.object cls ⟨(h.storeFields fields).1⟩) :=
    (cell?_write htarget' _ target).trans (if_pos rfl)
  -- The fields are new, and so is all that they lead to.
  have hfields : readFields (h.apply target (.refill cls fields)).value? (h.storeFields fields).1 =
      readFields (h.storeFields fields).2.value? (h.storeFields fields).1 := by
    refine readFields_congr fun entry hentry => ?_
    obtain ⟨hnew, hlt⟩ := hx.range (List.mem_map_of_mem hentry)
    refine hstored.value?_congr hlt (Nat.le_of_eq (size_write ..).symm) fun t ht => ?_
    have hne : target ≠ t := Nat.ne_of_lt (Nat.lt_of_lt_of_le htarget (hx.reach_new hnew ht))
    exact (cell?_write htarget' _ t).trans (if_neg hne)
  rw [(ho.apply hu).value?_eq hcell, hfields, ho.readFields_store]
  rfl

/-- The target has the value of the source afterwards, if classes of one name are one class. -/
theorem Owned.value?_apply (ho : h.Owned) (hu : h.update target source = .ok u)
    (hcls : ∀ cls other, h.form? target = some (.object cls) → h.form? source = some (.object other) →
      cls.name = other.name → cls = other) :
    (h.apply target u).value? target = h.value? source := by
  have htarget := (update_ok hu).1
  obtain ⟨hkeep, hreplace⟩ := update_source hu
  rcases update_cases hu with rfl | ⟨c, rfl, hform, hplain⟩ | ⟨cls, other, fields, rfl, hform, hv, hname⟩
  · rw [hkeep rfl]
    rfl
  · refine value?_plain ?_ (hreplace c rfl) hplain
    exact (cell?_write htarget c target).trans (if_pos rfl)
  · obtain rfl := hcls cls other hform (form?_of_value? hv) hname
    rw [ho.value?_refill hu, hv]

end Assignment

/-! ### Owners in the course of time -/

/-- A slot that there was before gets no new owner. -/
theorem Edit.holds_old (he : Edit h h') (ho : h.Owned) {s : Nat} {name : String} {t : Nat} (ht : t < h.size)
    (hs : h'.Holds s name t) : h.Holds s name t := by
  have hextended : ∀ {h'' : Heap} {roots : List Slot}, Extends h h'' roots → h''.Holds s name t →
      h.Holds s name t := by
    intro h'' roots hx hs
    rcases hx.holds_old ho hs with ⟨-, hold, -⟩ | ⟨-, hge, -⟩
    · exact hold
    · omega
  cases he with
  | store v => exact hextended (store_extends h v) hs
  | @field object cls fields field v hobject =>
    have hx := store_extends h v
    rcases holds_write (Nat.lt_of_lt_of_le (lt_size_of_cell? hobject) hx.grows) hs with ⟨rfl, hmem⟩ | ⟨-, hs⟩
    · rcases mem_insert hmem with heq | hold
      · have hnew := (hx.range List.mem_cons_self).1
        cases heq
        omega
      · exact ⟨_, hobject, hold⟩
    · exact hextended hx hs
  | @assign target source u hu =>
    obtain ⟨htarget, hplain⟩ := update_ok hu
    cases u with
    | keep => exact hs
    | replace c =>
      rcases holds_write htarget hs with ⟨rfl, hmem⟩ | ⟨-, hs⟩
      · rw [hplain c rfl] at hmem
        cases hmem
      · exact hs
    | refill cls fields =>
      have hx := storeFields_extends h fields
      rcases holds_write (Nat.lt_of_lt_of_le htarget hx.grows) hs with ⟨rfl, hmem⟩ | ⟨-, hs⟩
      · have hnew := (hx.range (List.mem_map_of_mem hmem)).1
        omega
      · exact hextended hx hs

theorem Edits.holds_old (he : Edits h h') (ho : h.Owned) {s : Nat} {name : String} {t : Nat} (ht : t < h.size)
    (hs : h'.Holds s name t) : h.Holds s name t := by
  induction he with
  | refl => exact hs
  | @tail mid _ hfirst hlast ih =>
    exact ih (hlast.holds_old (ho.edits hfirst) (Nat.lt_of_lt_of_le ht (Edits.grows hfirst)) hs)

end Offside.Heap
