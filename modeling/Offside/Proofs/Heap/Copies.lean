import Offside.Machine.Run
import Offside.Proofs.Heap.Contents

/-! Copies and assignments between slots.

A copy is made of new slots and has the value that it is a copy of. An assignment gives its target the
contents of its source, in new slots as well, or changes nothing at all: it fails if the two are of
different kinds, or are objects of classes with different names. Neither touches any other slot, and it is
all one whether the target is inside the source, or the source inside the target. -/
namespace Offside

/-- Contents of the one form fit a slot of the other. -/
def Form.Fits : Form → Form → Prop
  | .number, .number | .text, .text | .truth, .truth | .character, .character => True
  | .object cls, .object other => cls.name = other.name
  | _, _ => False

/-- All fields are the same, or the whole values if these are no objects. -/
def Value.SameContents : Value → Value → Prop
  | .object _ fields, .object _ others => fields = others
  | v, w => v = w

theorem Value.SameContents.refl (v : Value) : v.SameContents v := by
  cases v <;> exact rfl

namespace Heap
variable {h h' : Heap}

/-- There is a copy of `s` at `t`, and all else is as it was. -/
structure Copied (h : Heap) (s t : Slot) (h' : Heap) : Prop where
  grows : h.size ≤ h'.size
  keeps : ∀ r < h.size, h'.cell? r = h.cell? r
  fresh : ∀ r, Relation.ReflTransGen h'.Contains t r → h.size ≤ r
  form : h'.form? t = h.form? s
  value : ∃ v, h.value? s = some v ∧ h'.value? t = some v

/-- The target has what was in the source, and all else is as it was. -/
structure Assigned (h : Heap) (target source : Slot) (h' : Heap) : Prop where
  keeps : ∀ r < h.size, r ≠ target → h'.cell? r = h.cell? r
  fresh : ∀ r, Relation.TransGen h'.Contains target r → h.size ≤ r
  form : h'.form? target = h.form? target
  contents : ∃ v w, h.value? source = some v ∧ h'.value? target = some w ∧ w.SameContents v

/-! ### Copies -/

theorem Owned.copied (ho : h.Owned) {s : Nat} (hs : s < h.size) :
    ∃ t h', h.copy s = some (t, h') ∧ h'.Owned ∧ h.Copied s t h' := by
  obtain ⟨v, hv⟩ := Option.isSome_iff_exists.mp (ho.value?_isSome hs)
  have hx := store_extends h v
  have hstored := ho.value?_store v
  refine ⟨(h.store v).1, (h.store v).2, by rw [copy, hv]; rfl, ho.extend hx, hx.grows, fun r => hx.keeps,
    fun r hr => ?_, ?_, v, hv, hstored⟩
  · exact hx.reach_new (hx.range List.mem_cons_self).1 hr
  · rw [form?_of_value? hstored, form?_of_value? hv]

/-! ### Assignments -/

section
variable {target source : Nat}

/-- Contents that fit are assigned. -/
theorem Owned.update_of_fits (ho : h.Owned) {c d : Cell} (hc : h.cell? target = some c)
    (hd : h.cell? source = some d) (hfits : c.form.Fits d.form) : ∃ u, h.update target source = .ok u := by
  rw [update, hc, hd]
  cases c with
  | object cls fields =>
    cases d with
    | object other others =>
      have hname : cls.name = other.name := hfits
      obtain ⟨v, hv⟩ := Option.isSome_iff_exists.mp (ho.value?_isSome (lt_size_of_cell? hd))
      obtain ⟨values, rfl⟩ := value?_object hd hv
      by_cases hself : target = source
      · exact ⟨.keep, by simp [hname, hself]⟩
      · exact ⟨.refill cls values, by simp [hname, hself, hv]⟩
    | _ => cases hfits
  | _ =>
    cases d <;> cases hfits
    all_goals exact ⟨_, rfl⟩

/-- Contents that do not fit are not. -/
theorem update_of_not_fits {c d : Cell} (hc : h.cell? target = some c) (hd : h.cell? source = some d)
    (hfits : ¬ c.form.Fits d.form) :
    ∃ f : Fault, h.update target source = .error (.fault f) ∧ f.kind = "type mismatch" := by
  rw [update, hc, hd]
  split
  case h_5 =>
    rename_i cls _ other _ hinto hcell
    cases hinto
    cases hcell
    have hname : cls.name ≠ other.name := hfits
    rw [if_pos hname]
    exact ⟨_, rfl, rfl⟩
  case h_6 => exact ⟨_, rfl, rfl⟩
  case h_7 hnone => exact absurd rfl (hnone c d rfl)
  all_goals
    rename_i hinto hcell
    cases hinto
    cases hcell
    exact absurd trivial hfits

/-- All that the target leads to after an assignment is new, unless it was assigned to itself. -/
theorem reach_apply {u : Update} (hu : h.update target source = .ok u) (hne : target ≠ source) {r : Nat}
    (hr : Relation.TransGen (h.apply target u).Contains target r) : h.size ≤ r := by
  obtain ⟨htarget, hplain⟩ := update_ok hu
  -- What the target holds is new, and new slots hold new ones only.
  have hstep : ∀ {s t : Nat}, s = target ∨ h.size ≤ s → (h.apply target u).Contains s t → h.size ≤ t := by
    rintro s t hs ⟨name, hholds⟩
    cases u with
    | keep => exact absurd ((update_source hu).1 rfl) hne
    | replace c =>
      rcases holds_write htarget hholds with ⟨-, hmem⟩ | ⟨hother, hold⟩
      · rw [hplain c rfl] at hmem
        cases hmem
      · obtain ⟨_, hcell, -⟩ := hold
        exact absurd (lt_size_of_cell? hcell) (Nat.not_lt_of_le (hs.resolve_left hother))
    | refill cls fields =>
      have hx := storeFields_extends h fields
      rcases holds_write (Nat.lt_of_lt_of_le htarget hx.grows) hholds with ⟨-, hmem⟩ | ⟨hother, hold⟩
      · exact (hx.range (List.mem_map_of_mem hmem)).1
      · exact (hx.new (hs.resolve_left hother) hold).1
  induction hr with
  | single hfirst => exact hstep (.inl rfl) hfirst
  | tail _ hlast ih => exact hstep (.inr ih) hlast

/-- A slot assigned to itself stays as it is. -/
theorem apply_self {s : Nat} {u : Update} (hu : h.update s s = .ok u) : h.apply s u = h := by
  rcases update_cases hu with rfl | ⟨c, rfl, -, -⟩ | ⟨cls, other, fields, rfl, hform, hv, -⟩
  · rfl
  · have hcell := (update_source hu).2 c rfl
    obtain ⟨hlt, hget⟩ := Array.getElem?_eq_some_iff.mp hcell
    show (⟨h.cells.setIfInBounds s c⟩ : Heap) = h
    rw [← hget, Array.setIfInBounds_def, dif_pos hlt, Array.set_getElem_self]
  · obtain ⟨values, hcell⟩ := form?_object.mp hform
    rw [update, hcell] at hu
    simp at hu

/-- What an assignment does that goes through, unless a slot is assigned to itself. -/
theorem Owned.assigned {u : Update} (ho : h.Owned) (hu : h.update target source = .ok u)
    (hne : target ≠ source) : h.Assigned target source (h.apply target u) := by
  have hform : (h.apply target u).form? target = h.form? target := by
    obtain ⟨form, hform⟩ := lt_size_iff.mp (update_ok hu).1
    rw [apply_keeps hu target form hform, hform]
  refine ⟨fun r hr => cell?_apply hu hr, fun r => reach_apply hu hne, hform, ?_⟩
  rcases update_cases hu with rfl | ⟨c, rfl, -, hplain⟩ | ⟨cls, other, fields, rfl, -, hv, -⟩
  · exact absurd ((update_source hu).1 rfl) hne
  · have hsource := (update_source hu).2 c rfl
    obtain ⟨v, hv⟩ := Option.isSome_iff_exists.mp (ho.value?_isSome (lt_size_of_cell? hsource))
    refine ⟨v, v, hv, ?_, .refl v⟩
    rw [← hv]
    exact value?_plain ((cell?_write (update_ok hu).1 c target).trans (if_pos rfl)) hsource hplain
  · exact ⟨.object other fields, .object cls fields, hv, ho.value?_refill hu, rfl⟩

end

end Heap

namespace Exec
variable {m : Machine} {target source : Slot}

theorem copy_run_of_copy {s t : Slot} {h' : Heap} (hc : m.heap.copy s = some (t, h')) :
    (copy s).run m = .ok t { m with heap := h' } := by
  obtain ⟨v, hv, hstore⟩ := Option.map_eq_some_iff.mp hc
  show (orStuck (m.heap.value? s) >>= fun v => onHeap (·.store v)).run m = _
  rw [hv]
  show EStateM.Result.ok (m.heap.store v).1 { m with heap := (m.heap.store v).2 } = _
  rw [hstore]

theorem assign_run_of_ok {u : Heap.Update} (hu : m.heap.update target source = .ok u) :
    (assign target source).run m = .ok () { m with heap := m.heap.apply target u } := by
  show (orHalt (m.heap.update target source) >>= fun u => onHeap fun h => ((), h.apply target u)).run m = _
  rw [hu]
  rfl

theorem assign_run_of_error {reason : Halt} (hu : m.heap.update target source = .error reason) :
    (assign target source).run m = .error reason m := by
  show (orHalt (m.heap.update target source) >>= fun u => onHeap fun h => ((), h.apply target u)).run m = _
  rw [hu]
  rfl

end Exec

/-- On a heap whose fields own their values, a copy consists of new slots and has the value of what it was
made from, and an assignment goes through exactly if the contents fit. Then the target has the contents of
the source, in new slots; otherwise nothing changes. -/
theorem copies_share_nothing (m : Machine) (ho : m.heap.Owned) :
    (∀ s < m.heap.size, ∃ t h', m.heap.copy s = some (t, h') ∧
      (Exec.copy s).run m = .ok t { m with heap := h' } ∧ h'.Owned ∧ m.heap.Copied s t h' ∧
      (h'.value? t).map Value.display = (m.heap.value? s).map Value.display) ∧
    ∀ target source f g, m.heap.form? target = some f → m.heap.form? source = some g →
      (f.Fits g → ∃ h', m.heap.assign target source = .ok h' ∧
        (Exec.assign target source).run m = .ok () { m with heap := h' } ∧ h'.Owned ∧
        (target = source → h' = m.heap) ∧ (target ≠ source → m.heap.Assigned target source h')) ∧
      (¬ f.Fits g → ∃ fault : Fault, m.heap.assign target source = .error (.fault fault) ∧
        (Exec.assign target source).run m = .error (.fault fault) m ∧ fault.kind = "type mismatch") := by
  refine ⟨fun s hs => ?_, fun target source f g htarget hsource => ?_⟩
  · obtain ⟨t, h', hcopy, howned, hcopied⟩ := ho.copied hs
    obtain ⟨v, hv, hv'⟩ := hcopied.value
    exact ⟨t, h', hcopy, Exec.copy_run_of_copy hcopy, howned, hcopied, by rw [hv, hv']⟩
  · obtain ⟨c, hc, rfl⟩ := Option.map_eq_some_iff.mp htarget
    obtain ⟨d, hd, rfl⟩ := Option.map_eq_some_iff.mp hsource
    refine ⟨fun hfits => ?_, fun hfits => ?_⟩
    · obtain ⟨u, hu⟩ := ho.update_of_fits hc hd hfits
      refine ⟨m.heap.apply target u, by rw [Heap.assign, hu]; rfl, Exec.assign_run_of_ok hu, ho.apply hu, ?_,
        ho.assigned hu⟩
      rintro rfl
      exact Heap.apply_self hu
    · obtain ⟨fault, hu, hkind⟩ := Heap.update_of_not_fits hc hd hfits
      exact ⟨fault, by rw [Heap.assign, hu]; rfl, Exec.assign_run_of_error hu, hkind⟩

/-- An object with an object of the same class inside it. -/
def Value.boxed : Value :=
  .object (.bare "box") [("inner", .object (.bare "box") [("n", .truth true)])]

/-- The outer object is assigned to the inner one. -/
theorem copies_share_nothing_boxed :
    (Heap.empty.store .boxed).2.Owned ∧ ∃ h', (Heap.empty.store .boxed).2.assign 1 2 = .ok h' ∧
      (Heap.empty.store .boxed).2.Assigned 1 2 h' ∧ ∃ w, h'.value? 1 = some w ∧ w.SameContents .boxed := by
  have ho := Heap.empty_owned.extend (Heap.store_extends .empty .boxed)
  obtain ⟨h', hassign, -, -, -, hassigned⟩ :=
    ((copies_share_nothing { Machine.start .critical with heap := (Heap.empty.store .boxed).2 } ho).2 1 2
      (.object (.bare "box")) (.object (.bare "box")) rfl rfl).1 rfl
  have hassigned := hassigned (by decide)
  obtain ⟨v, w, hv, hw, hsame⟩ := hassigned.contents
  cases hv.symm.trans (Heap.empty_owned.value?_store .boxed)
  exact ⟨ho, h', hassign, hassigned, w, hw, hsame⟩

end Offside
