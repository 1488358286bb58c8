import Offside.Proofs.Heap.Forms
import Offside.Proofs.Program.Catalog

/-! What a run may do to its heap, by what it means.

A run makes a variable, copies a value, assigns, makes an object with all of its fields, or, in a loop
over an iterator, gives a field another slot. A law of objects that empty and newly made objects obey
outlives all of that but the last. -/
namespace Offside

/-- What a variable may start with: a cell without fields, and if it is an object, of a class of the
catalog. -/
structure Catalog.Blank (c : Catalog) (cell : Cell) : Prop where
  fields : cell.fields = []
  cls : ∀ cls, cell.form = .object cls → cls ∈ c.classes

namespace Heap

/-- The object gets a field for each declaration, in order. -/
inductive Fills (c : Catalog) (object : Slot) : List Decl → Heap → Heap → Prop
  | none {h : Heap} : Fills c object [] h h
  | more {h h' : Heap} {d : Decl} {rest : List Decl} {cell : Cell} {cls : Class} {fields : Bindings} :
      c.initial d.type = .ok cell → h.cell? object = some (.object cls fields) →
      Fills c object rest ((h.alloc cell).2.write object (.object cls (fields.insert d.name h.size))) h' →
      Fills c object (d :: rest) h h'

/-- What a run may do to its heap. Fields get other slots only if it is `free` to give them. -/
inductive Change (c : Catalog) (free : Prop) (h : Heap) : Heap → Prop
  | alloc {cell : Cell} : c.Blank cell → Change c free h (h.alloc cell).2
  | copy {s : Slot} {v : Value} : h.value? s = some v → Change c free h (h.store v).2
  | assign {target source : Slot} {u : Update} : h.update target source = .ok u →
      Change c free h (h.apply target u)
  | create {cls : Class} {h' : Heap} : cls ∈ c.classes →
      Fills c h.size cls.fields (h.alloc (.object cls .empty)).2 h' → Change c free h h'
  | rebind {object s : Slot} {cls : Class} {fields : Bindings} {v : Value} (name : String) : free →
      h.cell? object = some (.object cls fields) → h.value? s = some v →
      Change c free h ((h.store v).2.write object (.object cls (fields.insert name (h.store v).1)))

abbrev Changes (c : Catalog) (free : Prop) : Heap → Heap → Prop := Relation.ReflTransGen (Change c free)

section
variable {c : Catalog} {free : Prop} {h h' : Heap}

theorem initial_blank {type : String} {cell : Cell} (hi : c.initial type = .ok cell) : c.Blank cell := by
  unfold Catalog.initial at hi
  split at hi
  case h_5 =>
    split at hi
    · rename_i cls hcls
      cases hi
      refine ⟨rfl, fun cls' hform => ?_⟩
      cases hform
      exact (Catalog.class?_eq_some hcls).1
    · cases hi
  all_goals
    cases hi
    exact ⟨rfl, nofun⟩

/-! ### Changes are edits -/

theorem Fills.edits {object : Slot} {decls : List Decl} (hf : Fills c object decls h h') : Edits h h' := by
  induction hf with
  | none => exact .refl
  | @more h _ d _ _ _ _ hi hobject _ ih =>
    obtain ⟨v, hv⟩ := alloc_eq_store (initial_blank hi).fields
    have hfield := Edit.field d.name v hobject
    rw [← hv] at hfield
    exact .head hfield ih

theorem Change.edits (hc : Change c free h h') : Edits h h' := by
  cases hc with
  | alloc hblank =>
    obtain ⟨v, hv⟩ := alloc_eq_store hblank.fields
    rw [hv]
    exact .single (.store v)
  | copy hv => exact .single (.store _)
  | assign hu => exact .single (.assign hu)
  | @create cls _ _ hfills => exact .head (.store (.object cls [])) hfills.edits
  | rebind name _ hobject hv => exact .single (.field name _ hobject)

theorem Change.imp {free' : Prop} (hfree : free → free') (hc : Change c free h h') : Change c free' h h' := by
  cases hc with
  | alloc hblank => exact .alloc hblank
  | copy hv => exact .copy hv
  | assign hu => exact .assign hu
  | create hcls hfills => exact .create hcls hfills
  | rebind name hf hobject hv => exact .rebind name (hfree hf) hobject hv

theorem Changes.imp {free' : Prop} (hfree : free → free') (hc : Changes c free h h') : Changes c free' h h' :=
  hc.lift id fun _ _ => Change.imp hfree

theorem Changes.edits (hc : Changes c free h h') : Edits h h' := by
  induction hc with
  | refl => exact .refl
  | tail _ hlast ih => exact ih.trans hlast.edits

theorem Changes.keepsForms (hc : Changes c free h h') : h.Keeps h' := hc.edits.keepsForms

end

end Heap

/-! ### The shape of an object -/

/-- Values of the named type have the form. -/
inductive Catalog.Gives (c : Catalog) : String → Form → Prop
  | number : Gives c "number" .number
  | text : Gives c "string" .text
  | truth : Gives c "boolean" .truth
  | character : Gives c "character" .character
  | object {type : String} {cls : Class} : type ∉ ["number", "string", "boolean", "character"] →
      c.class? type = some cls → Gives c type (.object cls)

/-- The type that a name is declared with last. -/
def lastType? (decls : List Decl) (name : String) : Option String :=
  (decls.reverse.find? (·.name = name)).map Decl.type

/-- The parts are fields for these declarations, ascending by name: one field for every name that is
declared, with a value of the type that it is declared with last. -/
structure Catalog.Conforms (c : Catalog) (decls : List Decl) (parts : List (String × Form)) : Prop where
  ascending : parts.Pairwise (·.1 < ·.1)
  names : ∀ name, name ∈ parts.map Prod.fst ↔ name ∈ decls.map Decl.name
  types : ∀ name form, (name, form) ∈ parts → ∃ type, lastType? decls name = some type ∧ c.Gives type form

namespace Heap
variable {c : Catalog} {h h' : Heap}

theorem initial_gives {type : String} {cell : Cell} (hi : c.initial type = .ok cell) :
    c.Gives type cell.form := by
  unfold Catalog.initial at hi
  split at hi
  case h_5 hnumber hstring hboolean hcharacter =>
    split at hi
    · rename_i cls hcls
      cases hi
      exact .object (by simp; exact ⟨hnumber, hstring, hboolean, hcharacter⟩) hcls
    · cases hi
  all_goals
    cases hi
    constructor

theorem lastType?_concat (decls : List Decl) (d : Decl) (name : String) :
    lastType? (decls ++ [d]) name = if d.name = name then some d.type else lastType? decls name := by
  rw [lastType?, List.reverse_append, List.reverse_singleton, List.singleton_append, List.find?_cons]
  by_cases hname : d.name = name
  · simp [hname]
  · simp [hname, lastType?]

/-- A field that is put in takes the place of the one of its name. -/
theorem Makeup.insert (name : String) {entries : List (String × Slot)} {parts : List (String × Form)}
    {t : Slot} {form : Form} (hm : h.Makeup entries parts) (hsorted : parts.Pairwise (·.1 < ·.1))
    (ht : h.form? t = some form) :
    ∃ parts', h.Makeup (Bindings.insert.go name t entries) parts' ∧ parts'.Pairwise (·.1 < ·.1) ∧
      ∀ part, part ∈ parts' ↔ part = (name, form) ∨ (part.1 ≠ name ∧ part ∈ parts) := by
  induction hm with
  | nil => exact ⟨[(name, form)], .cons ⟨rfl, ht⟩ .nil, List.pairwise_singleton _ _, by simp⟩
  | @cons entry first rest parts hfirst hrest ih =>
    obtain ⟨other, old⟩ := entry
    obtain ⟨other', f⟩ := first
    obtain rfl : other = other' := hfirst.1
    obtain ⟨hbelow, hsorted⟩ := List.pairwise_cons.mp hsorted
    have habove : ∀ part ∈ parts, other < part.1 := fun part hpart => hbelow part hpart
    unfold Bindings.insert.go
    by_cases hsame : other = name
    · rw [if_pos hsame]
      subst hsame
      refine ⟨(other, form) :: parts, .cons ⟨rfl, ht⟩ hrest, List.pairwise_cons.mpr ⟨habove, hsorted⟩, ?_⟩
      intro part
      have hne : part ∈ parts → part.1 ≠ other := by
        intro hpart heq
        exact String.lt_irrefl _ (heq ▸ habove part hpart)
      grind
    · rw [if_neg hsame]
      by_cases hless : name < other
      · rw [if_pos hless]
        refine ⟨(name, form) :: (other, f) :: parts, .cons ⟨rfl, ht⟩ (.cons hfirst hrest), ?_, ?_⟩
        · refine List.pairwise_cons.mpr ⟨fun part hpart => ?_, List.pairwise_cons.mpr ⟨habove, hsorted⟩⟩
          rcases List.mem_cons.mp hpart with rfl | hpart
          · exact hless
          · exact String.lt_trans hless (habove part hpart)
        · intro part
          have hne : part ∈ parts → part.1 ≠ name := by
            intro hpart heq
            exact String.lt_asymm hless (heq ▸ habove part hpart)
          grind
      · rw [if_neg hless]
        have hafter : other < name := by grind
        obtain ⟨parts', hmakeup, hsorted', hmem⟩ := ih hsorted
        refine ⟨(other, f) :: parts', .cons hfirst hmakeup, ?_, ?_⟩
        · refine List.pairwise_cons.mpr ⟨fun part hpart => ?_, hsorted'⟩
          rcases (hmem part).mp hpart with rfl | ⟨-, hold⟩
          · exact hafter
          · exact habove part hold
        · intro part
          have := hmem part
          grind

theorem conforms_insert {decls : List Decl} {parts parts' : List (String × Form)} {d : Decl} {cell : Cell}
    (hc : c.Conforms decls parts) (hi : c.initial d.type = .ok cell)
    (hsorted : parts'.Pairwise (·.1 < ·.1))
    (hparts : ∀ part, part ∈ parts' ↔ part = (d.name, cell.form) ∨ (part.1 ≠ d.name ∧ part ∈ parts)) :
    c.Conforms (decls ++ [d]) parts' := by
  refine ⟨hsorted, fun name => ?_, fun name form hpart => ?_⟩
  · have hold := hc.names name
    simp only [List.mem_map, List.map_append, List.map_cons, List.map_nil, List.mem_append,
      List.mem_singleton] at hold ⊢
    rw [← hold]
    constructor
    · rintro ⟨part, hpart, rfl⟩
      rcases (hparts part).mp hpart with rfl | ⟨-, hmem⟩
      · exact .inr rfl
      · exact .inl ⟨part, hmem, rfl⟩
    · by_cases hname : name = d.name
      · intro _
        exact ⟨(d.name, cell.form), (hparts _).mpr (.inl rfl), hname.symm⟩
      · rintro (⟨part, hpart, rfl⟩ | heq)
        · exact ⟨part, (hparts part).mpr (.inr ⟨hname, hpart⟩), rfl⟩
        · exact absurd heq hname
  · rw [lastType?_concat]
    rcases (hparts _).mp hpart with heq | ⟨hne, hmem⟩
    · cases heq
      exact ⟨d.type, if_pos rfl, initial_gives hi⟩
    · rw [if_neg (Ne.symm hne)]
      exact hc.types name form hmem

end Heap

/-! ### Laws that changes keep -/

/-- A law that empty and newly made objects of the catalog obey. If fields may get other slots, it
says nothing of fields. -/
structure Catalog.Upholds (c : Catalog) (free : Prop) (law : Law) : Prop where
  known : ∀ {cls parts}, law cls parts → cls ∈ c.classes
  empty : ∀ {cls}, cls ∈ c.classes → law cls []
  made : ∀ {cls parts}, cls ∈ c.classes → c.Conforms cls.fields parts → law cls parts
  free : free → ∀ {cls parts}, cls ∈ c.classes → law cls parts

namespace Heap
variable {c : Catalog} {free : Prop} {law : Law} {h h' : Heap}

theorem Blank.obeys {cell : Cell} (hup : c.Upholds free law) (hb : c.Blank cell) : cell.Obeys law h := by
  cases cell with
  | object cls fields =>
    refine ⟨[], ?_, hup.empty (hb.cls cls rfl)⟩
    rw [show fields.entries = [] from hb.fields]
    exact .nil
  | _ => trivial

/-- An object that gets its fields one by one obeys the law at the end, and all others do at any
time. -/
theorem Fills.lawful {object : Slot} {rest : List Decl} (hup : c.Upholds free law)
    (hf : Fills c object rest h h') {decls : List Decl} {cls : Class} {fields : Bindings}
    {parts : List (String × Form)} (hobject : h.cell? object = some (.object cls fields))
    (hothers : ∀ s cell, s ≠ object → h.cell? s = some cell → cell.Obeys law h)
    (hparts : h.Makeup fields.entries parts) (hconforms : c.Conforms decls parts) :
    (∀ s cell, s ≠ object → h'.cell? s = some cell → cell.Obeys law h') ∧
      ∃ fields' parts', h'.cell? object = some (.object cls fields') ∧
        h'.Makeup fields'.entries parts' ∧ c.Conforms (decls ++ rest) parts' := by
  induction hf generalizing decls fields parts with
  | none =>
    rw [List.append_nil]
    exact ⟨hothers, fields, parts, hobject, hparts, hconforms⟩
  | @more h _ d rest cell _ fields hi hcell _ ih =>
    cases hcell.symm.trans hobject
    -- The heap with the new field, and without it.
    have halloc := alloc_keeps (h := h) cell
    have hform : (h.alloc cell).2.form? object = some (.object cls) := halloc _ _ (form?_of_cell? hobject)
    have hlt : object < (h.alloc cell).2.size := lt_size_iff.mpr ⟨_, hform⟩
    have hkeeps := halloc.trans (write_keeps (c := .object cls (fields.insert d.name h.size)) hform)
    obtain ⟨parts', hmakeup, hsorted, hmem⟩ := (hparts.mono halloc).insert d.name
      hconforms.ascending (form?_alloc cell)
    have hnext := conforms_insert hconforms hi hsorted hmem
    rw [List.append_cons]
    apply ih
    · rw [cell?_write hlt, if_pos rfl]
    · intro s cell' hs hcell'
      rw [cell?_write hlt, if_neg (Ne.symm hs), cell?_alloc] at hcell'
      split at hcell'
      · cases hcell'
        exact (Blank.obeys hup (initial_blank hi)).mono hkeeps
      · exact (hothers s cell' hs hcell').mono hkeeps
    · exact hmakeup.mono (write_keeps hform)
    · exact hnext

/-- An object that is made obeys the law. -/
theorem Lawful.create {cls : Class} (hup : c.Upholds free law) (hl : h.Lawful law) (hcls : cls ∈ c.classes)
    (hf : Fills c h.size cls.fields (h.alloc (.object cls .empty)).2 h') : h'.Lawful law := by
  have hnew : (h.alloc (.object cls .empty)).2.cell? h.size = some (.object cls .empty) := by
    rw [cell?_alloc, if_pos rfl]
  have hempty : c.Conforms [] [] := ⟨.nil, fun _ => Iff.rfl, nofun⟩
  obtain ⟨hothers, fields, parts, hobject, hparts, hconforms⟩ := hf.lawful hup hnew
    (fun s cell hs hcell => by
      rw [cell?_alloc, if_neg hs] at hcell
      exact (hl s cell hcell).mono (alloc_keeps _))
    .nil hempty
  intro s cell hcell
  by_cases hs : s = h.size
  · subst hs
    cases hobject.symm.trans hcell
    exact ⟨parts, hparts, hup.made hcls hconforms⟩
  · exact hothers s cell hs hcell

/-- Assignment keeps laws of objects: the source obeys them, and is of the target's class. -/
theorem Lawful.assign {target source : Slot} {u : Update} (hc : c.Regular) (hup : c.Upholds free law)
    (hl : h.Lawful law) (hu : h.update target source = .ok u) : (h.apply target u).Lawful law := by
  rcases update_cases hu with rfl | ⟨cell, rfl, hform, hplain⟩ | ⟨cls, other, fields, rfl, hform, hv, hname⟩
  · exact hl
  · refine hl.write hform ?_
    cases cell with
    | object cls fields => exact absurd rfl (hplain cls)
    | _ => trivial
  · obtain ⟨⟨hlaw, hall⟩, -⟩ := hl.value hv
    obtain ⟨hstored, hmakeup⟩ := Lawful.storeFields h fields hl hall
    obtain ⟨old, hold⟩ := form?_object.mp hform
    obtain ⟨_, -, hlawTarget⟩ := hl target _ hold
    obtain rfl := hc.eq_of_name (hup.known hlawTarget) (hup.known hlaw) hname
    refine hstored.write ?_ ⟨_, hmakeup, hlaw⟩
    exact (storeFields_extends h fields).keepsForms _ _ hform

/-- A field of an object may get another slot. -/
theorem Lawful.rebind {object s : Slot} {cls : Class} {fields : Bindings} {v : Value} {name : String}
    (hup : c.Upholds free law) (hfree : free) (hl : h.Lawful law)
    (hobject : h.cell? object = some (.object cls fields)) (hv : h.value? s = some v) :
    ((h.store v).2.write object (.object cls (fields.insert name (h.store v).1))).Lawful law := by
  obtain ⟨hobeys, -⟩ := hl.value hv
  obtain ⟨hstored, hform⟩ := Lawful.store h v hl hobeys
  have hkeeps := (store_extends h v).keepsForms
  obtain ⟨parts, hparts, hlaw⟩ := hl object _ hobject
  obtain ⟨parts', hparts'⟩ : ∃ parts', (h.store v).2.Makeup (fields.insert name (h.store v).1).entries parts' := by
    apply exists_makeup
    rintro ⟨name', t⟩ hmem
    rcases mem_insert hmem with heq | hold
    · cases heq
      exact lt_size_iff.mpr ⟨_, hform⟩
    · exact hkeeps.lt (hparts.lt hold)
  refine hstored.write (hkeeps _ _ (form?_object.mpr ⟨_, hobject⟩)) ⟨parts', hparts', ?_⟩
  exact hup.free hfree (hup.known hlaw)

/-- Changes keep laws of objects. -/
theorem Lawful.change (hc : c.Regular) (hup : c.Upholds free law) (hl : h.Lawful law)
    (hch : Change c free h h') : h'.Lawful law := by
  cases hch with
  | alloc hblank => exact hl.alloc (Blank.obeys hup hblank)
  | copy hv => exact (Lawful.store h _ hl (hl.value hv).1).1
  | assign hu => exact hl.assign hc hup hu
  | create hcls hfills => exact hl.create hup hcls hfills
  | rebind name hfree hobject hv => exact hl.rebind hup hfree hobject hv

theorem Lawful.changes (hc : c.Regular) (hup : c.Upholds free law) (hl : h.Lawful law)
    (hch : Changes c free h h') : h'.Lawful law := by
  induction hch with
  | refl => exact hl
  | tail _ hlast ih => exact ih.change hc hup hlast

end Heap

end Offside
