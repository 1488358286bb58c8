import Offside.Files.Path

/-! Paths and where they lead.

Following a path part by part leaves parts in a shortest form, which leads where the path leads from
whatever directory both start at. So shortening a path does not change where it leads, and a file in a
directory is where the directory is, with the file's name after that. -/
namespace Offside.Path

/-- What a file or a directory can be called. -/
structure IsName (name : String) : Prop where
  ne_empty : name ≠ ""
  ne_here : name ≠ "."
  ne_up : name ≠ ".."
  slash : '/' ∉ name.toList

/-- Parts in their shortest form, last first: names, after steps up where there is nothing to go back
from. -/
inductive Short (rooted : Bool) : List String → Prop
  | nil : Short rooted []
  | name {back part} : IsName part → Short rooted back → Short rooted (part :: back)
  | up {back} : rooted = false → (∀ part ∈ back.head?, part = "..") → Short rooted back → Short rooted (".." :: back)

/-! ### Cutting at slashes -/

section Split
variable {part cs : List Char}

theorem split_of_notMem (h : '/' ∉ cs) : split part cs = [String.ofList (part.reverse ++ cs)] := by
  induction cs generalizing part with
  | nil => simp [split]
  | cons c cs ih =>
    have hc : c ≠ '/' := fun heq => h (heq ▸ List.mem_cons_self ..)
    have hrest := @ih (c :: part) fun hmem => h (List.mem_cons_of_mem _ hmem)
    simp [split, hrest]

theorem split_slash (part xs ys : List Char) : split part (xs ++ '/' :: ys) = split part xs ++ split [] ys := by
  induction xs generalizing part with
  | nil => rfl
  | cons c xs ih => by_cases hc : c = '/' <;> simp [split, hc, ih]

theorem slash_notMem_split (hpart : '/' ∉ part) : ∀ p ∈ split part cs, '/' ∉ p.toList := by
  induction cs generalizing part with
  | nil => simpa [split] using hpart
  | cons c cs ih =>
    by_cases hc : c = '/'
    · subst hc
      simp only [split, List.mem_cons, forall_eq_or_imp, String.toList_ofList, List.mem_reverse]
      exact ⟨hpart, ih (List.not_mem_nil)⟩
    · simp only [split]
      exact ih (by simp [hpart, Ne.symm hc])

/-- Parts with slashes between them are cut into these parts again. -/
theorem split_intercalate {ps : List String} (hne : ps ≠ []) (h : ∀ p ∈ ps, '/' ∉ p.toList) :
    split [] ("/".intercalate ps).toList = ps := by
  induction ps with
  | nil => exact absurd rfl hne
  | cons p ps ih =>
    have hp := h p (List.mem_cons_self ..)
    cases ps with
    | nil => simp [split_of_notMem hp]
    | cons q qs =>
      have hrest := ih (List.cons_ne_nil _ _) fun r hr => h r (List.mem_cons_of_mem _ hr)
      rw [String.intercalate_cons_cons, String.toList_append, String.toList_append,
        show "/".toList = ['/'] from rfl, List.append_assoc, List.singleton_append, split_slash, hrest,
        split_of_notMem hp]
      simp

end Split

/-! ### Following parts -/

section Follow
variable {rooted : Bool} {back : List String}

theorem follow_append (xs ys : List String) :
    follow rooted back (xs ++ ys) = follow rooted (follow rooted back xs) ys := by
  fun_induction follow rooted back xs with
  | case1 back => rfl
  | _ => simp_all [follow]

theorem follow_name {name : String} (h : IsName name) : follow rooted back [name] = name :: back := by
  simp [follow, h.ne_empty, h.ne_here, h.ne_up]

theorem follow_short {ps : List String} (h : Short rooted back) (hps : ∀ p ∈ ps, '/' ∉ p.toList) :
    Short rooted (follow rooted back ps) := by
  have hrest : ∀ {p ps}, (∀ q ∈ p :: ps, '/' ∉ q.toList) → ∀ q ∈ ps, '/' ∉ String.toList q :=
    fun hall q hq => hall q (List.mem_cons_of_mem _ hq)
  fun_induction follow rooted back ps with
  | case1 back => exact h
  | case2 back rest ih | case3 back rest ih => exact ih h (hrest hps)
  | case4 rest ih =>
    refine ih ?_ (hrest hps)
    cases rooted with
    | true => exact .nil
    | false => exact .up rfl (fun part hpart => nomatch hpart) .nil
  | case5 back rest ih =>
    refine ih ?_ (hrest hps)
    cases h with
    | name hname _ => exact absurd rfl hname.ne_up
    | up hrooted hback hshort =>
      exact .up hrooted (fun part hpart => (Option.mem_some.mp hpart).symm) (.up hrooted hback hshort)
  | case6 part back rest hpart ih =>
    refine ih ?_ (hrest hps)
    cases h with
    | name _ hshort | up _ _ hshort => exact hshort
  | case7 back part rest hempty hhere hnil hups hup ih =>
    have hname : part ≠ ".." := by
      cases back with
      | nil => exact hnil rfl
      | cons last back => exact hup last back rfl
    exact ih (.name ⟨hempty, hhere, hname, hps part (List.mem_cons_self ..)⟩ h) (hrest hps)

theorem follow_cons (part : String) (rest : List String) :
    follow rooted back (part :: rest) = follow rooted (follow rooted back [part]) rest :=
  follow_append [part] rest

/-- One more part leads the same way from where the shortest form of the parts before it leads. -/
theorem follow_reverse_step {start : List String} (hstart : rooted = true → start = []) (h : Short rooted back)
    (part : String) :
    follow true start (follow rooted back [part]).reverse = follow true (follow true start back.reverse) [part] := by
  by_cases hskip : part = "" ∨ part = "."
  · rcases hskip with rfl | rfl <;> simp [follow]
  obtain ⟨hempty, hhere⟩ := not_or.mp hskip
  by_cases hup : part = ".."
  · subst hup
    cases h with
    | nil => cases rooted <;> simp_all [follow]
    | @name tail last hname _ =>
      -- The step back undoes the step that was taken last.
      have hback : ∀ r back, follow r (last :: back) [".."] = back := by simp [follow, hname.ne_up]
      rw [hback, List.reverse_cons, follow_append, follow_name hname, hback]
    | up _ _ _ => rw [follow, follow, List.reverse_cons, follow_append]
  · have hstep : ∀ r back, follow r back [part] = part :: back := by simp [follow, hup]
    rw [hstep, List.reverse_cons, follow_append]

/-- Parts lead where their shortest form leads: from anywhere, or from the root if that is where they
start. -/
theorem follow_reverse_follow {start ps : List String} (hstart : rooted = true → start = [])
    (h : Short rooted back) (hps : ∀ p ∈ ps, '/' ∉ p.toList) :
    follow true start (follow rooted back ps).reverse = follow true (follow true start back.reverse) ps := by
  induction ps generalizing back with
  | nil => rfl
  | cons part rest ih =>
    obtain ⟨hpart, hrest⟩ := List.forall_mem_cons.mp hps
    have hshort : Short rooted (follow rooted back [part]) := follow_short h (by simpa using hpart)
    rw [follow_cons part rest, ih hshort hrest, follow_reverse_step hstart h, ← follow_cons part rest]

end Follow

/-! ### Whole paths -/

theorem parts_short (path : String) : Short (isRooted path) (parts path).reverse := by
  rw [parts, List.reverse_reverse]
  exact follow_short .nil (slash_notMem_split List.not_mem_nil)

theorem Short.slash_notMem {rooted : Bool} {back : List String} (h : Short rooted back) :
    ∀ p ∈ back, '/' ∉ p.toList := by
  induction h with
  | nil => exact List.forall_mem_nil _
  | name hname _ ih => exact List.forall_mem_cons.mpr ⟨hname.slash, ih⟩
  | up _ _ _ ih => exact List.forall_mem_cons.mpr ⟨by decide, ih⟩

theorem Short.ne_empty {rooted : Bool} {back : List String} (h : Short rooted back) : ∀ p ∈ back, p ≠ "" := by
  induction h with
  | nil => exact List.forall_mem_nil _
  | name hname _ ih => exact List.forall_mem_cons.mpr ⟨hname.ne_empty, ih⟩
  | up _ _ _ ih => exact List.forall_mem_cons.mpr ⟨by decide, ih⟩

theorem isRooted_append {front : String} (hfront : front ≠ "") (back : String) :
    isRooted (front ++ back) = isRooted front := by
  have hne : front.toList ≠ [] := fun h => hfront (String.toList_eq_nil_iff.mp h)
  obtain ⟨c, cs, hcs⟩ := List.exists_cons_of_ne_nil hne
  rw [isRooted, isRooted, String.toList_append, hcs]
  rfl

/-- Joined parts start with the first part, which has no slash. -/
theorem isRooted_intercalate {rooted : Bool} {ps : List String} (h : Short rooted ps.reverse) :
    isRooted ("/".intercalate ps) = false := by
  cases ps with
  | nil => rfl
  | cons p ps =>
    have hmem : p ∈ (p :: ps).reverse := List.mem_reverse.mpr (List.mem_cons_self ..)
    have hroot : isRooted ("/".intercalate (p :: ps)) = isRooted p := by
      cases ps with
      | nil => rw [String.intercalate_singleton]
      | cons q qs => rw [String.intercalate_cons_cons, String.append_assoc, isRooted_append (h.ne_empty p hmem)]
    rw [hroot, isRooted]
    cases hp : p.toList with
    | nil => rfl
    | cons c cs =>
      have hc : '/' ≠ c := fun heq => h.slash_notMem p hmem (by rw [hp, heq]; exact List.mem_cons_self ..)
      simpa using hc.symm

theorem isRooted_clean (path : String) : isRooted (clean path) = isRooted path := by
  have hroot := isRooted_intercalate (parts_short path)
  rw [clean]
  cases isRooted path with
  | true => exact isRooted_append (by decide) _
  | false =>
    by_cases hempty : "/".intercalate (parts path) = ""
    · simp [hempty, isRooted]
    · simpa [hempty] using hroot

theorem join_ne_empty (dir file : String) : join dir file ≠ "" := by
  unfold join clean
  generalize (if dir = "" then file else dir ++ "/" ++ file) = path
  cases isRooted path with
  | true => simp
  | false => by_cases hempty : "/".intercalate (parts path) = "" <;> simp [hempty]

/-- The shortest form is cut into its parts, with what leads nowhere in front of them at most. -/
theorem follow_split_clean (start : List String) (path : String) :
    follow true start (split [] (clean path).toList) = follow true start (parts path) := by
  have hshort := parts_short path
  by_cases hne : parts path = []
  · rw [clean, hne]
    cases isRooted path <;> rfl
  have hslash : ∀ p ∈ parts path, '/' ∉ p.toList := fun p hp => hshort.slash_notMem p (List.mem_reverse.mpr hp)
  have hsplit := split_intercalate hne hslash
  rw [clean]
  cases isRooted path with
  | true =>
    have hskip : split [] ("/" ++ "/".intercalate (parts path)).toList = "" :: parts path := by
      rw [String.toList_append, show "/".toList = ['/'] from rfl, List.singleton_append, split, hsplit]
      rfl
    rw [if_pos rfl, hskip, follow]
  | false =>
    have hjoined : "/".intercalate (parts path) ≠ "" := by
      intro hempty
      rw [hempty] at hsplit
      have hfirst : "" ∈ (parts path).reverse := by rw [← hsplit]; decide
      exact hshort.ne_empty "" hfirst rfl
    rw [if_neg Bool.false_ne_true, if_neg hjoined, hsplit]

/-- The shortest form of a path leads where the path leads. -/
theorem resolve_clean (home : List String) (path : String) : resolve home (clean path) = resolve home path := by
  have hparts : follow true (if isRooted path then [] else home.reverse) (parts path) =
      follow true (if isRooted path then [] else home.reverse) (split [] path.toList) := by
    refine follow_reverse_follow ?_ .nil (slash_notMem_split List.not_mem_nil)
    intro hrooted
    rw [if_pos hrooted]
  rw [resolve, resolve, isRooted_clean, follow_split_clean, hparts]

/-- A file in a directory is where the directory is, with its name after that. -/
theorem resolve_join (home : List String) (dir : String) {file : String} (h : IsName file) :
    resolve home (join dir file) = resolve home dir ++ [file] := by
  have hfile : split [] file.toList = [file] := by rw [split_of_notMem h.slash]; simp
  rw [join, resolve_clean]
  by_cases hdir : dir = ""
  · have hroot : isRooted file = false := by
      cases hchars : file.toList with
      | nil => rw [isRooted, hchars]; rfl
      | cons c cs =>
        have hc : '/' ≠ c := fun heq => h.slash (by rw [hchars, heq]; exact List.mem_cons_self ..)
        simpa [isRooted, hchars] using hc.symm
    rw [if_pos hdir, hdir, resolve, hfile, hroot, follow_name h, List.reverse_cons]
    rfl
  · have hsplit : split [] (dir ++ "/" ++ file).toList = split [] dir.toList ++ [file] := by
      rw [String.toList_append, String.toList_append, show "/".toList = ['/'] from rfl, List.append_assoc,
        List.singleton_append, split_slash, hfile]
    rw [if_neg hdir, resolve, hsplit, String.append_assoc, isRooted_append hdir, follow_append, follow_name h,
      List.reverse_cons]
    rfl

end Offside.Path
