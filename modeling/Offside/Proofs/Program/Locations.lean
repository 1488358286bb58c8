import Mathlib.Data.List.Perm.Basic
import Offside.Proofs.Program.Comments

/-! The spans of statements tell them apart.

A statement spans the tokens of its first line. These are inside a line, so they stand for characters
of the source, one token after the other; a block comes after the line that it belongs to. So the
spans of the statements of a program, in the order in which they are written, follow one another
without overlap, however deep they are nested. -/
namespace Offside

/-! ### Spans -/

/-- One span ends before the other starts. -/
def Span.Before (s t : Span) : Prop := s.stop.Before t.start

/-- The spans have no place in common. -/
def Span.Apart (s t : Span) : Prop := s.Before t ∨ t.Before s

theorem Span.Apart.symm {s t : Span} (h : s.Apart t) : t.Apart s := Or.symm h

mutual

/-- The spans of a statement and of those inside it, in the order in which they are written. -/
def Stmt.spans : Stmt → List Span
  | .assign _ _ span | .call _ _ span => [span]
  | .loop _ _ body span => span :: Stmt.spansEach body
  | .branch _ yes no span => span :: (Stmt.spansEach yes ++ Stmt.spansElse no)

def Stmt.spansEach : List Stmt → List Span
  | [] => []
  | s :: rest => s.spans ++ Stmt.spansEach rest

def Stmt.spansElse : Option (List Stmt) → List Span
  | none => []
  | some no => Stmt.spansEach no

end

theorem Stmt.flatMap_spans (body : List Stmt) : body.flatMap Stmt.spans = Stmt.spansEach body := by
  induction body with
  | nil => rfl
  | cons s rest ih => simp only [List.flatMap_cons, Stmt.spansEach, ih]

/-! ### Bodies -/

def Member.bodies (m : Member) : List (List Stmt) := [m.accessor, m.mutator]

def ClassDecl.bodies (d : ClassDecl) : List (List Stmt) :=
  d.members.flatMap Member.bodies ++ d.constructors.map ConstructorDecl.body ++
    d.methods.map MethodDecl.body

/-- The bodies of all accessors, mutators, constructors and methods. -/
def Program.bodies (p : Program) : List (List Stmt) := p.classes.flatMap ClassDecl.bodies

/-- The bodies in a part of a class. -/
def partBodies (part : ClassBody) : List (List Stmt) :=
  part.1.flatMap Member.bodies ++ part.2.1.map ConstructorDecl.body ++ part.2.2.map MethodDecl.body

/-- A class keeps the bodies of its parts, sorted by what they belong to. -/
theorem perm_bodies (parts : List ClassBody) :
    (parts.flatMap partBodies).Perm
      (partBodies (parts.flatMap (·.1), parts.flatMap (·.2.1), parts.flatMap (·.2.2))) := by
  induction parts with
  | nil => exact .nil
  | cons part parts ih =>
    simp only [partBodies, List.flatMap_cons, List.flatMap_append, List.map_append,
      List.append_assoc] at ih ⊢
    generalize parts.flatMap partBodies = bodies at ih ⊢
    generalize part.2.1.map ConstructorDecl.body = constructors, part.2.2.map MethodDecl.body = methods
    generalize (parts.flatMap (·.1)).flatMap Member.bodies = fields,
      (parts.flatMap (·.2.1)).map ConstructorDecl.body = constructors',
      (parts.flatMap (·.2.2)).map MethodDecl.body = methods' at ih ⊢
    refine List.Perm.append_left _ ?_
    -- The constructors of this part go past the fields of the others, its methods past both.
    calc
      List.Perm (constructors ++ (methods ++ bodies))
          (constructors ++ (methods ++ (fields ++ (constructors' ++ methods')))) :=
        (ih.append_left _).append_left _
      List.Perm _ (constructors ++ (fields ++ (methods ++ (constructors' ++ methods')))) :=
        (List.perm_append_comm_assoc ..).append_left _
      List.Perm _ (fields ++ (constructors ++ (methods ++ (constructors' ++ methods')))) :=
        List.perm_append_comm_assoc ..
      List.Perm _ (fields ++ (constructors ++ (constructors' ++ (methods ++ methods')))) :=
        ((List.perm_append_comm_assoc ..).append_left _).append_left _

namespace Grammar

/-! ### Phrases inside lines -/

/-- Phrases stand among the tokens, one after the other and each inside a line, and have these
spans. -/
inductive Spread : List Token → List Span → Prop
  | nil (ts) : Spread ts []
  | cons {ts post spans} (pre) : ts ≠ [] → Plain ts → Spread post spans →
      Spread (pre ++ ts ++ post) (spanOf ts :: spans)

namespace Spread
variable {ts us : List Token} {spans spans' : List Span}

theorem prepend (pre : List Token) (h : Spread ts spans) : Spread (pre ++ ts) spans := by
  cases h with
  | nil => exact .nil _
  | @cons ts post spans front hne hplain hpost =>
    have hcons := Spread.cons (pre ++ front) hne hplain hpost
    simpa only [List.append_assoc] using hcons

theorem append (h : Spread ts spans) (h' : Spread us spans') : Spread (ts ++ us) (spans ++ spans') := by
  induction h with
  | nil => exact h'.prepend _
  | @cons ts post spans front hne hplain _ ih =>
    have hcons := Spread.cons front hne hplain ih
    simpa only [List.append_assoc, List.cons_append] using hcons

/-- A line, and what stands after it. -/
theorem line {t : Token} {rest : List Token} (hplain : Plain (t :: ts)) (h : Spread rest spans) :
    Spread (t :: ts ++ rest) (spanOf (t :: ts) :: spans) :=
  .cons [] (List.cons_ne_nil _ _) hplain h

end Spread

/-- The statements in phrases of at most so many tokens have their spans one after the other. -/
def Spreads {α : Type} (n : Nat) (L : Language α) (spans : α → List Span) : Prop :=
  ∀ ts a, ts.length ≤ n → L ts a → Spread ts (spans a)

section Blocks
variable {α : Type} {n : Nat} {item : Language α} {spans : α → List Span}

theorem items_spread (hitem : Spreads n item spans) : Spreads n (Items item) (List.flatMap spans) := by
  intro ts as hlen h
  induction h with
  | nil => exact .nil _
  | @cons ns ts a us as _ hl _ ih =>
    simp only [List.length_append] at hlen
    exact ((hitem ts a (by omega) hl).prepend ns).append (ih (by omega))

theorem spread_block {ts : List Token} {as : List α} (hitem : Spreads n item spans)
    (hlen : ts.length ≤ n + 1) (h : Block item ts as) : Spread ts (as.flatMap spans) := by
  obtain @⟨opener, ts, as, ns, closer, -, hitems, -, -⟩ := h
  simp only [List.length_cons, List.length_append] at hlen
  have hinner := (items_spread hitem ts as (by omega) hitems).append (Spread.nil (ns ++ [closer]))
  simpa using hinner.prepend [opener]

end Blocks

theorem statement_spread (n : Nat) : Spreads n Statement Stmt.spans := by
  induction n with
  | zero =>
    intro ts s hlen h
    exact absurd (List.length_eq_zero_iff.mp (Nat.le_zero.mp hlen)) (Parser.statement_starts.ne_nil h)
  | succ n ih =>
    have hblock : ∀ {ts body}, ts.length ≤ n + 1 → Block Statement ts body →
        Spread ts (Stmt.spansEach body) := by
      intro ts body hlen h
      rw [← Stmt.flatMap_spans]
      exact spread_block ih hlen h
    intro ts s hlen h
    cases h with
    | simple hline =>
      obtain @⟨ts, s, ns, hs, -⟩ := hline
      have hspan : s.spans = [spanOf ts] := by cases hs <;> rfl
      rw [hspan]
      obtain ⟨t, us, rfl, -⟩ := Parser.simple_starts ts s hs
      exact .line (plain_of_simple hs) (.nil _)
    | @branch first ts e ns us yes hfirst he _ hyes =>
      simp only [List.length_cons, List.length_append] at hlen
      have hhead : Plain (first :: ts) := by simp [hfirst, plain_of_expression he, layoutKinds]
      have hrest := (hblock (by omega) hyes).prepend ns
      simpa [Stmt.spans, Stmt.spansElse] using Spread.line hhead hrest
    | @branchElse first ts e ns us yes other ms vs no hfirst he _ hyes _ _ hno =>
      simp only [List.length_cons, List.length_append] at hlen
      have hhead : Plain (first :: ts) := by simp [hfirst, plain_of_expression he, layoutKinds]
      have hno := (hblock (by omega) hno).prepend (other :: ms)
      have hrest := ((hblock (by omega) hyes).prepend ns).append hno
      simpa [Stmt.spans, Stmt.spansElse] using Spread.line hhead hrest
    | @loop first ws target ts e ns us body hfirst htarget he _ hbody =>
      simp only [List.length_cons, List.length_append] at hlen
      have hhead : Plain (first :: (ws ++ ts)) := by
        simp [hfirst, plain_of_target htarget, plain_of_expression he, layoutKinds]
      have hbody : Spread us (Stmt.spansEach body) := by
        cases hbody with
        | absent => exact .nil _
        | present h => exact hblock (by omega) h
      simpa [Stmt.spans] using Spread.line hhead (hbody.prepend ns)

theorem spread_statements {ts : List Token} {body : List Stmt} (h : Block Statement ts body) :
    Spread ts (body.flatMap Stmt.spans) :=
  spread_block (statement_spread ts.length) (Nat.le_succ _) h

/-! ### Declarations -/

/-- Local variables have no span. -/
theorem spread_body {ts : List Token} {body : List Decl × List Stmt} (h : Body ts body) :
    Spread ts (body.2.flatMap Stmt.spans) := by
  obtain @⟨ts, items, hblock⟩ := h
  have hline : Spreads ts.length BodyLine fun line => line.2.flatMap Stmt.spans := by
    intro us item hlen h
    cases h with
    | decl => exact .nil _
    | stmt hs => simpa using statement_spread _ us _ hlen hs
  rw [List.flatMap_assoc]
  exact spread_block hline (Nat.le_succ _) hblock

/-- The spans of the statements in bodies, one body after the other. -/
def spansOf (bodies : List (List Stmt)) : List Span := bodies.flatMap fun body => body.flatMap Stmt.spans

theorem spread_fieldBody {opener : Kind} {ts : List Token} {body : List Stmt}
    (h : FieldBody opener ts body) : Spread ts (body.flatMap Stmt.spans) := by
  cases h with
  | absent => exact .nil _
  | @present t colon ns ts body ms _ _ _ hblock _ =>
    have hbody := ((spread_statements hblock).prepend (t :: colon :: ns)).append (.nil ms)
    simpa using hbody

theorem spread_classPart {ts : List Token} {part : ClassBody} (h : ClassPart ts part) :
    Spread ts (spansOf (partBodies part)) := by
  cases h with
  | constructor hc =>
    cases hc with
    | plain => exact .nil _
    | @withBody first ts params ns us body _ _ _ hbody =>
      simpa [spansOf, partBodies] using (spread_body hbody).prepend (first :: (ts ++ ns))
  | method hm =>
    obtain @⟨ms, ts, header, ns, us, body, _, _, _, hbody⟩ := hm
    simpa [spansOf, partBodies] using (spread_body hbody).prepend (ms ++ ts ++ ns)
  | member hm =>
    cases hm with
    | plain => exact .nil _
    | @withBodies ts d opener ns us accessor vs mutator closer _ _ _ hget hset _ =>
      have hbodies := (spread_fieldBody hget).append (spread_fieldBody hset)
      have hmember := (hbodies.prepend (ts ++ opener :: ns)).append (.nil [closer])
      simpa [spansOf, partBodies, Member.bodies] using hmember

/-- The bodies of a class in the order in which they are written. -/
theorem spread_class {ts : List Token} {d : ClassDecl} (h : ClassDeclaration ts d) :
    ∃ bodies, bodies.Perm d.bodies ∧ Spread ts (spansOf bodies) := by
  obtain @⟨first, name, ts, interfaces, ns, us, items, _, _, _, _, hblock⟩ := h
  refine ⟨items.flatMap partBodies, perm_bodies items, ?_⟩
  have hpart : Spreads us.length ClassPart fun part => spansOf (partBodies part) :=
    fun _ _ _ => spread_classPart
  have hbodies := (spread_block hpart (Nat.le_succ _) hblock).prepend (first :: name :: (ts ++ ns))
  rw [spansOf, List.flatMap_assoc]
  simpa [spansOf] using hbodies

/-- The bodies of a program in the order in which they are written. -/
theorem spread_program {ts : List Token} {p : Program} (h : WholeProgram ts p) :
    ∃ bodies, bodies.Perm p.bodies ∧ Spread ts (spansOf bodies) := by
  obtain @⟨ns, ts, items, _, hparts⟩ := h
  suffices ∃ bodies, bodies.Perm ((items.flatMap Program.classes).flatMap ClassDecl.bodies) ∧
      Spread ts (spansOf bodies) by
    obtain ⟨bodies, hperm, hspread⟩ := this
    exact ⟨bodies, hperm, hspread.prepend ns⟩
  induction hparts with
  | nil => exact ⟨[], .nil, .nil _⟩
  | @cons ts item ns us items hpart _ _ ih =>
    obtain ⟨bodies, hperm, hspread⟩ := ih
    have hrest := hspread.prepend ns
    cases hpart with
    | interface =>
      refine ⟨bodies, hperm, ?_⟩
      simpa only [List.append_assoc] using hrest.prepend ts
    | cls hclass =>
      obtain ⟨own, hown, hspread'⟩ := spread_class hclass
      refine ⟨own ++ bodies, hown.append hperm, ?_⟩
      simpa only [spansOf, List.flatMap_append, List.append_assoc] using hspread'.append hrest

end Grammar

/-! ### Tokens in order -/

open Grammar

/-- Tokens inside lines follow one another, and none ends before it starts. -/
structure InOrder (ts : List Token) : Prop where
  apart : ts.Pairwise fun t u =>
    t.kind ∉ layoutKinds → u.kind ∉ layoutKinds → t.span.stop.Before u.span.start
  forward : ∀ t ∈ ts, t.kind ∉ layoutKinds → ¬ t.span.stop.Before t.span.start

theorem InOrder.of_append {pre ts post : List Token} (h : InOrder (pre ++ ts ++ post)) :
    InOrder ts ∧ InOrder post := by
  have hsub : ∀ us, us.Sublist (pre ++ ts ++ post) → InOrder us :=
    fun us hus => ⟨h.apart.sublist hus, fun t ht => h.forward t (hus.subset ht)⟩
  exact ⟨hsub ts (by simp), hsub post (by simp)⟩

/-- A phrase inside a line does not end before it starts. -/
theorem InOrder.spanOf_forward {ts : List Token} (h : InOrder ts) (hne : ts ≠ []) (hplain : Plain ts) :
    ¬ (spanOf ts).stop.Before (spanOf ts).start := by
  cases ts with
  | nil => exact absurd rfl hne
  | cons first rest =>
    obtain ⟨hfirst, hrest⟩ := plain_cons.mp hplain
    have hstart := h.forward first (List.mem_cons_self ..) hfirst
    by_cases hone : rest = []
    · subst hone
      exact hstart
    · -- The first token ends before the last one starts.
      have hmem : rest.getLastD first ∈ rest := by
        rw [List.getLastD_eq_getLast?, List.getLast?_eq_some_getLast hone]
        exact List.getLast_mem hone
      have hlast := hrest _ hmem
      have hstop := h.forward _ (List.mem_cons_of_mem _ hmem) hlast
      have hapart := (List.pairwise_cons.mp h.apart).1 _ hmem hfirst hlast
      simp only [spanOf]
      generalize (rest.getLastD first).span = last at hstop hapart
      generalize first.span = span at hstart hapart
      simp only [Position.Before] at hstart hstop hapart ⊢
      omega

/-- A phrase ends with one of its tokens. -/
theorem exists_stop {ts : List Token} (hne : ts ≠ []) : ∃ t ∈ ts, (spanOf ts).stop = t.span.stop := by
  cases ts with
  | nil => exact absurd rfl hne
  | cons first rest => exact ⟨_, List.getLastD_mem_cons, rfl⟩

namespace Grammar.Spread
variable {ts : List Token} {spans : List Span}

/-- Every span starts with one of the tokens. -/
theorem exists_start (h : Spread ts spans) :
    ∀ s ∈ spans, ∃ t ∈ ts, t.kind ∉ layoutKinds ∧ s.start = t.span.start := by
  induction h with
  | nil => exact List.forall_mem_nil _
  | @cons ts post spans pre hne hplain _ ih =>
    intro s hs
    rcases List.mem_cons.mp hs with rfl | hs
    · cases ts with
      | nil => exact absurd rfl hne
      | cons first rest => exact ⟨first, by simp, hplain first (.head _), rfl⟩
    · obtain ⟨t, ht, hkind, hstart⟩ := ih s hs
      exact ⟨t, by simp [ht], hkind, hstart⟩

/-- Phrases among tokens in order have spans in order. -/
theorem inOrder (h : Spread ts spans) (ho : InOrder ts) :
    (∀ s ∈ spans, ¬ s.stop.Before s.start) ∧ spans.Pairwise Span.Before := by
  induction h with
  | nil => exact ⟨List.forall_mem_nil _, .nil⟩
  | @cons ts post spans pre hne hplain hpost ih =>
    obtain ⟨hts, hrest⟩ := ho.of_append
    obtain ⟨hforward, hpairwise⟩ := ih hrest
    refine ⟨List.forall_mem_cons.mpr ⟨hts.spanOf_forward hne hplain, hforward⟩, ?_⟩
    refine List.pairwise_cons.mpr ⟨fun s hs => ?_, hpairwise⟩
    obtain ⟨last, hlast, hstop⟩ := exists_stop hne
    obtain ⟨first, hfirst, hkind, hstart⟩ := hpost.exists_start s hs
    show (spanOf ts).stop.Before s.start
    rw [hstop, hstart]
    have hcross := (List.pairwise_append.mp ho.apart).2.2
    exact hcross last (List.mem_append_right pre hlast) first hfirst (hplain last hlast) hkind

end Grammar.Spread

/-! ### Tokens of a text -/

theorem Cut.forward {file : String} {source done : List Char} {ts : List Token}
    (h : Cut file source done ts) : ∀ t ∈ ts, ¬ t.span.stop.Before t.span.start := by
  induction h with
  | nil => exact List.forall_mem_nil _
  | @lexeme done ts gap kind text written rest _ _ _ _ ih =>
    intro t ht
    rcases List.mem_append.mp ht with ht | ht
    · exact ih t ht
    · rw [List.mem_singleton.mp ht]
      by_cases hone : written.dropLast = []
      · simpa [hone] using Position.Before.irrefl _
      · exact (before_append hone).asymm

theorem lex_inOrder {file : String} {source : List Char} {tokens : List Token}
    (h : lex file source = .ok tokens) : InOrder tokens := by
  obtain ⟨hfailed, rfl⟩ := Scanner.lex_eq_ok h
  obtain ⟨⟨body, tail, -, hcut, -⟩, -⟩ := (Scanner.ended_ready file source).resolve_right hfailed
  generalize ((Scanner.start file).feedAll source).close = s at hcut
  have hlexical : ∀ t : Token, t.kind ∉ layoutKinds → t.isLexical = true := by
    intro t ht
    simp only [layoutKinds, List.mem_cons, not_or] at ht
    simp [Token.isLexical, ht]
  -- What is added where the text ends is no part of a line.
  have hending : ∀ t ∈ Scanner.ending s.here.right s.made s.levels.length, t.kind ∈ layoutKinds := by
    intro t ht
    rcases List.mem_append.mp ht with ht | ht
    · split at ht
      · simp [List.mem_singleton.mp ht, layoutKinds]
      · cases ht
    · simp [List.eq_of_mem_replicate ht, layoutKinds]
  constructor
  · refine List.pairwise_append.mpr ⟨?_, ?_, fun t _ u hu _ hkind => absurd (hending u hu) hkind⟩
    · refine (List.pairwise_filter.mp hcut.pairwise).imp fun hbefore ht hu => ?_
      exact hbefore (hlexical _ ht) (hlexical _ hu)
    · exact List.pairwise_of_forall_mem_list fun t ht u _ hkind => absurd (hending t ht) hkind
  · intro t ht hkind
    rcases List.mem_append.mp ht with ht | ht
    · exact hcut.forward t (List.mem_filter.mpr ⟨ht, hlexical t hkind⟩)
    · exact absurd (hending t ht) hkind

/-! ### Whole programs -/

/-- **A span tells which statement it is of.** No statement of a program ends before it starts; those
of one body, with those nested in them, follow one another without overlap in the order in which they
are written; and those of two bodies have no place in common. -/
theorem load_locations (file : String) (source : List Char) (p : Program)
    (h : (Program.load file source).1 = .ok p) :
    (∀ body ∈ p.bodies, (∀ span ∈ body.flatMap Stmt.spans, ¬ span.stop.Before span.start) ∧
      (body.flatMap Stmt.spans).Pairwise Span.Before) ∧
    p.bodies.Pairwise fun body other =>
      ∀ s ∈ body.flatMap Stmt.spans, ∀ t ∈ other.flatMap Stmt.spans, s.Apart t := by
  obtain ⟨tokens, hlex, hparse⟩ := load_eq_ok.mp h
  obtain ⟨bodies, hperm, hspread⟩ := spread_program (Parser.wholeProgram_of_parse hparse)
  obtain ⟨hforward, hpairwise⟩ := hspread.inOrder (lex_inOrder hlex)
  obtain ⟨hwithin, hbetween⟩ := List.pairwise_flatMap.mp hpairwise
  refine ⟨fun body hbody => ⟨fun span hspan => ?_, hwithin body (hperm.mem_iff.mpr hbody)⟩, ?_⟩
  · exact hforward span (List.mem_flatMap.mpr ⟨body, hperm.mem_iff.mpr hbody, hspan⟩)
  · have hapart : bodies.Pairwise fun body other =>
        ∀ s ∈ body.flatMap Stmt.spans, ∀ t ∈ other.flatMap Stmt.spans, s.Apart t :=
      hbetween.imp fun hbefore s hs t ht => .inl (hbefore s hs t ht)
    exact hapart.perm hperm fun hsym t ht s hs => (hsym s hs t ht).symm

/-- A text over two lines in a loop in a branch, between the bodies of an accessor and of a
constructor. -/
theorem load_locations_nested :
    let source := ("class a\n\tnumber n\n\t\taccessor:\n\t\t\tn = 1\n\tshared start()\n\t\tif b\n\t\t\tloop c\n" ++
      "\t\t\t\td(\"x\ny\")\n\t\telse\n\t\t\te()\n\tconstruct()\n\t\tf()\n").toList
    let span := fun a b c d => (⟨⟨a, b, "f"⟩, ⟨c, d, "f"⟩⟩ : Span)
    ∃ p, (Program.load "f" source).1 = .ok p ∧
      p.bodies.map (·.flatMap Stmt.spans) = [[span 4 4 4 8], [], [span 13 3 13 5],
        [span 6 3 6 6, span 7 4 7 9, span 8 5 9 3, span 11 4 11 6]] ∧
      (∀ body ∈ p.bodies, (∀ span ∈ body.flatMap Stmt.spans, ¬ span.stop.Before span.start) ∧
        (body.flatMap Stmt.spans).Pairwise Span.Before) ∧
      p.bodies.Pairwise fun body other =>
        ∀ s ∈ body.flatMap Stmt.spans, ∀ t ∈ other.flatMap Stmt.spans, s.Apart t := by
  intro source span
  have hspans : (Program.load "f" source).1.toOption.map
      (fun p => p.bodies.map (·.flatMap Stmt.spans)) = some [[span 4 4 4 8], [], [span 13 3 13 5],
        [span 6 3 6 6, span 7 4 7 9, span 8 5 9 3, span 11 4 11 6]] := by
    decide +kernel
  cases hload : (Program.load "f" source).1 with
  | error e =>
    rw [hload] at hspans
    cases hspans
  | ok p =>
    rw [hload] at hspans
    exact ⟨p, rfl, Option.some.inj hspans, load_locations "f" source p hload⟩

end Offside
