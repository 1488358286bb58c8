import Offside.Program.Parser.Declaration

/-! Programs without the places in their source: every span is replaced by one and the same, so two
programs are equal up to spans if what is left of them is equal. -/
namespace Offside

/-- Stands for any span. -/
def Span.nowhere : Span := .single ⟨1, 1, ""⟩

mutual

def Stmt.bare : Stmt → Stmt
  | .assign target value _ => .assign target value .nowhere
  | .call c targets _ => .call c targets .nowhere
  | .loop target source body _ => .loop target source (Stmt.bareAll body) .nowhere
  | .branch condition yes no _ =>
    .branch condition (Stmt.bareAll yes) (Stmt.bareElse no) .nowhere

def Stmt.bareAll : List Stmt → List Stmt
  | [] => []
  | s :: rest => s.bare :: Stmt.bareAll rest

def Stmt.bareElse : Option (List Stmt) → Option (List Stmt)
  | none => none
  | some no => some (Stmt.bareAll no)

end

theorem Stmt.bareAll_eq_map (body : List Stmt) : Stmt.bareAll body = body.map Stmt.bare := by
  induction body with
  | nil => rfl
  | cons s rest ih => simp only [Stmt.bareAll, ih, List.map_cons]

def InterfaceDecl.bare (d : InterfaceDecl) : InterfaceDecl := { d with span := .nowhere }

def Member.bare (m : Member) : Member :=
  { m with accessor := m.accessor.map Stmt.bare, mutator := m.mutator.map Stmt.bare }

def ConstructorDecl.bare (c : ConstructorDecl) : ConstructorDecl :=
  { c with body := c.body.map Stmt.bare, span := .nowhere }

def MethodDecl.bare (m : MethodDecl) : MethodDecl :=
  { m with body := m.body.map Stmt.bare, span := .nowhere }

def ClassDecl.bare (c : ClassDecl) : ClassDecl where
  name := c.name
  interfaces := c.interfaces
  members := c.members.map Member.bare
  constructors := c.constructors.map ConstructorDecl.bare
  methods := c.methods.map MethodDecl.bare
  span := .nowhere

def Program.bare (p : Program) : Program :=
  ⟨p.interfaces.map InterfaceDecl.bare, p.classes.map ClassDecl.bare⟩

/-! ### What blocks hold -/

namespace Parser

/-- A body, or a line of one, without the spans of its statements. -/
def bareBody (body : List Decl × List Stmt) : List Decl × List Stmt :=
  (body.1, body.2.map Stmt.bare)

def bareClassPart (part : ClassBody) : ClassBody :=
  (part.1.map Member.bare, part.2.1.map ConstructorDecl.bare, part.2.2.map MethodDecl.bare)

/-- Items that are the same without spans add the same parts without spans. -/
theorem flatMap_bare {ι κ : Type} (bare : ι → ι) (parts : ι → List κ) (bareOf : κ → κ)
    (h : ∀ i, parts (bare i) = (parts i).map bareOf) {is js : List ι}
    (hbare : is.map bare = js.map bare) :
    (is.flatMap parts).map bareOf = (js.flatMap parts).map bareOf := by
  have hflat : ∀ is : List ι, (is.map bare).flatMap parts = (is.flatMap parts).map bareOf := by
    intro is
    simp only [List.flatMap_map, List.map_flatMap, h]
  rw [← hflat, ← hflat, hbare]

end Parser

end Offside
