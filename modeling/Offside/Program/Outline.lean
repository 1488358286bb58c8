import Offside.Outline
import Offside.Program.Print
import Offside.Token.Basic

/-! Places, tokens and programs as nested records. -/
namespace Offside

def Position.outline (p : Position) : Outline :=
  .recordOf "types.Position" [
    ("Line", Outline.number? p.line),
    ("Column", Outline.number? p.column),
    ("Filename", Outline.text? p.file)]

def Span.outline (s : Span) : Outline :=
  .record "types.Span" [("From", s.start.outline), ("To", s.stop.outline)]

/-- A kind by its name. A plain word is the usual case and goes without saying. -/
def Kind.outline? (kind : Kind) : Option Outline :=
  if kind = .word then none else some (.atom s!"types.TokenKind({kind.name})")

/-- A token as an item of a list. -/
def Token.outline (t : Token) : Outline :=
  .recordOf "" [("Kind", t.kind.outline?), ("Location", t.span.outline), ("Text", Outline.text? t.text)]

/-- A whole sequence of tokens. -/
def Token.outlineAll (tokens : List Token) : String :=
  match Outline.list? "[]types.Token" (tokens.map Token.outline) with
  | some outline => outline.render 0 ++ "\n"
  | none => "nil\n"

/-! ### Programs -/

def Decl.outlineFields (d : Decl) : List (String × Option Outline) :=
  [("Type", Outline.text? d.type), ("Name", Outline.text? d.name)]

def Decl.outlineAll? (decls : List Decl) : Option Outline :=
  Outline.list? "[]ast.VariableDeclaration" (decls.map fun d => .recordOf "" d.outlineFields)

def Header.outline (name : String) (h : Header) : Outline :=
  .recordOf name [
    ("Name", Outline.text? h.name),
    ("Parameters", Decl.outlineAll? h.parameters),
    ("Returns", Decl.outlineAll? h.returns)]

def InterfaceDecl.outline (i : InterfaceDecl) : Outline :=
  .recordOf "" [
    ("Name", Outline.text? i.name),
    ("Methods", Outline.list? "[]ast.MethodHeader" (i.methods.map (Header.outline ""))),
    ("Pos", i.span.outline)]

/-- The operator's record, and what of the operator the record shows: the first of each group goes
without saying. -/
def Operator.outline : Operator → String × Option Outline
  | .logic .and => ("ast.BooleanOp", none)
  | .logic op => ("ast.BooleanOp", some (.atom s!"ast.BooleanOperator({op.print})"))
  | .compare .equal => ("ast.Compare", none)
  | .compare op => ("ast.Compare", some (.atom s!"ast.CompareOperator({op.print})"))
  | .arith .add => ("ast.MathOp", none)
  | .arith op => ("ast.MathOp", some (.atom s!"ast.MathOperator({op.print})"))

namespace Expr

/-- The record of a variable. -/
def variableOutline (type name : String) : Outline := .recordOf type [("Name", Outline.text? name)]

mutual

def outline : Expr → Outline
  | .number value => .atom s!"ast.NumericLiteral({Number.literal value})"
  | .text value => .atom s!"ast.StringLiteral({Text.quote value})"
  | .truth value => .atom s!"ast.BooleanLiteral({value})"
  | .character value => .atom s!"ast.CharLiteral('{value}')"
  | .variable name => variableOutline "ast.VariableReference" name
  | .not operand => .record "ast.Not" [("Operand", outline operand)]
  | .binary op left right =>
    .recordOf op.outline.1 [
      ("Left", outline left), ("Right", outline right), ("Op", op.outline.2)]
  | .call object method arguments =>
    .recordOf "ast.MethodCallExpression" [
      ("Object", object.bind Outline.text?),
      ("Method", Outline.text? method),
      ("Arguments", Outline.list? "[]ast.Expression" (outlineEach arguments))]
  | .create cls arguments =>
    .recordOf "ast.New" [
      ("Class", Outline.text? cls),
      ("Arguments", Outline.list? "[]ast.Expression" (outlineEach arguments))]

def outlineEach : List Expr → List Outline
  | [] => []
  | e :: rest => outline e :: outlineEach rest

end

end Expr

namespace Stmt

mutual

def outline : Stmt → Outline
  | .assign target value span =>
    .record "ast.Assignment" [
      ("Target", Expr.variableOutline "ast.VariableReference" target),
      ("Value", value.outline),
      ("Pos", span.outline)]
  | .call c targets span =>
    .recordOf "ast.MethodCall" [
      ("Call", c.toExpr.outline),
      ("Returns", Outline.list? "[]ast.VariableReference" (targets.map (Expr.variableOutline ""))),
      ("Pos", span.outline)]
  | .loop target source body span =>
    .recordOf "ast.Loop" [
      ("Variable", target.map (Expr.variableOutline "&ast.VariableReference")),
      ("Condition", source.outline),
      ("Body", Outline.list? "[]ast.Statement" (outlineEach body)),
      ("Pos", span.outline)]
  | .branch condition yes no span =>
    .recordOf "ast.If" [
      ("Condition", condition.outline),
      ("Then", Outline.list? "[]ast.Statement" (outlineEach yes)),
      ("Else", outlineElse no),
      ("Pos", span.outline)]

def outlineElse : Option (List Stmt) → Option Outline
  | none => none
  | some no =>
    some (.recordOf "&ast.Else" [("Statements", Outline.list? "[]ast.Statement" (outlineEach no))])

def outlineEach : List Stmt → List Outline
  | [] => []
  | s :: rest => outline s :: outlineEach rest

end

def outlineAll? (body : List Stmt) : Option Outline :=
  Outline.list? "[]ast.Statement" (outlineEach body)

end Stmt

def Member.outline (m : Member) : Outline :=
  .recordOf "" [
    ("VariableDeclaration", Outline.recordOf "ast.VariableDeclaration" m.decl.outlineFields),
    ("Accessor", Stmt.outlineAll? m.accessor),
    ("Mutator", Stmt.outlineAll? m.mutator)]

def ConstructorDecl.outline (c : ConstructorDecl) : Outline :=
  .recordOf "" [
    ("Parameters", Decl.outlineAll? c.parameters),
    ("Locals", Decl.outlineAll? c.locals),
    ("Statements", Stmt.outlineAll? c.body),
    ("Pos", c.span.outline)]

def MethodDecl.outline (m : MethodDecl) : Outline :=
  .recordOf "" [
    ("MethodHeader", m.header.outline "ast.MethodHeader"),
    ("IsPrivate", Outline.flag? m.isPrivate),
    ("IsShared", Outline.flag? m.isShared),
    ("Locals", Decl.outlineAll? m.locals),
    ("Statements", Stmt.outlineAll? m.body),
    ("Pos", m.span.outline)]

def ClassDecl.outline (c : ClassDecl) : Outline :=
  .recordOf "" [
    ("Name", Outline.text? c.name),
    ("Interfaces", Outline.list? "[]string" (c.interfaces.map fun name => .atom (Text.quote name))),
    ("Members", Outline.list? "[]ast.Member" (c.members.map Member.outline)),
    ("Constructors", Outline.list? "[]*ast.Constructor" (c.constructors.map ConstructorDecl.outline)),
    ("Methods", Outline.list? "[]*ast.MethodDeclaration" (c.methods.map MethodDecl.outline)),
    ("Pos", c.span.outline)]

/-- A whole program. -/
def Program.outline (p : Program) : String :=
  let outline := Outline.recordOf "&ast.Program" [
    ("Interfaces", Outline.list? "[]*ast.Interface" (p.interfaces.map InterfaceDecl.outline)),
    ("Classes", Outline.list? "[]*ast.Class" (p.classes.map ClassDecl.outline))]
  outline.render 0 ++ "\n"

end Offside
