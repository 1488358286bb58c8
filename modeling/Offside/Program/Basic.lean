import Offside.Source

/-! Programs: interfaces and classes, their methods, and the statements and expressions in them. -/
namespace Offside

/-- A name with the name of its type. -/
structure Decl where
  type : String
  name : String
  deriving DecidableEq, Repr

/-- A method's name, what it takes and what it returns. -/
structure Header where
  name : String
  parameters : List Decl
  returns : List Decl
  deriving DecidableEq, Repr

structure InterfaceDecl where
  name : String
  methods : List Header
  span : Span
  deriving DecidableEq, Repr

inductive LogicOp where
  | and | or
  deriving DecidableEq, Repr

inductive CompareOp where
  | equal | notEqual | less | greater | lessEqual | greaterEqual
  deriving DecidableEq, Repr

inductive ArithOp where
  | add | subtract | multiply | divide | modulo
  deriving DecidableEq, Repr

/-- The operators between two operands. -/
inductive Operator where
  | logic (op : LogicOp)
  | compare (op : CompareOp)
  | arith (op : ArithOp)
  deriving DecidableEq, Repr

inductive Expr where
  | number (value : Float)
  | text (value : String)
  | truth (value : Bool)
  | character (value : Char)
  | variable (name : String)
  | not (operand : Expr)
  | binary (op : Operator) (left right : Expr)
  /-- A call, qualified by the name of a class or of a variable, or not. -/
  | call (object : Option String) (method : String) (arguments : List Expr)
  /-- A new object of a class. -/
  | create (cls : String) (arguments : List Expr)
  deriving Repr

/-- A call by itself. -/
structure Call where
  object : Option String
  method : String
  arguments : List Expr
  deriving Repr

def Call.toExpr (c : Call) : Expr := .call c.object c.method c.arguments

/-- Statements. The span of a loop and of a branch covers its first line only. -/
inductive Stmt where
  | assign (target : String) (value : Expr) (span : Span)
  /-- A call, with the variables that receive what it returns. -/
  | call (call : Call) (targets : List String) (span : Span)
  /-- A loop over a condition, which may be recorded in a variable, or over an iterator. -/
  | loop (target : Option String) (source : Expr) (body : List Stmt) (span : Span)
  | branch (condition : Expr) (yes : List Stmt) (no : Option (List Stmt)) (span : Span)
  deriving Repr

/-- A field of a class. The two bodies are kept with it and have no say in a run. -/
structure Member where
  decl : Decl
  accessor : List Stmt
  mutator : List Stmt
  deriving Repr

structure ConstructorDecl where
  parameters : List Decl
  locals : List Decl
  body : List Stmt
  span : Span
  deriving Repr

structure MethodDecl where
  header : Header
  isPrivate : Bool
  isShared : Bool
  locals : List Decl
  body : List Stmt
  span : Span
  deriving Repr

/-- The fields, constructors and methods of a class or of a part of one. -/
abbrev ClassBody := List Member × List ConstructorDecl × List MethodDecl

structure ClassDecl where
  name : String
  interfaces : List String
  members : List Member
  constructors : List ConstructorDecl
  methods : List MethodDecl
  span : Span
  deriving Repr

structure Program where
  interfaces : List InterfaceDecl
  classes : List ClassDecl
  deriving Repr

end Offside
