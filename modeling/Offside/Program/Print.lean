import Offside.Number.Render
import Offside.Program.Basic

/-! Declarations, expressions and statements as text.

An operand of an arithmetic operator gets parentheses where its own operator would otherwise be read
differently: on the left if that binds less tightly, on the right always. No other operand gets
any. -/
namespace Offside

def Decl.print (d : Decl) : String := s!"{d.type} {d.name}"

/-- Texts with commas between them. -/
def commaList (texts : List String) : String := ", ".intercalate texts

def Decl.printAll (decls : List Decl) : String := commaList (decls.map Decl.print)

def Header.print (h : Header) : String :=
  let call := s!"{h.name}({Decl.printAll h.parameters})"
  if h.returns.isEmpty then call else s!"{call} : {Decl.printAll h.returns}"

def LogicOp.print : LogicOp → String
  | .and => "and"
  | .or => "or"

def CompareOp.print : CompareOp → String
  | .equal => "=="
  | .notEqual => "!="
  | .less => "<"
  | .greater => ">"
  | .lessEqual => "<="
  | .greaterEqual => ">="

def ArithOp.print : ArithOp → String
  | .add => "+"
  | .subtract => "-"
  | .multiply => "*"
  | .divide => "/"
  | .modulo => "%"

def Operator.print : Operator → String
  | .logic op => op.print
  | .compare op => op.print
  | .arith op => op.print

/-- How tightly an operator binds its operands. -/
def ArithOp.binding : ArithOp → Nat
  | .add | .subtract => 1
  | .multiply | .divide | .modulo => 2

namespace Expr

/-- The operator of an arithmetic expression. -/
def arithOp? : Expr → Option ArithOp
  | .binary (.arith op) _ _ => some op
  | _ => none

/-- The left operand of `op` needs parentheses. -/
def groupsLeft (op : Operator) (left : Expr) : Bool :=
  match op, left.arithOp? with
  | .arith outer, some inner => inner.binding < outer.binding
  | _, _ => false

/-- The right operand of `op` needs parentheses. -/
def groupsRight (op : Operator) (right : Expr) : Bool :=
  match op with
  | .arith _ => right.arithOp?.isSome
  | _ => false

/-- Puts parentheses around a text, or not. -/
def grouped (parentheses : Bool) (text : String) : String :=
  if parentheses then s!"({text})" else text

mutual

def print : Expr → String
  | .number value => Number.literal value
  | .text value => s!"\"{value}\""
  | .truth value => if value then "true" else "false"
  | .character value => s!"'{value}'"
  | .variable name => name
  | .not operand => s!"!{print operand}"
  | .binary op left right =>
    let leftText := grouped (groupsLeft op left) (print left)
    let rightText := grouped (groupsRight op right) (print right)
    s!"{leftText} {op.print} {rightText}"
  | .call none method arguments => s!"{method}({commaList (printEach arguments)})"
  | .call (some object) method arguments =>
    s!"{object}.{method}({commaList (printEach arguments)})"
  | .create cls arguments => s!"new {cls}({commaList (printEach arguments)})"

def printEach : List Expr → List String
  | [] => []
  | e :: rest => print e :: printEach rest

end

end Expr

def Call.print (c : Call) : String := c.toExpr.print

namespace Stmt

/-- Puts a tab in front of every line. `fresh` says that a line starts here. -/
def indentLines : (fresh : Bool) → List Char → List Char
  | _, [] => []
  | fresh, c :: rest =>
    let line := c :: indentLines (c == '\n') rest
    if fresh then '\t' :: line else line

mutual

def print : Stmt → String
  | .assign target value _ => s!"{target} = {value.print}\n"
  | .call c [] _ => s!"{c.print}\n"
  | .call c targets _ => s!"{commaList targets} = {c.print}\n"
  | .loop none source body _ => s!"loop {source.print}\n{printBlock body}"
  | .loop (some target) source body _ => s!"loop {target} = {source.print}\n{printBlock body}"
  | .branch condition yes none _ => s!"if {condition.print}\n{printBlock yes}"
  | .branch condition yes (some no) _ =>
    s!"if {condition.print}\n{printBlock yes}else\n{printBlock no}"

/-- Statements one step further in. -/
def printBlock : List Stmt → String
  | [] => ""
  | s :: rest => String.ofList (indentLines true (print s).toList) ++ printBlock rest

end

end Stmt

end Offside
