import Offside.Heap.Basic
import Offside.Number.Basic

/-! The operators on values. -/
namespace Offside

def CompareOp.apply (op : CompareOp) (l r : Float) : Bool :=
  match op with
  | .equal => l == r
  | .notEqual => l != r
  | .less => l < r
  | .greater => l > r
  | .lessEqual => l ≤ r
  | .greaterEqual => l ≥ r

def LogicOp.apply (op : LogicOp) (l r : Bool) : Bool :=
  match op with
  | .and => l && r
  | .or => l || r

/-- Arithmetic on two numbers; there is no quotient by zero. -/
def ArithOp.apply? (op : ArithOp) (l r : Float) : Option Float :=
  match op with
  | .add => some (l + r)
  | .subtract => some (l - r)
  | .multiply => some (l * r)
  | .divide => if r == 0 then none else some (l / r)
  | .modulo => some (Number.remainder l r)

/-- An operator on two values. `whole` is the expression that it stands in. -/
def Operator.apply (op : Operator) (whole : Expr) (l r : Cell) : Except Fault Cell :=
  match op, l, r with
  | .logic op, .truth l, .truth r => .ok (.truth (op.apply l r))
  | .logic op, l, r => .error (.logic op l.typeName r.typeName)
  | .compare op, .number l, .number r => .ok (.truth (op.apply l r))
  | .compare op, l, r => .error (.comparison op l.typeName r.typeName)
  | .arith .add, .text l, .text r => .ok (.text (l ++ r))
  | .arith op, .number l, .number r =>
    match op.apply? l r with
    | some value => .ok (.number value)
    | none => .error (.divisionByZero whole)
  | .arith op, l, r => .error (.arithmetic op l.typeName r.typeName)

end Offside
