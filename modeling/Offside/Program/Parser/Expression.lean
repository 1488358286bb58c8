import Offside.Number.Read
import Offside.Program.Parser.Basic

/-! Reading expressions.

From the loosest to the tightest: `or`, which takes everything on its right; `and`; a comparison, at
most one; sums; products; and what stands by itself. A `not` covers the comparison after it. An
expression holds others only inside parentheses, so the tokens bound how deep they nest. -/
namespace Offside.Parser

/-- The comparison that a kind of token stands for. -/
def compareOp? : Kind → Option CompareOp
  | .equal => some .equal
  | .notEqual => some .notEqual
  | .less => some .less
  | .greater => some .greater
  | .lessEqual => some .lessEqual
  | .greaterEqual => some .greaterEqual
  | _ => none

/-- The operator of sums that a kind of token stands for. -/
def sumOp? : Kind → Option ArithOp
  | .plus => some .add
  | .minus => some .subtract
  | _ => none

/-- The operator of products that a kind of token stands for. -/
def productOp? : Kind → Option ArithOp
  | .times => some .multiply
  | .divide => some .divide
  | .modulo => some .modulo
  | _ => none

/-- Takes the next token if its kind stands for an operator. -/
def operator? {Op : Type} (op? : Kind → Option Op) : Parser (Option Op) := do
  match (← cursor).peek? 0 with
  | none => return none
  | some token =>
    match op? token.kind with
    | none => return none
    | some op => let _ ← expect token.kind; return some op

/-! ### Operators -/

/-- More operands, each after an operator; what was read before them is on the left. -/
def chainAfter (op? : Kind → Option Operator) (operand : Parser Expr) :
    (bound : Nat) → Expr → Parser Expr
  | 0, left => return left
  | bound + 1, left => do
    match ← operator? op? with
    | none => return left
    | some op => chainAfter op? operand bound (.binary op left (← operand))

/-- Operands with operators between them, grouped to the left. -/
def chain (op? : Kind → Option Operator) (operand : Parser Expr) : Parser Expr := do
  let first ← operand
  withBound fun bound => chainAfter op? operand bound first

def product (primary : Parser Expr) : Parser Expr :=
  chain (fun kind => (productOp? kind).map .arith) primary

def sum (primary : Parser Expr) : Parser Expr :=
  chain (fun kind => (sumOp? kind).map .arith) (product primary)

def comparison (primary : Parser Expr) : Parser Expr := do
  let negations ← withBound (countOf .not)
  let left ← sum primary
  let whole ← match ← operator? compareOp? with
    | none => pure left
    | some op => do pure (.binary (.compare op) left (← sum primary))
  return Nat.repeat Expr.not negations whole

def conjunction (primary : Parser Expr) : Parser Expr :=
  chain (fun kind => if kind = .and then some (.logic .and) else none) (comparison primary)

/-- Operands of `or`, grouped to the right. -/
def joinOr : Expr → List Expr → Expr
  | first, [] => first
  | first, second :: rest => .binary (.logic .or) first (joinOr second rest)

def disjunction (primary : Parser Expr) : Parser Expr := do
  let first ← conjunction primary
  return joinOr first (← withBound (afterSeparators .or (conjunction primary)))

/-! ### What stands by itself -/

/-- Arguments up to and with the closing parenthesis, at least one. -/
def argumentsLeft (argument : Parser Expr) : (bound : Nat) → Parser (List Expr)
  | 0 => do return [← argument]
  | bound + 1 => do
    let first ← argument
    let next ← expectAny [.comma, .rightParen]
    if next.kind = .rightParen then return [first]
    else return first :: (← argumentsLeft argument bound)

/-- Arguments, after the opening parenthesis. -/
def arguments (argument : Parser Expr) : Parser (List Expr) := do
  if ← accept .rightParen then return []
  else withBound (argumentsLeft argument)

/-- The name in front of a call's dot; an empty one qualifies nothing. -/
def qualifier (name : String) : Option String := if name = "" then none else some name

def call (argument : Parser Expr) : Parser Call := do
  let name ← expect .word
  if ← accept .dot then
    let method ← expect .word
    let _ ← expect .leftParen
    return ⟨qualifier name.text, method.text, ← arguments argument⟩
  else
    let _ ← expect .leftParen
    return ⟨none, name.text, ← arguments argument⟩

/-- The number of a number token. -/
def numberOf (token : Token) : Parser Expr :=
  match Number.read? token.text with
  | some value => return .number value
  | none => throw ⟨.malformedNumber token.text, token.span⟩

/-- The first character of a character token. -/
def characterOf (token : Token) : Parser Expr :=
  match token.text.toList with
  | c :: _ => return .character c
  | [] => throw ⟨.emptyCharacter, token.span⟩

/-- The kinds that an expression can start with, negation aside. -/
def expressionStarts : List Kind :=
  [.word, .number, .text, .character, .trueWord, .falseWord, .newWord, .leftParen]

def primary (nested : Parser Expr) : Parser Expr := do
  match (← cursor).peek? 0 with
  | none => throw ⟨.endOfExpression, (← cursor).location⟩
  | some token =>
    match token.kind with
    | .trueWord => let _ ← expect .trueWord; return .truth true
    | .falseWord => let _ ← expect .falseWord; return .truth false
    | .number => let _ ← expect .number; numberOf token
    | .text => let _ ← expect .text; return .text token.text
    | .character => let _ ← expect .character; characterOf token
    | .leftParen =>
      let _ ← expect .leftParen
      let inner ← nested
      let _ ← expect .rightParen
      return inner
    | .newWord =>
      let _ ← expect .newWord
      let cls ← expect .word
      let _ ← expect .leftParen
      return .create cls.text (← arguments nested)
    | .word =>
      if ← nextIs 1 [.dot, .leftParen] then return (← call nested).toExpr
      else
        let _ ← expect .word
        return .variable token.text
    | _ => complain expressionStarts

/-! ### Expressions -/

/-- An expression of at most `bound` tokens. -/
def expressionOf : (bound : Nat) → Parser Expr
  | 0 => do throw ⟨.endOfExpression, (← cursor).location⟩
  | bound + 1 => disjunction (primary (expressionOf bound))

def expression : Parser Expr := withBound expressionOf

/-- A call outside of an expression. -/
def callExpression : Parser Call := call expression

end Offside.Parser
