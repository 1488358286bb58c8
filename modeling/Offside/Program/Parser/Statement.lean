import Offside.Program.Parser.Expression

/-! Reading statements. A statement holds others only inside an indented block, so the tokens
bound how deep they nest. -/
namespace Offside.Parser

def assignment (start : Position) : Parser Stmt := do
  let target ← expect .word
  let _ ← expect .assign
  let value ← expression
  return .assign target.text value (← spanFrom start)

/-- A call whose returns go into variables. -/
def receivingCall (start : Position) : Parser Stmt := do
  let targets ← separated .comma (do return (← expect .word).text)
  let _ ← expect .assign
  let call ← callExpression
  return .call call targets (← spanFrom start)

/-- A statement that starts with a word; at most three further tokens tell which it is. -/
def simpleStatement : Parser Stmt := do
  let start ← position
  if ← nextIs 1 [.dot, .leftParen] then
    let call ← callExpression
    return .call call [] (← spanFrom start)
  else if ← nextIs 1 [.comma] then receivingCall start
  else if ← nextIs 1 [.assign] then
    if (← nextIs 2 [.word]) && (← nextIs 3 [.leftParen]) then receivingCall start
    else assignment start
  else
    let _ ← expect .word
    complain [.dot, .leftParen, .comma, .assign]

def branch (nested : Parser Stmt) : Parser Stmt := do
  let first ← expect .ifWord
  let condition ← expression
  let span ← spanFrom first.span.start
  lineEnd
  let yes ← block nested
  if ← accept .elseWord then
    lineEnd
    return .branch condition yes (some (← block nested)) span
  else return .branch condition yes none span

/-- The variable of a loop, if it has one. -/
def loopTarget : Parser (Option String) := do
  if (← nextIs 0 [.word]) && (← nextIs 1 [.assign]) then
    let name ← expect .word
    let _ ← expect .assign
    return some name.text
  else return none

def loop (nested : Parser Stmt) : Parser Stmt := do
  let first ← expect .loopWord
  let target ← loopTarget
  let source ← expression
  let span ← spanFrom first.span.start
  lineEnd
  let body ← if ← nextIs 0 [.indent] then block nested else pure []
  return .loop target source body span

/-- A statement of at most `bound` tokens. -/
def statementOf : (bound : Nat) → Parser Stmt
  | 0 => complain [.ifWord, .loopWord, .word]
  | bound + 1 => do
    if ← nextIs 0 [.ifWord] then branch (statementOf bound)
    else if ← nextIs 0 [.loopWord] then loop (statementOf bound)
    else if ← nextIs 0 [.word] then
      let statement ← simpleStatement
      lineEnd
      return statement
    else complain [.ifWord, .loopWord, .word]

def statement : Parser Stmt := withBound statementOf

/-- An indented block of statements. -/
def statements : Parser (List Stmt) := block statement

end Offside.Parser
