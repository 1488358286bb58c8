import Offside.Program.Parser.Statement

/-! Reading interfaces, classes and whole programs. -/
namespace Offside.Parser

def declaration : Parser Decl := do
  let type ← expect .word
  let name ← expect .word
  return ⟨type.text, name.text⟩

/-- Declarations with commas between them, or none. -/
def declarations : Parser (List Decl) := do
  if ← nextIs 0 [.word] then separated .comma declaration else return []

def parameters : Parser (List Decl) := do
  let _ ← expect .leftParen
  let decls ← declarations
  let _ ← expect .rightParen
  return decls

def header : Parser Header := do
  let name ← expect .word
  let parameters ← parameters
  if ← accept .colon then
    let returns ← declarations
    if returns.isEmpty then throw ⟨.noReturns, (← cursor).location⟩
    return ⟨name.text, parameters, returns⟩
  else return ⟨name.text, parameters, []⟩

def interfaceDecl : Parser InterfaceDecl := do
  let first ← expect .interfaceWord
  let name ← expect .word
  let span ← spanFrom first.span.start
  passing (.interface name.text)
  lineEnd
  let methods ← block (do
    let method ← header
    lineEnd
    return method)
  return ⟨name.text, methods, span⟩

/-! ### The parts of a class -/

/-- A line of a body, as what it adds to the local variables and to the statements: one of either. -/
def bodyItem : Parser (List Decl × List Stmt) := do
  if (← nextIs 0 [.word]) && (← nextIs 1 [.word]) then
    let decl ← declaration
    lineEnd
    return ([decl], [])
  else return ([], [← statement])

/-- An indented block of local variables and statements, in any order. -/
def body : Parser (List Decl × List Stmt) := do
  let items ← block bodyItem
  return (items.flatMap Prod.fst, items.flatMap Prod.snd)

/-- The body of an accessor or a mutator, if there is one. -/
def fieldBody (opener : Kind) : Parser (List Stmt) := do
  if ← accept opener then
    let _ ← expect .colon
    lineEnd
    let body ← statements
    skipNewlines
    return body
  else return []

def member : Parser Member := do
  let decl ← declaration
  lineEnd
  if ← accept .indent then
    skipNewlines
    let accessor ← fieldBody .accessorWord
    let mutator ← fieldBody .mutatorWord
    let _ ← expect .dedent
    return ⟨decl, accessor, mutator⟩
  else return ⟨decl, [], []⟩

def constructorDecl : Parser ConstructorDecl := do
  let first ← expect .constructWord
  let parameters ← parameters
  let span ← spanFrom first.span.start
  lineEnd
  let (locals, body) ← if ← nextIs 0 [.indent] then body else pure ([], [])
  return ⟨parameters, locals, body, span⟩

/-- Any number of the words in front of a method; which of them occur, `private` first. -/
def modifiers : (bound : Nat) → Parser (Bool × Bool)
  | 0 => return (false, false)
  | bound + 1 => do
    if ← accept .privateWord then return (true, (← modifiers bound).2)
    else if ← accept .sharedWord then return ((← modifiers bound).1, true)
    else return (false, false)

def methodDecl : Parser MethodDecl := do
  let start ← position
  let (isPrivate, isShared) ← withBound modifiers
  let header ← header
  let span ← spanFrom start
  passing (.method header)
  lineEnd
  let (locals, body) ← body
  return { header, isPrivate, isShared, locals, body, span }

/-- A part of a class, as what it adds to the fields, to the constructors and to the methods. -/
def classItem : Parser ClassBody := do
  if ← nextIs 0 [.constructWord] then return ([], [← constructorDecl], [])
  else if ← nextIs 0 [.sharedWord, .privateWord] then return ([], [], [← methodDecl])
  else if ← nextIs 0 [.word] then
    if ← nextIs 1 [.leftParen] then return ([], [], [← methodDecl])
    else if ← nextIs 1 [.word] then return ([← member], [], [])
    else
      let _ ← expect .word
      complain [.leftParen, .word]
  else complain [.constructWord, .sharedWord, .privateWord, .word, .dedent]

/-- The names after `implements`. -/
def implemented : Parser (List String) := do
  if ← accept .implementsWord then separated .comma (do return (← expect .word).text)
  else return []

def classDecl : Parser ClassDecl := do
  let first ← expect .classWord
  let name ← expect .word
  let interfaces ← implemented
  let span ← spanFrom first.span.start
  passing (.cls name.text interfaces)
  lineEnd
  let items ← block classItem
  return {
    name := name.text
    interfaces
    members := items.flatMap (·.1)
    constructors := items.flatMap (·.2.1)
    methods := items.flatMap (·.2.2)
    span }

/-! ### Programs -/

/-- An interface or a class, as a program of its own. -/
def programItem : Parser Program := do
  if ← nextIs 0 [.interfaceWord] then return ⟨[← interfaceDecl], []⟩
  else if ← nextIs 0 [.classWord] then return ⟨[], [← classDecl]⟩
  else complain [.classWord, .interfaceWord]

/-- Items up to the end of the tokens. -/
def programItems : (bound : Nat) → Parser (List Program)
  | 0 => return []
  | bound + 1 => do
    if (← cursor).done then return []
    else
      let first ← programItem
      skipNewlines
      return first :: (← programItems bound)

def program : Parser Program := do
  skipNewlines
  let items ← withBound programItems
  return ⟨items.flatMap Program.interfaces, items.flatMap Program.classes⟩

end Offside.Parser

namespace Offside

/-- What came of reading tokens as a program. -/
structure Parsed where
  program : Except ParseError Program
  /-- What was met on the way, in order, also on the way to an error. -/
  milestones : List Milestone
  /-- Where reading stopped. -/
  cursor : Cursor

/-- Reads tokens as a program. -/
def Parsed.ofTokens (tokens : List Token) : Parsed :=
  match Parser.program.run (.ofTokens tokens) with
  | .ok program s => ⟨.ok program, s.passed.reverse, s.cursor⟩
  | .error e s => ⟨.error e, s.passed.reverse, s.cursor⟩

/-- The program that the tokens are. -/
def parse (tokens : List Token) : Except ParseError Program := (Parsed.ofTokens tokens).program

end Offside
