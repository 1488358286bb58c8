import Offside.Program.Basic
import Offside.Program.Print
import Offside.Token.Cursor

/-! Reading from a token cursor: the steps and the repetitions that the grammar is written with.

A repetition is bounded by the number of tokens that there are. Each of its rounds takes at least
one, so the bound is reached only where nothing is left, and there it gives the answer that another
round would give. -/
namespace Offside

/-- What the reader met, in the order it met it. -/
inductive Milestone where
  | interface (name : String)
  | cls (name : String) (interfaces : List String)
  | method (header : Header)

def Milestone.print : Milestone → String
  | .interface name => s!"interface {name}"
  | .cls name interfaces => s!"class {name} implements [" ++ " ".intercalate interfaces ++ "]"
  | .method header => s!"method {header.print}"

/-- Where reading stands, and the milestones it passed, last first. -/
structure Reading where
  cursor : Cursor
  passed : List Milestone
  /-- How many tokens there are, those taken included. -/
  count : Nat

/-- Before the first token. -/
def Reading.ofTokens (tokens : List Token) : Reading := ⟨.ofTokens tokens, [], tokens.length⟩

/-- Reads something, or fails where it stands. -/
abbrev Parser := EStateM ParseError Reading

namespace Parser

variable {α : Type}

/-! ### Single tokens -/

def cursor : Parser Cursor := do return (← get).cursor

def moveTo (c : Cursor) : Parser Unit := modify fun s => { s with cursor := c }

def passing (m : Milestone) : Parser Unit := modify fun s => { s with passed := m :: s.passed }

/-- The token some places on is of one of the kinds. -/
def nextIs (offset : Int) (kinds : List Kind) : Parser Bool := do
  return (← cursor).peekIs offset kinds

/-- Fails because the next token is of none of the kinds. -/
def complain (kinds : List Kind) : Parser α := do throw ((← cursor).complaint kinds)

/-- Takes the next token, which has to be of one of the kinds. -/
def expectAny (kinds : List Kind) : Parser Token := do
  match (← cursor).expect kinds with
  | .ok (token, c) => moveTo c; return token
  | .error e => throw e

/-- Takes the next token, which has to be of the kind. -/
def expect (kind : Kind) : Parser Token := expectAny [kind]

/-- Takes the next token if it is of the kind, and says whether it was. -/
def accept (kind : Kind) : Parser Bool := do
  match (← cursor).match? kind with
  | some (_, c) => moveTo c; return true
  | none => return false

/-- From a place to the end of the last token taken. -/
def spanFrom (start : Position) : Parser Span := do
  match (← cursor).peek? (-1) with
  | some last => return ⟨start, last.span.stop⟩
  | none => return .single start

/-- Where the next token starts. -/
def position : Parser Position := do return (← cursor).location.start

/-! ### Repetitions -/

/-- Hands over the number of tokens. -/
def withBound (p : Nat → Parser α) : Parser α := do p (← get).count

/-- As many tokens of the kind as there are; how many they were. -/
def countOf (kind : Kind) : (bound : Nat) → Parser Nat
  | 0 => return 0
  | bound + 1 => do
    if ← accept kind then return (← countOf kind bound) + 1 else return 0

def skipNewlines : Parser Unit := do
  let _ ← withBound (countOf .newline)

/-- A line end, and any that follow it. -/
def lineEnd : Parser Unit := do
  let _ ← expect .newline
  skipNewlines

/-- More items, each after a separator. -/
def afterSeparators (separator : Kind) (item : Parser α) : (bound : Nat) → Parser (List α)
  | 0 => return []
  | bound + 1 => do
    if ← accept separator then
      let first ← item
      return first :: (← afterSeparators separator item bound)
    else return []

/-- One item or more, with separators between them. -/
def separated (separator : Kind) (item : Parser α) : Parser (List α) := do
  let first ← item
  return first :: (← withBound (afterSeparators separator item))

/-- Items up to a closing token, which is taken too. Lines may be blank between them. -/
def untilDedent (item : Parser α) : (bound : Nat) → Parser (List α)
  | 0 => do return [← item]
  | bound + 1 => do
    skipNewlines
    if ← accept .dedent then return []
    else
      let first ← item
      return first :: (← untilDedent item bound)

/-- An indented block of items. -/
def block (item : Parser α) : Parser (List α) := do
  let _ ← expect .indent
  withBound (untilDedent item)

end Parser

end Offside
