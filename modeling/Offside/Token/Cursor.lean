import Offside.Token.Basic

/-! A place in a token sequence, and the errors of reading on from it. -/
namespace Offside

/-- Why tokens are not a program. -/
inductive ParseCause where
  /-- A token of some kind stands where only the listed kinds may. -/
  | unexpected (got : Kind) (expected : List Kind)
  /-- The tokens end where a kind was expected. -/
  | endOfTokens (expected : Kind)
  /-- The tokens end where an expression was expected. -/
  | endOfExpression
  /-- A colon promises returns and none follow. -/
  | noReturns
  | malformedNumber (text : String)
  /-- A quoted character without a character. -/
  | emptyCharacter
  deriving DecidableEq, Repr

def ParseCause.message : ParseCause → String
  | .unexpected got expected =>
    s!"got a {got.name}, expected one of " ++ ", ".intercalate (expected.map Kind.name)
  | .endOfTokens expected => s!"unexpected end of input, expected {expected.name}"
  | .endOfExpression => "unexpected end of input, expected an expression"
  | .noReturns => "expected return declarations after ':'"
  | .malformedNumber text => s!"malformed number {Text.quote text}"
  | .emptyCharacter => "empty character"

/-- A cause and the tokens that it concerns. -/
structure ParseError where
  cause : ParseCause
  span : Span
  deriving DecidableEq, Repr

def ParseError.text (e : ParseError) : String := s!"{e.cause.message}. {e.span.text}"

/-- A token sequence cut in two: what was taken, last first, and what is left. -/
structure Cursor where
  taken : List Token
  rest : List Token
  deriving DecidableEq, Repr

namespace Cursor

/-- Before the first token. -/
def ofTokens (tokens : List Token) : Cursor := ⟨[], tokens⟩

/-- The whole sequence. -/
def tokens (c : Cursor) : List Token := c.taken.reverse ++ c.rest

/-- Nothing is left. -/
def done (c : Cursor) : Bool := c.rest.isEmpty

/-- The token `offset` places after the next one; negative offsets reach back. -/
def peek? (c : Cursor) : (offset : Int) → Option Token
  | .ofNat n => c.rest[n]?
  | .negSucc n => c.taken[n]?

/-- The token there is of one of the kinds. -/
def peekIs (c : Cursor) (offset : Int) (kinds : List Kind) : Bool :=
  (c.peek? offset).any fun token => token.kind ∈ kinds

/-- Takes the next token if `accept` does. -/
def take? (c : Cursor) (accept : Token → Bool) : Option (Token × Cursor) :=
  match c.rest with
  | token :: rest => if accept token then some (token, ⟨token :: c.taken, rest⟩) else none
  | [] => none

/-- Takes the next token if it is of the kind. -/
def match? (c : Cursor) (kind : Kind) : Option (Token × Cursor) := c.take? (·.kind = kind)

/-- Takes the next token if it is of one of the kinds, which are tried in turn. -/
def matchFirst? (c : Cursor) : List Kind → Option (Token × Cursor)
  | [] => none
  | kind :: kinds =>
    match c.match? kind with
    | some taken => some taken
    | none => c.matchFirst? kinds

/-- The next token's span; at the end the last token's, and of no tokens at all the first place of a
file without a name. -/
def location (c : Cursor) : Span :=
  match c.rest, c.taken with
  | token :: _, _ => token.span
  | [], token :: _ => token.span
  | [], [] => .single ⟨1, 1, ""⟩

/-- The error of a next token that is of none of the kinds. -/
def complaint (c : Cursor) (kinds : List Kind) : ParseError :=
  match c.rest with
  | token :: _ => ⟨.unexpected token.kind kinds, token.span⟩
  | [] => ⟨.endOfTokens (kinds.headD .word), c.location⟩

/-- Takes the next token, which has to be of one of the kinds. -/
def expect (c : Cursor) (kinds : List Kind) : Except ParseError (Token × Cursor) :=
  match c.matchFirst? kinds with
  | some taken => .ok taken
  | none => .error (c.complaint kinds)

/-- The line on which the next token starts. -/
def line? (c : Cursor) : Option Nat := c.rest.head?.map (·.span.start.line)

/-- The column at which the next token starts. -/
def column? (c : Cursor) : Option Nat := c.rest.head?.map (·.span.start.column)

end Cursor

end Offside
