import Offside.Source
import Offside.Text.Quoted
import Offside.Token.Kind

/-! Tokens, and the errors that keep a text from being cut into them. -/
namespace Offside

/-- One lexeme. Line ends and changes of indentation have no text. -/
structure Token where
  kind : Kind
  span : Span
  text : String
  deriving DecidableEq, Repr

namespace Token

/-- The kind, with the text after it if there is one. -/
def label (t : Token) : String :=
  if t.text = "" then t.kind.name else s!"{t.kind.name}({t.text})"

/-- The token and where it starts, as one line of a listing. -/
def listing (t : Token) : String := s!"{t.span.start.text}\t{t.label}\n"

end Token

/-- Why a text is not a sequence of tokens. -/
inductive LexCause where
  | unknownCharacter (c : Char)
  | unterminatedString
  | unterminatedCharacter
  | unterminatedComment
  deriving DecidableEq, Repr

def LexCause.message : LexCause → String
  | .unknownCharacter c => s!"unknown character {Text.quoteChar c}"
  | .unterminatedString => "unterminated string"
  | .unterminatedCharacter => "unterminated character"
  | .unterminatedComment => "unterminated comment"

/-- A cause and the place where the offending lexeme starts. -/
structure LexError where
  cause : LexCause
  position : Position
  deriving DecidableEq, Repr

def LexError.text (e : LexError) : String := s!"{e.cause.message}. {e.position.text}"

end Offside
