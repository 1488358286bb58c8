/-! The kinds of tokens, their names and their numbers. -/
namespace Offside

/-- What a token is. A number without a kind of its own is still a kind, of no token that the
scanner makes. -/
inductive Kind where
  | word | number | text | character
  | assign | leftParen | rightParen | plus | minus | times | divide | modulo | dot | comma | colon
  | less | greater | not | greaterEqual | lessEqual | equal | notEqual | and | or
  | accessorWord | mutatorWord | implementsWord | classWord | interfaceWord | loopWord | ifWord
  | elseWord | trueWord | falseWord | newWord | sharedWord | privateWord | constructWord
  | newline | indent | dedent
  | other (code : Int)
  deriving DecidableEq, Repr

namespace Kind

/-- The named kinds, each at the place of its number. -/
def all : List Kind :=
  [.word, .number, .text, .character,
    .assign, .leftParen, .rightParen, .plus, .minus, .times, .divide, .modulo, .dot, .comma, .colon,
    .less, .greater, .not, .greaterEqual, .lessEqual, .equal, .notEqual, .and, .or,
    .accessorWord, .mutatorWord, .implementsWord, .classWord, .interfaceWord, .loopWord, .ifWord,
    .elseWord, .trueWord, .falseWord, .newWord, .sharedWord, .privateWord, .constructWord,
    .newline, .indent, .dedent]

def name : Kind → String
  | .word => "WORD"
  | .number => "NUMBER"
  | .text => "QUOTEDSTRING"
  | .character => "QUOTEDCHARACTER"
  | .assign => "ASSIGN"
  | .leftParen => "LPAREN"
  | .rightParen => "RPAREN"
  | .plus => "PLUS"
  | .minus => "MINUS"
  | .times => "TIMES"
  | .divide => "DIVIDE"
  | .modulo => "MODULO"
  | .dot => "DOT"
  | .comma => "COMMA"
  | .colon => "COLON"
  | .less => "LESSTHAN"
  | .greater => "GREATERTHAN"
  | .not => "NOT"
  | .greaterEqual => "GREATERTHANEQUAL"
  | .lessEqual => "LESSTHANEQUAL"
  | .equal => "EQUAL"
  | .notEqual => "NOTEQUAL"
  | .and => "AND"
  | .or => "OR"
  | .accessorWord => "ACCESSOR"
  | .mutatorWord => "MUTATOR"
  | .implementsWord => "IMPLEMENTS"
  | .classWord => "CLASS"
  | .interfaceWord => "INTERFACE"
  | .loopWord => "LOOP"
  | .ifWord => "IF"
  | .elseWord => "ELSE"
  | .trueWord => "TRUE"
  | .falseWord => "FALSE"
  | .newWord => "NEW"
  | .sharedWord => "SHARED"
  | .privateWord => "PRIVATE"
  | .constructWord => "CONSTRUCT"
  | .newline => "NEWLINE"
  | .indent => "INDENT"
  | .dedent => "DEDENT"
  | .other code => s!"TokenKind({code})"

/-- The kind with a number. -/
def ofCode (code : Int) : Kind :=
  if 0 ≤ code then (all[code.toNat]?).getD (.other code) else .other code

/-- The named kind with a name. -/
def ofName? (name : String) : Option Kind := all.find? fun kind => kind.name = name

/-- The kind that a word has for being reserved. -/
def reserved? : String → Option Kind
  | "accessor" => some .accessorWord
  | "mutator" => some .mutatorWord
  | "implements" => some .implementsWord
  | "class" => some .classWord
  | "interface" => some .interfaceWord
  | "loop" => some .loopWord
  | "if" => some .ifWord
  | "else" => some .elseWord
  | "true" => some .trueWord
  | "false" => some .falseWord
  | "new" => some .newWord
  | "shared" => some .sharedWord
  | "private" => some .privateWord
  | "construct" => some .constructWord
  | _ => none

/-- The symbols of one character. -/
def single? : Char → Option Kind
  | '=' => some .assign
  | '(' => some .leftParen
  | ')' => some .rightParen
  | '+' => some .plus
  | '-' => some .minus
  | '*' => some .times
  | '/' => some .divide
  | '%' => some .modulo
  | '.' => some .dot
  | ',' => some .comma
  | ':' => some .colon
  | '<' => some .less
  | '>' => some .greater
  | '!' => some .not
  | _ => none

/-- The symbols of two characters. -/
def pair? : Char → Char → Option Kind
  | '>', '=' => some .greaterEqual
  | '<', '=' => some .lessEqual
  | '=', '=' => some .equal
  | '!', '=' => some .notEqual
  | '&', '&' => some .and
  | '|', '|' => some .or
  | _, _ => none

end Kind

end Offside
