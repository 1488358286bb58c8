import Offside.Text.Classes
import Offside.Token.Basic

/-! Cutting a source text into tokens.

A `Scanner` reads one character at a time. What it has begun and not ended is its `Mode`: a word, a
number, a symbol that may be the first half of a pair, a quoted text, a comment, or the margin of a
line. A character that cannot belong to what was begun ends it and is then read afresh.

Indentation becomes tokens: the scanner keeps the levels that are open, and a line whose margin is
deeper than the innermost opens a level, one whose margin is shallower closes all deeper ones.
Blank lines have no say in this, and neither has the first line. -/
namespace Offside

/-- The margin of a line as far as it was read: the levels in it, and the spaces that do not make up
a level yet. A tab is a level, and so is every fourth space, wherever the spaces stand. -/
structure Margin where
  level : Nat
  spaces : Nat
  deriving DecidableEq, Repr

namespace Margin

def empty : Margin := ⟨0, 0⟩

def tab (m : Margin) : Margin := { m with level := m.level + 1 }

def space (m : Margin) : Margin :=
  if m.spaces = 3 then ⟨m.level + 1, 0⟩ else { m with spaces := m.spaces + 1 }

end Margin

/-- What a scanner has begun. Characters are kept last first; `start` is where the lexeme starts. -/
inductive Mode where
  /-- Nothing. -/
  | gap
  | margin (m : Margin)
  | word (start : Position) (letters : List Char)
  | number (start : Position) (digits : List Char) (point : Bool)
  | symbol (start : Position) (c : Char)
  | text (start : Position) (chars : List Char)
  /-- The opening quote of a character. -/
  | quote (start : Position)
  /-- A quoted character without its closing quote. -/
  | character (start : Position) (c : Char)
  /-- A comment, and how many are open inside it. -/
  | comment (start : Position) (inner : Nat)
  /-- Nothing more is read. -/
  | failed (error : LexError)
  deriving DecidableEq, Repr

/-- What has been read so far. -/
structure Scanner where
  /-- The place of the last character read. -/
  here : Position
  /-- The open levels of indentation, innermost first. -/
  levels : List Nat
  /-- The tokens made so far, last first. -/
  tokens : List Token
  mode : Mode
  deriving DecidableEq, Repr

namespace Scanner

/-- Before the first character of a file. -/
def start (file : String) : Scanner := ⟨⟨1, 0, file⟩, [], [], .gap⟩

/-- Adds a token. -/
def emit (s : Scanner) (kind : Kind) (span : Span) (text : String) : Scanner :=
  { s with tokens := ⟨kind, span, text⟩ :: s.tokens }

def fail (s : Scanner) (cause : LexCause) (position : Position) : Scanner :=
  { s with mode := .failed ⟨cause, position⟩ }

/-! ### Indentation -/

/-- Closes every level that `close` says, innermost first, as long as it says so. -/
def closeLevels (place : Position) (close : Nat → Bool) :
    List Nat → List Token → List Nat × List Token
  | [], tokens => ([], tokens)
  | level :: outer, tokens =>
    if close level then closeLevels place close outer (⟨.dedent, .single place, ""⟩ :: tokens)
    else (level :: outer, tokens)

/-- Brings the open levels in line with a line that starts at `level`. -/
def indentTo (s : Scanner) (level : Nat) : Scanner :=
  let place := s.here.right
  if s.levels.headD 0 < level then
    { s.emit .indent (.single place) "" with levels := level :: s.levels }
  else
    let (levels, tokens) := closeLevels place (level < ·) s.levels s.tokens
    { s with levels, tokens }

/-! ### Ending what was begun -/

/-- The text that was read last first. -/
def spelled (chars : List Char) : String := String.ofList chars.reverse

/-- Ends a word. -/
def endWord (s : Scanner) (start : Position) (letters : List Char) : Scanner :=
  let text := spelled letters
  { s.emit ((Kind.reserved? text).getD .word) ⟨start, s.here⟩ text with mode := .gap }

/-- Ends a number. -/
def endNumber (s : Scanner) (start : Position) (digits : List Char) : Scanner :=
  { s.emit .number ⟨start, s.here⟩ (spelled digits) with mode := .gap }

/-- Ends a symbol that turned out to stand alone. -/
def endSymbol (s : Scanner) (start : Position) (c : Char) : Scanner :=
  match Kind.single? c with
  | some kind => { s.emit kind (.single start) c.toString with mode := .gap }
  | none => s.fail (.unknownCharacter c) start

/-! ### Reading a character -/

/-- Reads a character that begins something. -/
def begin (s : Scanner) (c : Char) : Scanner :=
  match s.mode with
  | .failed _ => s
  | _ =>
    let place := s.here.right
    if c = '\n' then
      { s.emit .newline (.single place) "" with here := place.nextLine, mode := .margin .empty }
    else
      let mode :=
        if c = '\x7b' then .comment place 0
        else if c = '"' then .text place []
        else if c = '\'' then .quote place
        else if Text.isLetter c then .word place [c]
        else if Text.isDecimalDigit c then .number place [c] false
        else if Text.isBlank c then .gap
        else .symbol place c
      { s with here := place, mode }

/-- The place of `c`, read after `p`, as the last character read. -/
def after (p : Position) (c : Char) : Position := if c = '\n' then p.right.nextLine else p.right

/-- Takes a character into what was begun. -/
def take (s : Scanner) (c : Char) (mode : Mode) : Scanner := { s with here := after s.here c, mode }

/-- Reads one character. -/
def feed (s : Scanner) (c : Char) : Scanner :=
  match s.mode with
  | .failed _ => s
  | .gap => s.begin c
  | .margin m =>
    match c with
    | '\t' => s.take c (.margin m.tab)
    | ' ' => s.take c (.margin m.space)
    | '\r' => s.take c (.margin m)
    | '\n' => s.take c (.margin .empty)
    | _ => (s.indentTo m.level).begin c
  | .word start letters =>
    if Text.isLetter c then s.take c (.word start (c :: letters))
    else (s.endWord start letters).begin c
  | .number start digits point =>
    if Text.isDecimalDigit c then s.take c (.number start (c :: digits) point)
    else if c = '.' ∧ !point then s.take c (.number start (c :: digits) true)
    else (s.endNumber start digits).begin c
  | .symbol start first =>
    match Kind.pair? first c with
    | some kind =>
      (s.take c .gap).emit kind ⟨start, s.here.right⟩ (String.ofList [first, c])
    | none => (s.endSymbol start first).begin c
  | .text start chars =>
    if c = '"' then (s.take c .gap).emit .text ⟨start, s.here.right⟩ (spelled chars)
    else s.take c (.text start (c :: chars))
  | .quote start => s.take c (.character start c)
  | .character start quoted =>
    if c = '\'' then (s.take c .gap).emit .character ⟨start, s.here.right⟩ quoted.toString
    else s.fail .unterminatedCharacter start
  | .comment start inner =>
    match c, inner with
    | '\x7b', _ => s.take c (.comment start (inner + 1))
    | '\x7d', 0 => s.take c .gap
    | '\x7d', inner + 1 => s.take c (.comment start inner)
    | _, _ => s.take c (.comment start inner)

/-- Ends, at the end of the text, what was begun. -/
def close (s : Scanner) : Scanner :=
  match s.mode with
  | .word start letters => s.endWord start letters
  | .number start digits _ => s.endNumber start digits
  | .symbol start c => s.endSymbol start c
  | .text start _ => s.fail .unterminatedString start
  | .quote start => s.fail .unterminatedCharacter start
  | .character start _ => s.fail .unterminatedCharacter start
  | .comment start _ => s.fail .unterminatedComment start
  | .gap | .margin _ | .failed _ => s

/-- Ends the last line and closes every open level. -/
def settle (s : Scanner) : Scanner :=
  match s.mode with
  | .failed _ => s
  | _ =>
    let place := s.here.right
    let s := match s.tokens with
      | last :: _ => if last.kind = Kind.newline then s else s.emit .newline (.single place) ""
      | [] => s
    let (levels, tokens) := closeLevels place (fun _ => true) s.levels s.tokens
    { s with levels, tokens }

/-- Reads characters one after the other. -/
def feedAll (s : Scanner) (cs : List Char) : Scanner := cs.foldl feed s

/-- What was read of a whole text, its end included. -/
def scan (file : String) (source : List Char) : Scanner := ((start file).feedAll source).close.settle

/-- The tokens made, in order. -/
def made (s : Scanner) : List Token := s.tokens.reverse

/-- The tokens, unless something went wrong. -/
def result (s : Scanner) : Except LexError (List Token) :=
  match s.mode with
  | .failed error => .error error
  | _ => .ok s.made

end Scanner

/-- The tokens of a source text. -/
def lex (file : String) (source : List Char) : Except LexError (List Token) :=
  (Scanner.scan file source).result

end Offside
