import Offside.Number.Basic

/-! Reading a number from its text.

A number is an optional sign, digits with at most one point among them, and an exponent. Its digits
are decimal, and then the exponent is one of ten and may be missing, or, after `0x`, hexadecimal,
and then it is one of two. Single underscores may stand between digits. `inf`, `infinity` and `nan`
are numbers as well, whatever the case of their letters. -/
namespace Offside.Number

/-- The digits `0` to `9`. -/
def isDigit (c : Char) : Bool := '0' ≤ c && c ≤ '9'

/-- How the digits of a number are written. -/
inductive Radix where
  | ten | sixteen
  deriving DecidableEq, Repr

namespace Radix

def base : Radix → Nat
  | ten => 10
  | sixteen => 16

def isDigit : Radix → Char → Bool
  | ten, c => Number.isDigit c
  | sixteen, c => Number.isDigit c || 'a' ≤ c.toLower && c.toLower ≤ 'f'

/-- What stands in front of an exponent, in lower case. -/
def mark : Radix → Char
  | ten => 'e'
  | sixteen => 'p'

/-- A digit or an underscore. -/
def isDigitOrGap (r : Radix) (c : Char) : Bool := r.isDigit c || c == '_'

/-- What one digit counts. -/
def digitValue (c : Char) : Nat :=
  if Number.isDigit c then c.toNat - '0'.toNat else c.toLower.toNat - 'a'.toNat + 10

/-- The value of a run of digits; underscores count for nothing. -/
def value (r : Radix) (cs : List Char) : Nat :=
  (cs.filter r.isDigit).foldl (fun n c => r.base * n + digitValue c) 0

end Radix

/-- Splits off a leading sign; the flag says that it was a minus. -/
def splitSign : List Char → Bool × List Char
  | '-' :: rest => (true, rest)
  | '+' :: rest => (false, rest)
  | cs => (false, cs)

/-- Splits off what says that the digits are hexadecimal. Something has to follow it. -/
def splitRadix : List Char → Radix × List Char
  | '0' :: x :: c :: rest =>
    if x.toLower = 'x' then (.sixteen, c :: rest) else (.ten, '0' :: x :: c :: rest)
  | cs => (.ten, cs)

/-- The integer that a text spells: digits, perhaps after a sign. -/
def integer? (cs : List Char) : Option Int :=
  let (negative, digits) := splitSign cs
  if !digits.isEmpty && digits.all isDigit then
    let size : Int := Radix.ten.value digits
    some (if negative then -size else size)
  else none

/-- The parts of an unsigned number's text. -/
structure Spelling where
  radix : Radix
  whole : List Char
  fraction : List Char
  exponent : Int

/-- An exponent that takes up all of `cs`. A missing one is zero, where it may be missing. -/
def exponent? (r : Radix) : List Char → Option Int
  | [] => if r = .ten then some 0 else none
  | mark :: rest =>
    let (negative, digits) := splitSign rest
    if mark.toLower = r.mark && digits.all Radix.ten.isDigitOrGap && digits.head?.any isDigit then
      let size : Int := Radix.ten.value digits
      some (if negative then -size else size)
    else none

/-- The parts of the text after the radix, if it has the form of a number. -/
def Spelling.ofChars? (r : Radix) (cs : List Char) : Option Spelling :=
  let whole := cs.takeWhile r.isDigitOrGap
  let rest := cs.dropWhile r.isDigitOrGap
  let (fraction, rest) := match rest with
    | '.' :: rest => (rest.takeWhile r.isDigitOrGap, rest.dropWhile r.isDigitOrGap)
    | rest => ([], rest)
  if (whole ++ fraction).any r.isDigit then
    (exponent? r rest).map fun exponent => ⟨r, whole, fraction, exponent⟩
  else none

/-- Every underscore stands between two digits. -/
def gapsInside (r : Radix) : (previous : Char) → List Char → Bool
  | previous, [] => previous != '_'
  | previous, c :: rest =>
    (c != '_' || r.isDigit previous) && (previous != '_' || r.isDigit c) && gapsInside r c rest

/-- The number nearest to what the text spells. -/
def Spelling.value (s : Spelling) : Float :=
  let digits := s.radix.value (s.whole ++ s.fraction)
  let places : Int := (s.fraction.filter s.radix.isDigit).length
  match s.radix with
  | .ten => Decimal.nearest ⟨digits, s.exponent - places⟩
  | .sixteen =>
    let exponent := s.exponent - 4 * places
    let magnitude := digits.log2 + exponent
    if magnitude < -1100 then 0
    else if 1100 < magnitude then (if digits = 0 then 0 else 1 / 0)
    else (Decimal.ofBinary digits exponent).nearest

/-- An infinity or the number that is none, by name. -/
def named? (cs : List Char) : Option Float :=
  let (negative, name) := splitSign cs
  let infinity : Float := if negative then -1 / 0 else 1 / 0
  match String.ofList (name.map Char.toLower) with
  | "inf" | "infinity" => some infinity
  | "nan" => if name.length = cs.length then some (0 / 0) else none
  | _ => none

/-- The number that a text spells. There is none if the text does not have the form of a number, or
if it spells one too large to be told from an infinity. -/
def read? (text : String) : Option Float :=
  let (negative, body) := splitSign text.toList
  let (radix, body) := splitRadix body
  match Spelling.ofChars? radix body with
  | some spelling =>
    let value := spelling.value
    -- An underscore may follow the mark of the radix, but nothing else that is no digit.
    let before := if radix = .sixteen then '0' else '.'
    if gapsInside radix before body && !value.isInf then
      some (if negative then -value else value)
    else none
  | none => named? text.toList

end Offside.Number
