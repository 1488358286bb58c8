import Offside.Text.Classes

/-! Texts: the lines of a text, its ends without white space, and the text that bytes encode. -/
namespace Offside.Text

/-- The lines of a text, without their ends. A line ends at a line feed, with or without a carriage
return before it; the last one may just end with the text. -/
def linesFrom : (line : List Char) → List Char → List (List Char)
  | [], [] => []
  | line, [] => [line.reverse]
  | line, '\r' :: '\n' :: rest => line.reverse :: linesFrom [] rest
  | line, '\n' :: rest => line.reverse :: linesFrom [] rest
  | line, c :: rest => linesFrom (c :: line) rest

def lines (text : String) : List String := (linesFrom [] text.toList).map String.ofList

/-- Lines, each with its end. -/
def unlines (lines : List String) : String := String.join (lines.map (· ++ "\n"))

/-- The characters without white space at either end. -/
def trimChars (cs : List Char) : List Char :=
  ((cs.dropWhile isBlank).reverse.dropWhile isBlank).reverse

/-- The text without white space at either end. -/
def trim (s : String) : String := String.ofList (trimChars s.toList)

/-! ### UTF-8

Bytes are read without failing: a byte that does not start a valid encoding stands for one replacement
character, and reading goes on at the byte after it. -/

/-- U+FFFD, which stands for what cannot be decoded. -/
def replacement : Char := '\uFFFD'

/-- The six low bits of a continuation byte. -/
def continuation? (b : UInt8) : Option Nat :=
  if 0x80 ≤ b ∧ b ≤ 0xBF then some (b.toNat - 0x80) else none

/-- The character that the byte `b`, with the bytes after it, encodes in its shortest form, and how
many of those bytes it takes. Surrogates are not characters. -/
def leadingChar? (b : UInt8) (rest : List UInt8) : Option (Char × Nat) :=
  let n := b.toNat
  if n < 0x80 then some (Char.ofNat n, 0)
  else if 0xC2 ≤ n ∧ n < 0xE0 then
    match (rest.take 1).map continuation? with
    | [some x] => some (Char.ofNat ((n - 0xC0) * 0x40 + x), 1)
    | _ => none
  else if 0xE0 ≤ n ∧ n < 0xF0 then
    match (rest.take 2).map continuation? with
    | [some x, some y] =>
      let code := ((n - 0xE0) * 0x40 + x) * 0x40 + y
      if 0x800 ≤ code ∧ code.isValidChar then some (Char.ofNat code, 2) else none
    | _ => none
  else if 0xF0 ≤ n ∧ n < 0xF5 then
    match (rest.take 3).map continuation? with
    | [some x, some y, some z] =>
      let code := (((n - 0xF0) * 0x40 + x) * 0x40 + y) * 0x40 + z
      if 0x10000 ≤ code ∧ code.isValidChar then some (Char.ofNat code, 3) else none
    | _ => none
  else none

/-- Decodes the bytes after skipping `skip` of them, which an earlier character took. -/
def decodeFrom : (skip : Nat) → List UInt8 → List Char
  | _, [] => []
  | skip + 1, _ :: rest => decodeFrom skip rest
  | 0, b :: rest =>
    match leadingChar? b rest with
    | some (c, used) => c :: decodeFrom used rest
    | none => replacement :: decodeFrom 0 rest

/-- The characters that the bytes encode. -/
def decodeUtf8 (bytes : List UInt8) : List Char := decodeFrom 0 bytes

end Offside.Text
