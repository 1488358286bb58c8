import Offside.Number.Read
import Offside.Number.Shortest

/-! Numbers as text: how a program spells a literal, and how the console shows a value. -/
namespace Offside.Number

/-- The digits of a decimal. -/
def Decimal.digitText (d : Decimal) : List Char := Nat.toDigits 10 d.digits

/-- A decimal written out without an exponent. -/
def Decimal.positional (d : Decimal) : List Char :=
  let digits := d.digitText
  let zeros := List.replicate (-(digits.length + d.exponent)).toNat '0'
  if 0 ≤ d.exponent then digits ++ List.replicate d.exponent.toNat '0'
  else if 0 < digits.length + d.exponent then
    let whole := (digits.length + d.exponent).toNat
    digits.take whole ++ '.' :: digits.drop whole
  else '0' :: '.' :: zeros ++ digits

/-- An exponent with its sign and at least two digits. -/
def paddedExponent (exponent : Int) : List Char :=
  let digits := Nat.toDigits 10 exponent.natAbs
  (if exponent < 0 then '-' else '+') :: (if digits.length < 2 then '0' :: digits else digits)

/-- A decimal with one digit before the point, the others after it, and an exponent. There is no point if
there are no others. -/
def Decimal.scientific (d : Decimal) : List Char :=
  let digits := d.digitText
  let fraction := if digits.length ≤ 1 then [] else '.' :: digits.drop 1
  digits.take 1 ++ fraction ++ 'E' :: paddedExponent (digits.length - 1 + d.exponent)

/-- Adds a fractional part to a number that has none. -/
def withFraction (text : List Char) : List Char :=
  if '.' ∈ text then text else text ++ ['.', '0']

/-- Adds a fractional part to what stands before the exponent, if that has none, and takes the plus and
the zeros from the exponent. -/
def withPlainExponent (text : List Char) : List Char :=
  let mantissa := text.takeWhile (· != 'E')
  let exponent := (text.dropWhile (· != 'E')).drop 1
  withFraction mantissa ++ 'E' :: (toString ((integer? exponent).getD 0)).toList

/-- The shortest decimal of a finite number, zero included. -/
def Binary.decimal (b : Binary) : Decimal :=
  if b.mantissa = 0 then ⟨0, 0⟩ else b.shortest

/-- Puts the sign in front. -/
def signed (negative : Bool) (text : List Char) : List Char :=
  if negative then '-' :: text else text

/-- The literal that stands for a number: its shortest digits, without an exponent. -/
def literal (f : Float) : String :=
  if f.isNaN then "NaN"
  else if f.isInf then (if f < 0 then "-Inf" else "+Inf")
  else
    let b := Binary.ofFloat f
    String.ofList (signed b.negative b.decimal.positional)

/-- A number as the console shows it: its shortest digits, always with a fractional part, and with
an exponent outside `[0.001, 10000000)`. -/
def console (f : Float) : String :=
  if f.isNaN then "NaN"
  else if f.isInf then (if f < 0 then "-Infinity" else "Infinity")
  else
    let b := Binary.ofFloat f
    let size := f.abs
    if size == 0 || (0.001 ≤ size && size < 10000000) then
      String.ofList (withFraction (signed b.negative b.decimal.positional))
    else String.ofList (withPlainExponent (signed b.negative b.decimal.scientific))

end Offside.Number
