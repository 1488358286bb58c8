/-! Finite numbers: as a signed integer times a power of two, read off the 64 bits that store them and put
back into bits; their remainders; and the numbers nearest to decimals. -/
namespace Offside.Number

/-- `± mantissa · 2 ^ exponent`. -/
structure Binary where
  negative : Bool
  mantissa : Nat
  exponent : Int
  deriving DecidableEq, Repr

namespace Binary

/-- The least exponent a finite number is stored with. -/
def minExponent : Int := -1074

/-- Reads the 64 bits of a finite number: one sign bit, eleven of exponent, fifty-two of fraction. -/
def ofBits (bits : UInt64) : Binary :=
  let n := bits.toNat
  let fraction := n % Nat.pow 2 52
  let biased := n / Nat.pow 2 52 % Nat.pow 2 11
  let negative := n / Nat.pow 2 63 == 1
  if biased = 0 then ⟨negative, fraction, minExponent⟩
  else ⟨negative, fraction + Nat.pow 2 52, minExponent + (biased - 1 : Nat)⟩

/-- The finite number `f`. -/
def ofFloat (f : Float) : Binary := ofBits f.toBits

/-- The bits of a number whose mantissa has at most 53 binary digits and whose exponent is in range.
The mantissa is moved up as far as it and the exponent allow, which changes no value. -/
def toBits (b : Binary) : UInt64 :=
  let shift := min (52 - b.mantissa.log2) (b.exponent - minExponent).toNat
  let mantissa := b.mantissa * Nat.pow 2 shift
  let biased := if mantissa < Nat.pow 2 52 then 0 else (b.exponent - minExponent).toNat - shift + 1
  UInt64.ofNat
    ((if b.negative then Nat.pow 2 63 else 0) + biased * Nat.pow 2 52 + mantissa % Nat.pow 2 52)

/-- The number itself. -/
def toFloat (b : Binary) : Float := Float.ofBits b.toBits

end Binary

/-! ### Remainders

The quotient of a division is cut off towards zero, and what is left is computed exactly. -/

/-- What is left of `x` after taking out `y` as often as it fits, with the sign of `x`. -/
def Binary.remainder (x y : Binary) : Binary :=
  let exponent := min x.exponent y.exponent
  let scaled (b : Binary) : Nat := b.mantissa * Nat.pow 2 (b.exponent - exponent).toNat
  ⟨x.negative, scaled x % scaled y, exponent⟩

/-- The remainder of `x` by `y`. There is none of an infinity or by zero; every finite number fits
into an infinite one. -/
def remainder (x y : Float) : Float :=
  if x.isNaN || y.isNaN || x.isInf || y == 0 then 0 / 0
  else if y.isInf then x
  else ((Binary.ofFloat x).remainder (Binary.ofFloat y)).toFloat

/-! ### Decimals -/

/-- `digits · 10 ^ exponent`, without a sign. -/
structure Decimal where
  digits : Nat
  exponent : Int
  deriving DecidableEq, Repr

namespace Decimal

/-- `mantissa · 2 ^ exponent` as a decimal: a half is five tenths. -/
def ofBinary (mantissa : Nat) (exponent : Int) : Decimal :=
  if 0 ≤ exponent then ⟨mantissa * Nat.pow 2 exponent.toNat, 0⟩
  else ⟨mantissa * Nat.pow 5 exponent.natAbs, exponent⟩

/-- The number nearest to a decimal. Far outside the range of numbers the digits do not matter: the
result is an infinity or zero. -/
def nearest (d : Decimal) : Float :=
  let magnitude := (Nat.toDigits 10 d.digits).length + d.exponent
  if d.digits = 0 || magnitude < -330 then 0
  else if 310 < magnitude then 1 / 0
  else Float.ofScientific d.digits (d.exponent < 0) d.exponent.natAbs

end Decimal

end Offside.Number
