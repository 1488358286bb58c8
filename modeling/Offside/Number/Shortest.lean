import Offside.Number.Basic

/-! The shortest decimal that reads back as a given number.

Every real between the midpoints to a number's neighbours rounds to it, the midpoints included if
its mantissa is even. Of the decimals in that interval `Binary.shortest` takes one with the fewest
digits, and of those the nearest to the number; of two equally near, the one with an even last
digit. -/
namespace Offside.Number

/-- A positive number and the interval that rounds to it, over one denominator. -/
structure Neighbourhood where
  low : Nat
  value : Nat
  high : Nat
  denominator : Nat
  /-- The two ends round to the number too. -/
  closed : Bool

namespace Neighbourhood

/-- The interval of the nonzero number `b`. Below a power of two the neighbour is only half as far,
unless the exponent is already the least. -/
def ofBinary (b : Binary) : Neighbourhood :=
  let up := Nat.pow 2 b.exponent.toNat
  let below := if b.mantissa = Nat.pow 2 52 ∧ Binary.minExponent < b.exponent then 1 else 2
  { low := (4 * b.mantissa - below) * up
    value := 4 * b.mantissa * up
    high := (4 * b.mantissa + 2) * up
    denominator := 4 * Nat.pow 2 (-b.exponent).toNat
    closed := b.mantissa % 2 == 0 }

/-- In units of `10 ^ k`. -/
def scale (v : Neighbourhood) (k : Int) : Neighbourhood :=
  let down := Nat.pow 10 k.toNat
  let up := Nat.pow 10 (-k).toNat
  { low := v.low * up
    value := v.value * up
    high := v.high * up
    denominator := v.denominator * down
    closed := v.closed }

/-- The whole number `n` lies in the interval. -/
def holds (v : Neighbourhood) (n : Nat) : Bool :=
  let x := n * v.denominator
  if v.closed then v.low ≤ x && x ≤ v.high else v.low < x && x < v.high

/-- The whole number in the interval that is nearest to the value, if any is in it: one of the two
around the value. -/
def nearest? (v : Neighbourhood) : Option Nat :=
  let below := v.value / v.denominator
  let rest := v.value % v.denominator
  let belowIsNearer := 2 * rest < v.denominator ∨ 2 * rest = v.denominator ∧ below % 2 = 0
  match v.holds below, v.holds (below + 1) with
  | true, true => some (if belowIsNearer then below else below + 1)
  | true, false => some below
  | false, true => some (below + 1)
  | false, false => none

/-- How often a fraction below one has to be multiplied by ten to reach one. -/
def tens (numerator denominator : Nat) : (bound : Nat) → Nat
  | 0 => 0
  | bound + 1 =>
    if denominator ≤ numerator then 0 else tens (10 * numerator) denominator bound + 1

/-- The exponent of the value's first decimal digit. -/
def magnitude (v : Neighbourhood) : Int :=
  if v.denominator ≤ v.value then
    ((Nat.toDigits 10 (v.value / v.denominator)).length - 1 : Nat)
  else -(tens v.value v.denominator (v.denominator.log2 + 1) : Int)

end Neighbourhood

/-- A decimal without a zero at its end. -/
def Decimal.trim (d : Decimal) : Decimal :=
  if d.digits % 10 = 0 then ⟨d.digits / 10, d.exponent + 1⟩ else d

/-- The shortest decimal of the nonzero number `b`. Seventeen digits always suffice. One trim is
enough: a nearest whole number that ends in zero is found with one digit only, as ten. -/
def Binary.shortest (b : Binary) : Decimal :=
  let v := Neighbourhood.ofBinary b
  let top := v.magnitude
  let found := (List.range 17).findSome? fun (count : Nat) =>
    let k := top - count
    (v.scale k).nearest?.map fun digits => (⟨digits, k⟩ : Decimal)
  (found.getD ⟨0, 0⟩).trim

end Offside.Number
