import ConfigSchema.Number.Binary
/-!
# Shortest — the fewest digits that read back

The reals that round to a given double-precision number form an interval around it.  For 1, 2, … 17 digits the two
decimals beside the value are tried; the first count at which one of them lies in the interval gives the digits.  If both
do, the nearer one is taken, and of two equally near the even one.
-/
namespace ConfigSchema

/-- The positive decimal `digits · 10 ^ power`. -/
structure Decimal where
  digits : Nat
  power : Int
  deriving DecidableEq

namespace Shortest

/-- The reals that round to `significand · 2 ^ exponent`, in quarters of its last binary digit.  Below a power of two the
neighbour is twice as near.  The ends belong to the interval when the significand is even. -/
structure Interval where
  low : Nat
  value : Nat
  high : Nat
  closed : Bool

def Interval.around (significand : Nat) (exponent : Int) : Interval :=
  let narrow := significand = twoTo (Binary64.precision - 1) ∧ Binary64.leastExponent < exponent
  { low := 4 * significand - (if narrow then 1 else 2)
    value := 4 * significand
    high := 4 * significand + 2
    closed := significand % 2 = 0 }

/-- How many decimal digits stand before the point; zero or less when the value is below one. -/
def pointPosition (significand : Nat) (exponent : Int) : Int :=
  let num := significand * twoTo exponent.toNat
  let den := twoTo (-exponent).toNat
  if den ≤ num then (Nat.toDigits 10 (num / den)).length
  else 1 - ((Nat.toDigits 10 (den / num)).length : Int)

/-- The best decimal with at most `count` digits, if one reads back. -/
def withDigits? (i : Interval) (exponent position : Int) (count : Nat) : Option Decimal :=
  let power := position - count
  let quarter := exponent - 2
  let num := twoTo quarter.toNat * tenTo (-power).toNat
  let den := twoTo (-quarter).toNat * tenTo power.toNat
  let below := i.value * num / den
  let inside (c : Nat) : Bool :=
    if i.closed then i.low * num ≤ c * den && c * den ≤ i.high * num
    else i.low * num < c * den && c * den < i.high * num
  let gapBelow := i.value * num - below * den
  let gapAbove := (below + 1) * den - i.value * num
  let nearer := if gapBelow < gapAbove then below else if gapAbove < gapBelow then below + 1
    else if below % 2 = 0 then below else below + 1
  let farther := if nearer = below then below + 1 else below
  if inside nearer then some ⟨nearer, power⟩
  else if inside farther then some ⟨farther, power⟩ else none

/-- Seventeen digits always read back. -/
def mostDigits : Nat := 17

/-- The shortest decimal that reads back as a positive finite number; should no short one do, all of its digits. -/
def decimal (significand : Nat) (exponent : Int) : Decimal :=
  let i := Interval.around significand exponent
  let position := pointPosition significand exponent
  match (List.range mostDigits).findSome? fun n => withDigits? i exponent position (n + 1) with
  | some d => d
  | none => ⟨significand * twoTo exponent.toNat * Nat.pow 5 (-exponent).toNat, -((-exponent).toNat : Int)⟩

end Shortest
end ConfigSchema
