/-!
# Binary64 — double-precision numbers, exactly

A finite number is `± significand · 2 ^ exponent`, held in the one form in which the format stores it: 53 significant
bits where the exponent allows them, fewer only at the least exponent.  Reading a decimal rounds once, to the nearest
number, a tie to the even significand; every comparison is made on the exact values.  Nothing here calls the machine's
floating point.
-/
namespace ConfigSchema

def twoTo (n : Nat) : Nat := Nat.pow 2 n

def tenTo (n : Nat) : Nat := Nat.pow 10 n

/-- A double-precision number, with the sign of zero. -/
inductive Binary64 where
  | finite (negative : Bool) (significand : Nat) (exponent : Int)
  | infinite (negative : Bool)
  | nan
  deriving DecidableEq

/-- The exact value `units · 2 ^ exponent`; one value has many such forms. -/
structure Dyad where
  units : Int
  exponent : Int

namespace Dyad

def ofInt (n : Int) : Dyad := ⟨n, 0⟩

/-- The units of `d` once its exponent is lowered to `e`. -/
def unitsAt (d : Dyad) (e : Int) : Int := d.units * twoTo (d.exponent - e).toNat

/-- The exponent at which two dyads have whole units both. -/
def common (a b : Dyad) : Int := min a.exponent b.exponent

def lt (a b : Dyad) : Bool := decide (a.unitsAt (a.common b) < b.unitsAt (a.common b))

def same (a b : Dyad) : Bool := decide (a.unitsAt (a.common b) = b.unitsAt (a.common b))

/-- Whether the value is a whole multiple of two. -/
def isEven (d : Dyad) : Bool :=
  let e := min d.exponent 0
  decide (d.unitsAt e % twoTo (1 - e).toNat = 0)

end Dyad

namespace Binary64

def precision : Nat := 53

/-- The exponent of the numbers nearest to zero. -/
def leastExponent : Int := -1074

/-- The exponent of the largest numbers. -/
def greatestExponent : Int := 971

def zero (negative : Bool) : Binary64 := .finite negative 0 leastExponent

/-- The quotient rounded to the nearest whole number, a half to the even one. -/
def roundDiv (num den : Nat) : Nat :=
  let quotient := num / den
  let twice := 2 * (num % den)
  if twice < den then quotient
  else if den < twice then quotient + 1
  else if quotient % 2 = 0 then quotient else quotient + 1

/-- A fraction in units of `2 ^ e`, again as a fraction. -/
def inUnitsOf (e : Int) (num den : Nat) : Nat × Nat :=
  (num * twoTo (-e).toNat, den * twoTo e.toNat)

/-- The exponent of the leading binary digit of a positive fraction. -/
def leadingExponent (num den : Nat) : Int :=
  let guess : Int := (num.log2 : Int) - (den.log2 : Int)
  let (n, d) := inUnitsOf guess num den
  if n < d then guess - 1 else guess

/-- The number nearest to a fraction. -/
def ofFraction (negative : Bool) (num den : Nat) : Binary64 :=
  if num = 0 then zero negative
  else
    let e := max leastExponent (leadingExponent num den - (precision - 1))
    let (n, d) := inUnitsOf e num den
    let rounded := roundDiv n d
    let (significand, exponent) := if rounded = twoTo precision then (twoTo (precision - 1), e + 1) else (rounded, e)
    if greatestExponent < exponent then .infinite negative else .finite negative significand exponent

/-- The number nearest to `digits · 10 ^ power`.  Powers that are beyond the format whatever the digits say are settled
by the position of the leading digit alone, so that they cost no long multiplication. -/
def ofDecimal (negative : Bool) (digits : Nat) (power : Int) : Binary64 :=
  if digits = 0 then zero negative
  else
    let magnitude : Int := ((Nat.toDigits 10 digits).length : Int) + power
    if 310 < magnitude then .infinite negative
    else if magnitude < -330 then zero negative
    else ofFraction negative (digits * tenTo power.toNat) (tenTo (-power).toNat)

/-- The exact value of a finite number. -/
def toDyad? : Binary64 → Option Dyad
  | .finite negative significand exponent => some ⟨if negative then -(significand : Int) else significand, exponent⟩
  | .infinite _ | .nan => none

end Binary64
end ConfigSchema
