import ConfigSchema.Number.Shortest
/-!
# Layout — how a number is spelled

The digits of a number are one question and their layout another: where positional spelling ends, what marks a fraction,
how an exponent looks, and how the values that have no digits are named.
-/
namespace ConfigSchema

/-- A layout of double-precision numbers. -/
structure Layout where
  /-- Exponents of the leading digit from here on are written positionally. -/
  positionalFrom : Int
  /-- The first exponent that is no longer written positionally. -/
  positionalTo : Int
  /-- The least count of digits of a written exponent. -/
  exponentDigits : Nat
  infinity : String
  nan : String

namespace Layout

/-- Documents and messages: positional from `0.0001` up to sixteen digits before the point, else `1.5e-07`. -/
def message : Layout := ⟨-4, 16, 2, "inf", "nan"⟩

/-- In a document the values without digits have names of their own. -/
def document : Layout := { message with infinity := "Infinity", nan := "NaN" }

/-- Digits without the zeros that end them. -/
def significantDigits (n : Nat) : List Char :=
  ((Nat.toDigits 10 n).reverse.dropWhile (· = '0')).reverse

/-- A written exponent, with its sign and at least the layout's count of digits. -/
def exponentText (l : Layout) (e : Int) : List Char :=
  let digits := Nat.toDigits 10 e.natAbs
  'e' :: (if e < 0 then '-' else '+') :: (List.replicate (l.exponentDigits - digits.length) '0' ++ digits)

/-- Positional spelling, with at least one digit on each side of the point. -/
def positional (digits : List Char) (e : Int) : List Char :=
  if e < 0 then '0' :: '.' :: (List.replicate (-e - 1).toNat '0' ++ digits)
  else
    let whole := (e + 1).toNat
    if digits.length ≤ whole then digits ++ List.replicate (whole - digits.length) '0' ++ ['.', '0']
    else digits.take whole ++ '.' :: digits.drop whole

/-- Spelling with an exponent; a single digit has no point. -/
def scientific (l : Layout) (digits : List Char) (e : Int) : List Char :=
  match digits with
  | [] => []
  | [d] => d :: l.exponentText e
  | d :: ds => d :: '.' :: (ds ++ l.exponentText e)

def decimalText (l : Layout) (d : Decimal) : List Char :=
  let digits := significantDigits d.digits
  let e := ((Nat.toDigits 10 d.digits).length : Int) + d.power - 1
  if l.positionalFrom ≤ e ∧ e < l.positionalTo then positional digits e else l.scientific digits e

def text (l : Layout) : Binary64 → String
  | .nan => l.nan
  | .infinite negative => if negative then "-" ++ l.infinity else l.infinity
  | .finite negative significand exponent =>
    let magnitude := if significand = 0 then ['0', '.', '0'] else l.decimalText (Shortest.decimal significand exponent)
    String.ofList (if negative then '-' :: magnitude else magnitude)

end Layout
end ConfigSchema
