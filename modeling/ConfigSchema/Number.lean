import ConfigSchema.Number.Layout
/-!
# Number — whole and double-precision numbers side by side

A document's number is a whole number of any size or a double-precision one, and keeps which of the two it was.  Order and
equality look at the exact values, so that no whole number is rounded before it is compared.
-/
namespace ConfigSchema

inductive Number where
  | whole (n : Int)
  | real (x : Binary64)
  deriving DecidableEq

namespace Number

/-- A number's position on the line of exact values with its two ends. -/
inductive Position where
  | belowAll
  | at (d : Dyad)
  | aboveAll

def Position.lt : Position → Position → Bool
  | .belowAll, .belowAll => false
  | .belowAll, _ => true
  | .at a, .at b => a.lt b
  | .at _, .aboveAll => true
  | .at _, .belowAll => false
  | .aboveAll, _ => false

def Position.same : Position → Position → Bool
  | .belowAll, .belowAll => true
  | .at a, .at b => a.same b
  | .aboveAll, .aboveAll => true
  | _, _ => false

/-- Not-a-number has no position. -/
def position? : Number → Option Position
  | .whole n => some (.at (.ofInt n))
  | .real .nan => none
  | .real (.infinite negative) => some (if negative then .belowAll else .aboveAll)
  | .real x => x.toDyad?.map .at

/-- Order of the exact values; nothing is below or above not-a-number. -/
def lt (a b : Number) : Bool :=
  match a.position?, b.position? with
  | some p, some q => p.lt q
  | _, _ => false

/-- Equality of the exact values, whatever the form; not-a-number is the same as itself only. -/
def same (a b : Number) : Bool :=
  match a.position?, b.position? with
  | some p, some q => p.same q
  | none, none => true
  | _, _ => false

/-- Whether half of the number is whole. -/
def isEven (a : Number) : Bool :=
  match a.position? with
  | some (.at d) => d.isEven
  | _ => false

def isZero (a : Number) : Bool := a.same (.whole 0)

/-- The number's text in a layout; whole numbers are written in full. -/
def text (l : Layout) : Number → String
  | .whole n => toString n
  | .real x => l.text x

end Number
end ConfigSchema
