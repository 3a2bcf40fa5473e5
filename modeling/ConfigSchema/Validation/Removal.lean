import ConfigSchema.Value
/-!
# Removal — fields that are to leave a document

While a document is walked its unlisted fields are only noted, each list of keys with the place of the object that holds
them.  Whether they go is known at the end of the walk, and then every note is carried out on the document as it is by
then.  A note about an object that has left the document in the meantime changes nothing.
-/
namespace ConfigSchema

/-- A step from a value to one of its parts. -/
inductive Step where
  | field (key : Key)
  | entry (index : Nat)
  deriving DecidableEq

/-- The steps from a value down to a part of it. -/
abbrev Place := List Step

namespace Value

/-- Changes the part at a place; a place that leads nowhere changes nothing. -/
def alter (f : Value → Value) : Place → Value → Value
  | [], v => f v
  | .field key :: place, .object fields =>
    .object (fields.map fun field => if field.1 = key then (field.1, alter f place field.2) else field)
  | .entry index :: place, .array shape entries => .array shape (entries.modify index (alter f place))
  | _ :: _, v => v

def without (keys : List Key) : Value → Value
  | .object fields => .object (fields.filter fun field => !keys.contains field.1)
  | v => v

end Value

/-- A note of fields that are to leave the object at a place. -/
structure Removal where
  place : Place
  keys : List Key

namespace Removal

def under (step : Step) (r : Removal) : Removal := { r with place := step :: r.place }

def carryOut (r : Removal) (v : Value) : Value := v.alter (.without r.keys) r.place

/-- Carries out notes in the order in which they were made. -/
def carryOutAll (rs : List Removal) (v : Value) : Value := rs.foldl (fun v r => r.carryOut v) v

/-- How many fields the notes name together. -/
def count (rs : List Removal) : Nat := (rs.flatMap (·.keys)).length

end Removal
end ConfigSchema
