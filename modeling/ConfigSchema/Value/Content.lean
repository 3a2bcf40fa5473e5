import ConfigSchema.Value
/-!
# Content — questions that validators ask of a value

How much a value holds, and whether it holds anything.  A number holds something unless it is zero, and not-a-number is
not zero.
-/
namespace ConfigSchema
namespace Value

/-- The characters of a string, the entries of an array or the fields of an object, counted. -/
def size? : Value → Option Nat
  | .string s => some s.length
  | .array _ entries => some entries.length
  | .object fields => some fields.length
  | .null | .boolean _ | .number _ | .foreign _ => none

/-- The number that a number or a boolean counts as. -/
def toNumber? : Value → Option Number
  | .number n => some n
  | .boolean b => some (.whole (if b then 1 else 0))
  | _ => none

/-- Whether a value holds something: is not null, false, zero or empty. -/
def isTruthy : Value → Bool
  | .null => false
  | .boolean b => b
  | .number n => !n.isZero
  | .string s => !s.isEmpty
  | .array _ entries => !entries.isEmpty
  | .object fields => !fields.isEmpty
  | .foreign _ => true

end Value
end ConfigSchema
