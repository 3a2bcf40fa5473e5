import ConfigSchema.Kind
/-!
# Membership — the types that a value is of

A value may be of several types at once: a boolean is a number, a text is a sequence, and an array may be a mapping as well.
The kind of a value is found by one question after the other, of which the first that is answered decides, and every element
has a question of its own.  The two are written apart, and each says for itself what it leaves out.
-/
namespace ConfigSchema

/-- Which of the types a value is of that are asked about. -/
structure Membership where
  null : Bool := false
  boolean : Bool := false
  string : Bool := false
  number : Bool := false
  bytes : Bool := false
  sequence : Bool := false
  mapping : Bool := false
  deriving DecidableEq

namespace Membership

/-- A sequence, but neither a text nor bytes. -/
def isArray (m : Membership) : Bool := m.sequence && !(m.string || m.bytes)

/-- The tag of a value, which null has none of; a value of which every question is denied is refused.  The order decides:
booleans are taken before numbers, and what is a sequence and a mapping is an array. -/
def tag? (m : Membership) : Option (Option Kind) :=
  if m.null then some none
  else if m.boolean then some (some .boolean)
  else if m.string then some (some .string)
  else if m.number then some (some .number)
  else if m.isArray then some (some .array)
  else if m.mapping then some (some .object)
  else none

/-- Whether a value is of the kind that an element asks for. -/
def isOf : Kind → Membership → Bool
  | .object, m => m.mapping && !m.isArray
  | .array, m => m.isArray
  | .string, m => m.string
  | .number, m => m.number && !m.boolean
  | .boolean, m => m.boolean

/-- What is refused is of no kind. -/
theorem isOf_of_refused {m : Membership} (h : m.tag? = none) (k : Kind) : m.isOf k = false := by
  unfold tag? at h
  cases k <;> simp only [isOf] <;> grind

end Membership
end ConfigSchema
