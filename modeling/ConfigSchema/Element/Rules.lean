import ConfigSchema.Element
import ConfigSchema.Violation
/-!
# Rules — what the rules of an element refuse

Strings and numbers are held to the rules of their elements, objects to the children that they must have, and arrays to
what their element asks of each entry.  Everything here looks at one value and not into its parts.
-/
namespace ConfigSchema

/-- The bounds that a measure breaks, the upper one first. -/
def Measure.outOfRange (measure : Measure) (minimum maximum : Option Number) : List Cause :=
  (match maximum with
    | some bound => if bound.lt measure.toNumber then [.badValue (.above measure bound)] else []
    | none => []) ++
  (match minimum with
    | some bound => if measure.toNumber.lt bound then [.badValue (.below measure bound)] else []
    | none => [])

def StringRules.causes (rules : StringRules) (text : String) : List Cause :=
  if rules.validValues.isEmpty then (Measure.length text.length).outOfRange rules.minLength rules.maxLength
  else if rules.validValues.contains text then []
  else [.badValue (.notListed text rules.validValues)]

def NumberRules.causes (rules : NumberRules) (n : Number) : List Cause :=
  (Measure.value n).outOfRange rules.minValue rules.maxValue

/-- What an array element asks of one entry. -/
inductive EntryDemand where
  | nothing
  | refused (cause : Cause)
  | governed (e : Element)

namespace Element

/-- The names that an object must hold and does not, in the order of declaration. -/
def missingNames (children : List (String × Element)) (fields : List (Key × Value)) : List String :=
  (requiredNames children).filter fun name => !fields.any (·.1 == .name name)

/-- What the slots or the ordered elements of an array ask of the entry at an index. -/
def entryDemand (slots : List (Kind × Element)) (ordered : List Element) (allowNull : Bool) (index : Nat) (v : Value) :
    EntryDemand :=
  if v.isNull then if allowNull then .nothing else .refused .nullEntry
  else
    match entry? slots ordered index v with
    | some e => .governed e
    | none => .refused (.entryType v.kindName)

end Element
end ConfigSchema
