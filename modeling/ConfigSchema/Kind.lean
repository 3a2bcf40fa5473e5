/-!
# Kind — the five kinds of element

Every element is of one kind, and so is every value that an element can accept.  The label of a kind is how schemas and
messages write it; the element name is how a kind of element is spoken of.
-/
namespace ConfigSchema

/-- A kind of element, and of the values that it accepts. -/
inductive Kind where
  | object
  | array
  | string
  | number
  | boolean
  deriving DecidableEq

namespace Kind

def all : List Kind := [.object, .array, .string, .number, .boolean]

def label : Kind → String
  | .object => "object"
  | .array => "array"
  | .string => "string"
  | .number => "number"
  | .boolean => "boolean"

def ofLabel? (text : String) : Option Kind := all.find? (·.label == text)

def elementName : Kind → String
  | .object => "ObjectElement"
  | .array => "ArrayElement"
  | .string => "StringElement"
  | .number => "NumberElement"
  | .boolean => "BooleanElement"

/-- Objects and arrays hold further values, and only they can be the root of a document. -/
def isContainer : Kind → Bool
  | .object | .array => true
  | .string | .number | .boolean => false

def isPrimitive (k : Kind) : Bool := !k.isContainer

theorem ofLabel?_label (k : Kind) : ofLabel? k.label = some k := by cases k <;> decide

end Kind
end ConfigSchema
