import ConfigSchema.ErrorClass
import ConfigSchema.Kind
import ConfigSchema.Text.Quoted
/-!
# SchemaError — what is wrong with a schema

A schema is refused where it is put together: by the element that would contradict itself, or by the builder whose calls
come in the wrong order.  As with violations, each cause has its wording in one place.
-/
namespace ConfigSchema

/-- A text that is the label of no member of an enumeration. -/
structure UnknownLabel where
  label : String
  enumeration : String

def UnknownLabel.message (u : UnknownLabel) : String := quoted u.label ++ " is not a valid " ++ u.enumeration

/-- Why a schema is refused. -/
inductive SchemaError where
  /-- A child has a name other than the key under which it stands. -/
  | childName (name key : String)
  /-- The element in a slot is of another kind than the slot. -/
  | slotElement (slot given : Kind)
  | slotsAndOrdered
  | unknownKind (u : UnknownLabel)
  /-- A child was given to a builder without a name to stand under. -/
  | unnamedChild (kind : Kind)
  | orderedAlready
  | slotsAlready
  | undetermined
  | alreadyDetermined
  | notPrimitive
  /-- A call makes sense only after the kind was chosen for which it is meant. -/
  | precedingCall (choice method : String)
  /-- The element given for a slot is not of the kind that the slot expects. -/
  | slotMismatch (expected : String)
  | statedOfElement (message : String)
  | statedOfBuilder (message : String)

namespace SchemaError

def message : SchemaError → String
  | .childName name key => "Child element " ++ quoted name ++ " registered under key " ++ quoted key
  | .slotElement slot given => "Array slot " ++ slot.label ++ " cannot be validated by a " ++ given.elementName
  | .slotsAndOrdered => "ArrayElement cannot combine allowed element types with ordered elements"
  | .unknownKind u => u.message
  | .unnamedChild kind => "Child " ++ kind.elementName ++ " of an object needs a name"
  | .orderedAlready => "ArrayElement already expects ordered element validation"
  | .slotsAlready => "ArrayElement already expects allowed element validation"
  | .undetermined => "Element type undetermined"
  | .alreadyDetermined => "Element type already determined"
  | .notPrimitive => "Element type not primitive"
  | .precedingCall choice method => "Call to " ++ choice ++ "() needs to precede " ++ method ++ "()"
  | .slotMismatch expected => "Array element configuration must be a " ++ expected
  | .statedOfElement message => message
  | .statedOfBuilder message => message

/-- The class of an error; an unknown label is no error of the schema's own but a wrong argument, and has none. -/
def errorClass? : SchemaError → Option ErrorClass
  | .childName _ _ | .slotElement _ _ | .slotsAndOrdered | .unnamedChild _ | .orderedAlready | .slotsAlready
  | .statedOfElement _ => some .badElement
  | .unknownKind _ => none
  | .undetermined => some .undetermined
  | .alreadyDetermined => some .alreadyDetermined
  | .notPrimitive => some .notPrimitive
  | .precedingCall _ _ => some .precedingCall
  | .slotMismatch _ => some .slotMismatch
  | .statedOfBuilder _ => some .builder

end SchemaError

/-- The kind with a label, or the refusal of the label. -/
def Kind.parse (label : String) : Except UnknownLabel Kind :=
  match Kind.ofLabel? label with
  | some k => .ok k
  | none => .error ⟨label, "ElementType"⟩

end ConfigSchema
