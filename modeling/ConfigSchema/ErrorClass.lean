/-!
# ErrorClass — the families of errors

Every error of this library belongs to one class, and the classes form a tree: an error counts as an error of its own class
and of every class above it.  Reports and callers tell errors apart by the names of these classes.
-/
namespace ConfigSchema

inductive ErrorClass where
  | any
  | validation
  | rootType
  | wrongType
  | badValue
  | nullValue
  | missingField
  | arrayContents
  | nullEntry
  | entryType
  | rejected
  | badElement
  | builder
  | precedingCall
  | undetermined
  | alreadyDetermined
  | notPrimitive
  | slotMismatch
  deriving DecidableEq

namespace ErrorClass

def all : List ErrorClass :=
  [.any, .validation, .rootType, .wrongType, .badValue, .nullValue, .missingField, .arrayContents, .nullEntry, .entryType,
    .rejected, .badElement, .builder, .precedingCall, .undetermined, .alreadyDetermined, .notPrimitive, .slotMismatch]

def name : ErrorClass → String
  | .any => "ConfigParserError"
  | .validation => "ConfigValidationError"
  | .rootType => "InvalidRootTypeError"
  | .wrongType => "InvalidTypeError"
  | .badValue => "InvalidValueError"
  | .nullValue => "NullValueError"
  | .missingField => "MissingRequiredFieldError"
  | .arrayContents => "InvalidArrayContentsError"
  | .nullEntry => "NullArrayElementError"
  | .entryType => "InvalidArrayElementTypeError"
  | .rejected => "ConfigParseFailureError"
  | .badElement => "InvalidConfigurationElementError"
  | .builder => "ConfigElementBuilderError"
  | .precedingCall => "BuilderMissingPrecedingTypeCallError"
  | .undetermined => "BuilderElementTypeUndeterminedError"
  | .alreadyDetermined => "BuilderElementTypeAlreadyDeterminedError"
  | .notPrimitive => "BuilderElementTypeNotPrimitiveError"
  | .slotMismatch => "BuilderArrayElementTypeMismatchError"

def ofName? (text : String) : Option ErrorClass := all.find? (·.name == text)

/-- The classes above a class, nearest first. -/
def ancestors : ErrorClass → List ErrorClass
  | .any => []
  | .validation | .rejected | .badElement | .builder => [.any]
  | .rootType | .wrongType | .badValue | .missingField | .arrayContents | .entryType => [.validation, .any]
  | .nullValue => [.badValue, .validation, .any]
  | .nullEntry => [.arrayContents, .validation, .any]
  | .precedingCall | .undetermined | .alreadyDetermined | .notPrimitive | .slotMismatch => [.builder, .any]

/-- Whether errors of class `c` count as errors of class `d`. -/
def isA (c d : ErrorClass) : Bool := c == d || c.ancestors.contains d

end ErrorClass
end ConfigSchema
