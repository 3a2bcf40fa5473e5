import ConfigSchema.ErrorClass
import ConfigSchema.Kind
import ConfigSchema.Number
import ConfigSchema.Pointer
import ConfigSchema.Text.Quoted
/-!
# Violation — what is wrong with a document, and where

A violation is a cause and a pointer to the offending value.  The causes say what was found and what was asked for; their
wording is in `Cause.message` alone.  A validator may state a violation of its own in free words, so each family of
causes that it can raise has a `stated` form.
-/
namespace ConfigSchema

/-- What a bound is compared with. -/
inductive Measure where
  | value (n : Number)
  | length (n : Nat)

namespace Measure

def toNumber : Measure → Number
  | .value n => n
  | .length n => .whole n

def text : Measure → String
  | .value n => "Value " ++ n.text .message
  | .length n => "Length " ++ toString n

end Measure

/-- Why the root of a document is no document of the schema. -/
inductive RootFault where
  | notContainer (kind : Kind)
  | wrongKind (actual : String) (expected : Kind)
  | stated (message : String)

/-- Why a value of the right kind is refused. -/
inductive ValueFault where
  | above (measure : Measure) (maximum : Number)
  | below (measure : Measure) (minimum : Number)
  | notListed (value : String) (allowed : List String)
  | rejectedBy (validator : String)
  | stated (message : String)

/-- Why the entries of an array are refused together. -/
inductive ContentsFault where
  | wrongLength (actual expected : Nat)
  | stated (message : String)

inductive Cause where
  | rootType (fault : RootFault)
  | wrongType (actual expected : String)
  | badValue (fault : ValueFault)
  | nullValue (field : Option String)
  | missingField (field : String)
  | arrayContents (fault : ContentsFault)
  | nullEntry
  | entryType (actual : String)
  | stated (message : String)

namespace RootFault

def message : RootFault → String
  | .notContainer kind => "Root element must be an object or array element, got " ++ kind.label
  | .wrongKind actual expected => "Root element has incorrect type " ++ actual ++ ", expected " ++ expected.label
  | .stated message => message

end RootFault

namespace ValueFault

def message : ValueFault → String
  | .above measure maximum => measure.text ++ " is greater than maximum " ++ maximum.text .message
  | .below measure minimum => measure.text ++ " is less than minimum " ++ minimum.text .message
  | .notListed value allowed =>
    "Value " ++ quoted value ++ " is not one of " ++ String.intercalate ", " (allowed.map quoted)
  | .rejectedBy validator => "Value rejected by custom validator " ++ validator
  | .stated message => message

end ValueFault

namespace ContentsFault

def message : ContentsFault → String
  | .wrongLength actual expected =>
    "Array has " ++ toString actual ++ " element(s), expected exactly " ++ toString expected
  | .stated message => message

end ContentsFault

namespace Cause

/-- The wording of a cause, without the place. -/
def message : Cause → String
  | .rootType fault => fault.message
  | .wrongType actual expected => "Invalid type " ++ actual ++ ", expected type " ++ expected
  | .badValue fault => fault.message
  | .nullValue field => "Field " ++ field.getD "<unnamed>" ++ " is null, null fields not allowed"
  | .missingField field => "Missing required field " ++ field
  | .arrayContents fault => fault.message
  | .nullEntry => "Null array elements not allowed"
  | .entryType actual => "Invalid array element type " ++ actual
  | .stated message => message

def errorClass : Cause → ErrorClass
  | .rootType _ => .rootType
  | .wrongType _ _ => .wrongType
  | .badValue _ => .badValue
  | .nullValue _ => .nullValue
  | .missingField _ => .missingField
  | .arrayContents _ => .arrayContents
  | .nullEntry => .nullEntry
  | .entryType _ => .entryType
  | .stated _ => .validation

end Cause

/-- A cause at a place of the document. -/
structure Violation where
  cause : Cause
  path : Pointer

namespace Violation

def message (v : Violation) : String := v.cause.message

def errorClass (v : Violation) : ErrorClass := v.cause.errorClass

/-- The violation in one text, with its place. -/
def text (v : Violation) : String := v.message ++ " (at " ++ v.path.shown ++ ")"

end Violation
end ConfigSchema
