import ConfigSchema.Loader
import ConfigSchema.Value.Display
/-!
# Report — a document asserted to be valid

An assertion gives the document when it is valid.  Otherwise it raises a report: a heading with the number of errors, the
document as the run left it, and for each error its place, class and message.
-/
namespace ConfigSchema

namespace Report

def line (v : Violation) : String := "  " ++ v.path.shown ++ ": " ++ v.errorClass.name ++ ": " ++ v.message

def text (p : Printing) (r : Result) : String :=
  "Configuration not valid: " ++ toString r.errors.length ++ " error(s)\n  data: " ++ r.value.display p ++ "\n" ++
    String.intercalate "\n" (r.errors.map line)

end Report

/-- Why an assertion does not give the document. -/
inductive AssertionRaised where
  /-- The document is not valid; the report tells why. -/
  | invalid (r : Result)
  | other (r : Raised)

def AssertionRaised.message (p : Printing) : AssertionRaised → String
  | .invalid r => Report.text p r
  | .other r => r.message

def Loader.assertValid (l : Loader) (document : Value) : Except AssertionRaised Value × Loader.Call Result :=
  let call := l.check document
  let answer := match call.answer with
    | .error raised => .error (.other raised)
    | .ok result => if result.valid then .ok result.value else .error (.invalid result)
  (answer, call)

end ConfigSchema
