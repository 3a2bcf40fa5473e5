import ConfigSchema.Validation.Run
import ConfigSchema.Value.Reader
/-!
# Loader — configuration documents taken in

A loader holds a schema, a setting and a decoder, and takes in documents as texts or as values that are decoded already.
`parse` and `validate` give the document or raise; `check` gives a result that says whether the document is valid.  Beside
its answer each call leaves the document as the run left it, and a list of errors on the loader.  A failure of the decoder
or of a validator passes through all of them unchanged.
-/
namespace ConfigSchema

/-- What makes values of texts. -/
abbrev Decoder := String → Except Failure Value

def Decoder.json : Decoder := fun text =>
  match Value.read text with
  | .ok v => .ok v
  | .error m => .error (.malformed m)

/-- What a call raises in the place of an answer. -/
inductive Raised where
  /-- The run stopped at its first violation. -/
  | firstViolation (v : Violation)
  /-- The run went through and found violations. -/
  | rejected (errors : List Violation)
  /-- The decoder or a validator failed. -/
  | failure (f : Failure)

namespace Raised

def rejectedMessage (errors : List Violation) : String :=
  "Failed to parse configuration: " ++ toString errors.length ++ " error(s)"

def message : Raised → String
  | .firstViolation v => v.message
  | .rejected errors => rejectedMessage errors
  | .failure f => f.message

def ofHalt : Halt → Raised
  | .firstViolation v => .firstViolation v
  | .failure f => .failure f

end Raised

/-- The answer of a check. -/
structure Result where
  valid : Bool
  errors : List Violation
  value : Value

/-- The errors of a result that count as errors of a class. -/
def Result.errorsOf (r : Result) (c : ErrorClass) : List Violation := r.errors.filter (·.errorClass.isA c)

/-- What takes in documents, with the errors that its calls have left. -/
structure Loader where
  root : Element
  setting : Setting
  decode : Decoder := .json
  errors : List Violation := []

/-- A call on a loader: its answer, the run that it made if it came to one, and the loader afterwards. -/
structure Loader.Call (α : Type) where
  answer : Except Raised α
  run : Option Run
  loader : Loader

namespace Loader

def validate (l : Loader) (document : Value) : Call Value :=
  let run := l.setting.run l.root document
  let answer := match run.halt with
    | some halt => .error (.ofHalt halt)
    | none => if run.violations.isEmpty then .ok run.document else .error (.rejected run.violations)
  ⟨answer, some run, { l with errors := run.violations }⟩

/-- Takes in a text.  A text that cannot be decoded leaves no errors on the loader. -/
def parse (l : Loader) (text : String) : Call Value :=
  match l.decode text with
  | .error f => ⟨.error (.failure f), none, { l with errors := [] }⟩
  | .ok document => l.validate document

/-- Takes in a decoded document and says whether it is valid, also when the run stopped at its first violation.  A call
that ends by a failing validator leaves the errors of the loader as they were. -/
def check (l : Loader) (document : Value) : Call Result :=
  let run := l.setting.run l.root document
  match run.halt with
  | some (.failure f) => ⟨.error (.failure f), some run, l⟩
  | some (.firstViolation _) | none =>
    ⟨.ok ⟨run.violations.isEmpty, run.violations, run.document⟩, some run, { l with errors := run.violations }⟩

def isValid (l : Loader) (document : Value) : Call Bool :=
  let call := l.check document
  ⟨call.answer.map (·.valid), call.run, call.loader⟩

end Loader
end ConfigSchema
