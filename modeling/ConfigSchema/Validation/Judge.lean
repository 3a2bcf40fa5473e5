import ConfigSchema.Element.Rules
import ConfigSchema.Options
import ConfigSchema.Validation.Walk
/-!
# Judge — violations found and validators asked

A setting is what a run goes by besides its schema: the options, and the judge that speaks for the validators.  Each check
of a value gives a trail: nothing when the value passes, else the violations in the order in which they are found.
-/
namespace ConfigSchema

inductive Verdict where
  | accept
  | reject
  | fail (f : Failure)

/-- What the validators decide: each is asked about a value and the element that governs it. -/
abbrev Judge := Validator → Element → Value → Verdict

/-- What a run goes by. -/
structure Setting where
  options : Options
  judge : Judge

namespace Setting

/-- A violation was found; the run goes on unless the options say otherwise. -/
def found (s : Setting) (path : Pointer) (cause : Cause) : Trail :=
  { events := [.found ⟨cause, path⟩]
    halt := if s.options.stopOnFirst then some (.firstViolation ⟨cause, path⟩) else none }

def foundAll (s : Setting) (path : Pointer) (causes : List Cause) : Trail :=
  .sequence (causes.map (s.found path))

def heed (s : Setting) (path : Pointer) (validator : Validator) : Verdict → Trail
  | .accept => .empty
  | .reject => s.found path (.badValue (.rejectedBy validator.label))
  | .fail f => { halt := some (.failure f) }

def ask (s : Setting) (path : Pointer) (e : Element) (v : Value) (validator : Validator) : Trail :=
  (Trail.event (.judged validator e v)).andThen (s.heed path validator (s.judge validator e v))

/-- All validators of an element are asked in turn; one that rejects does not keep the next from being asked. -/
def askAll (s : Setting) (path : Pointer) (e : Element) (v : Value) : Trail :=
  .sequence (e.validators.map (s.ask path e v))

def wrongKind (s : Setting) (path : Pointer) (e : Element) (v : Value) : Trail :=
  s.found path (.wrongType v.kindName e.kind.label)

def nullField (s : Setting) (path : Pointer) (e : Element) : Trail :=
  if e.traits.nullable then .empty else s.found path (.nullValue e.name?)

/-- A value without parts, which is not null. -/
def checkPrimitive (s : Setting) (path : Pointer) (e : Element) (v : Value) : Trail :=
  match e, v with
  | .string _ rules, .string text => (s.foundAll path (rules.causes text)).andIfClean (s.askAll path e v)
  | .number _ rules, .number n => (s.foundAll path (rules.causes n)).andIfClean (s.askAll path e v)
  | .boolean _ _, .boolean _ => s.askAll path e v
  | _, _ => s.wrongKind path e v

end Setting
end ConfigSchema
