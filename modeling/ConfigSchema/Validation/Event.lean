import ConfigSchema.Element
import ConfigSchema.Violation
/-!
# Event — what happens in a run

A run is told as the list of its events.  The violations it found, the validators it asked and the messages of its log
are all read off that list, so they cannot disagree.
-/
namespace ConfigSchema

/-- Something that happens in a run. -/
inductive Event where
  | began (documentKind : String) (root : Kind)
  | metaPruned (count : Nat) (path : Pointer)
  | found (v : Violation)
  /-- A validator was asked about a value. -/
  | judged (validator : Validator) (element : Element) (value : Value)
  | unlistedPruned (count : Nat)
  | finished (violations : Nat)

namespace Event

def violation? : Event → Option Violation
  | .found v => some v
  | _ => none

def judgement? : Event → Option (Validator × Element × Value)
  | .judged validator element value => some (validator, element, value)
  | _ => none

/-- The line that an event leaves in the log; asking a validator leaves none. -/
def message? : Event → Option String
  | .began documentKind root =>
    some ("Validating " ++ documentKind ++ " value against " ++ root.label ++ " root element")
  | .metaPruned count path => some ("Pruned " ++ toString count ++ " meta field(s) at " ++ path.shown)
  | .found v => some ("Validation error: " ++ v.text)
  | .judged _ _ _ => none
  | .unlistedPruned count => some ("Pruned " ++ toString count ++ " unlisted field(s)")
  | .finished violations => some ("Validation finished with " ++ toString violations ++ " error(s)")

/-- The violations that a list of events tells of, in order. -/
def violations (events : List Event) : List Violation := events.filterMap violation?

def log (events : List Event) : List String := events.filterMap message?

end Event
end ConfigSchema
