import ConfigSchema.Validation.Traversal
/-!
# Run — a document validated as a whole

A run looks at the root first: the schema's root has to be an object or array element and the document of that kind, else
one violation says so and nothing more is looked at.  After a walk without any violation the noted unlisted fields leave
the document.  A run that ends early carries out no note, but the meta fields it has come to are gone.
-/
namespace ConfigSchema

/-- A finished or halted run: how it ended, what it left of the document, and what happened. -/
structure Run where
  halt : Option Halt
  document : Value
  events : List Event

namespace Run

def violations (r : Run) : List Violation := Event.violations r.events

/-- What the run gives: the violations that it found, or why it ended early. -/
def outcome (r : Run) : Except Halt (List Violation) :=
  match r.halt with
  | some halt => .error halt
  | none => .ok r.violations

def log (r : Run) : List String := Event.log r.events

/-- The validators that the run asked, in order, each with what it was asked about. -/
def judgements (r : Run) : List (Validator × Element × Value) := r.events.filterMap Event.judgement?

end Run

namespace Setting

def walkRoot (s : Setting) (root : Element) (document : Value) : Walk Value :=
  if !root.kind.isContainer then ⟨document, s.found .root (.rootType (.notContainer root.kind))⟩
  else if !root.accepts document then
    ⟨document, s.found .root (.rootType (.wrongKind document.kindName root.kind))⟩
  else s.walk .root root document

/-- The end of a walk that went through. -/
def close (w : Walk Value) : Run :=
  let count := w.trail.violations.length
  let pruned := count == 0 && !w.trail.unlisted.isEmpty
  { halt := none
    document := if pruned then Removal.carryOutAll w.trail.unlisted w.left else w.left
    events := w.trail.events ++ (if pruned then [.unlistedPruned (Removal.count w.trail.unlisted)] else []) ++
      [.finished count] }

def run (s : Setting) (root : Element) (document : Value) : Run :=
  let walked := s.walkRoot root document
  let ended : Run := match walked.trail.halt with
    | some halt => ⟨some halt, walked.left, walked.trail.events⟩
    | none => close walked
  { ended with events := .began document.kindName root.kind :: ended.events }

end Setting
end ConfigSchema
