import ConfigSchema.Failure
import ConfigSchema.Validation.Event
import ConfigSchema.Validation.Removal
/-!
# Walk — what a piece of a run did

Validating a value leaves a trail: events, notes of unlisted fields, and possibly an early end.  Trails are joined one
after the other, and nothing follows an early end.  A walk is a trail together with the value that it leaves behind; what
an ended walk has not come to stays as it was.
-/
namespace ConfigSchema

/-- Why a run ends before its time. -/
inductive Halt where
  /-- The run's own first violation, when the options ask to stop there. -/
  | firstViolation (v : Violation)
  /-- A validator failed. -/
  | failure (f : Failure)

/-- What validating did. -/
structure Trail where
  events : List Event := []
  unlisted : List Removal := []
  halt : Option Halt := none

namespace Trail

def empty : Trail := {}

def event (e : Event) : Trail := { events := [e] }

def note (r : Removal) : Trail := { unlisted := [r] }

/-- One trail after another, unless the first one ended early. -/
def andThen (t u : Trail) : Trail :=
  match t.halt with
  | some _ => t
  | none => ⟨t.events ++ u.events, t.unlisted ++ u.unlisted, u.halt⟩

@[simp] theorem empty_andThen (t : Trail) : empty.andThen t = t := by
  cases t
  rfl

@[simp] theorem andThen_empty (t : Trail) : t.andThen empty = t := by
  obtain ⟨events, unlisted, halt⟩ := t
  cases halt <;> simp [andThen, empty]

theorem andThen_assoc (t u v : Trail) : (t.andThen u).andThen v = t.andThen (u.andThen v) := by
  obtain ⟨events, unlisted, halt⟩ := t
  cases halt with
  | some _ => rfl
  | none =>
    obtain ⟨events', unlisted', halt'⟩ := u
    cases halt' <;> simp [andThen]

def sequence : List Trail → Trail
  | [] => empty
  | t :: rest => t.andThen (sequence rest)

def violations (t : Trail) : List Violation := Event.violations t.events

/-- The second trail follows only if the first one tells of no violation. -/
def andIfClean (t u : Trail) : Trail := if t.violations.isEmpty then t.andThen u else t

/-- The same trail, with its notes seen from one step further out. -/
def under (step : Step) (t : Trail) : Trail := { t with unlisted := t.unlisted.map (·.under step) }

end Trail

/-- A trail and what it leaves behind. -/
structure Walk (α : Type) where
  left : α
  trail : Trail

namespace Walk

variable {α β : Type}

def map (f : α → β) (w : Walk α) : Walk β := ⟨f w.left, w.trail⟩

/-- The same walk, with its notes seen from one step further out. -/
def under (step : Step) (w : Walk α) : Walk α := ⟨w.left, w.trail.under step⟩

/-- A walk after a trail; if the trail ended early, the walk's part of the document stays `untouched`. -/
def after (t : Trail) (untouched : α) (w : Walk α) : Walk α :=
  match t.halt with
  | some _ => ⟨untouched, t⟩
  | none => ⟨w.left, t.andThen w.trail⟩

/-- A walk of the first part of a list, and then of the others, which otherwise stay `untouched`. -/
def cons (head : Walk α) (untouched : List α) (tail : Walk (List α)) : Walk (List α) :=
  match head.trail.halt with
  | some _ => ⟨head.left :: untouched, head.trail⟩
  | none => ⟨head.left :: tail.left, head.trail.andThen tail.trail⟩

end Walk
end ConfigSchema
