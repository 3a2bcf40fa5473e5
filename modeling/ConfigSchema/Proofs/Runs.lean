import ConfigSchema.Proofs.Trails
import ConfigSchema.Validation.Run
/-!
# Runs — a run read off its walk

A run adds to the walk from the root how it began, how it finished and what it did with the notes, so its end and its
violations are those of the walk.  The walk goes inside only from a root that admits the document.
-/
namespace ConfigSchema

/-- Whether the walk of a document goes inside: the schema's root is an object or array element, and the document of its
kind. -/
def Element.admits (root : Element) (document : Value) : Bool := root.kind.isContainer && root.accepts document

namespace Setting

variable (s : Setting) (root : Element) (document : Value)

theorem walkRoot_of_admits (h : root.admits document = true) :
    s.walkRoot root document = s.walk .root root document := by
  simp only [Element.admits, Bool.and_eq_true] at h
  simp [walkRoot, h]

theorem walkRoot_of_not_admits (h : root.admits document = false) :
    ∃ fault, s.walkRoot root document = ⟨document, s.found .root (.rootType fault)⟩ := by
  unfold walkRoot
  cases hc : root.kind.isContainer with
  | false => exact ⟨_, rfl⟩
  | true =>
    have ha : root.accepts document = false := by simpa [Element.admits, hc] using h
    exact ⟨_, by simp [ha]; rfl⟩

theorem run_of_some {halt : Halt} (h : (s.walkRoot root document).trail.halt = some halt) :
    s.run root document = ⟨some halt, (s.walkRoot root document).left,
      .began document.kindName root.kind :: (s.walkRoot root document).trail.events⟩ := by
  simp only [run, h]

theorem run_of_none (h : (s.walkRoot root document).trail.halt = none) :
    s.run root document = { close (s.walkRoot root document) with
      events := .began document.kindName root.kind :: (close (s.walkRoot root document)).events } := by
  simp only [run, h]

theorem violations_close (w : Walk Value) : (close w).violations = w.trail.violations := by
  simp only [close, Run.violations]
  split <;> simp [Event.violations, Event.violation?, Trail.violations]

theorem halt_run : (s.run root document).halt = (s.walkRoot root document).trail.halt := by
  cases h : (s.walkRoot root document).trail.halt with
  | some halt => rw [run_of_some s root document h]
  | none => rw [run_of_none s root document h]; rfl

theorem violations_run : (s.run root document).violations = (s.walkRoot root document).trail.violations := by
  cases h : (s.walkRoot root document).trail.halt with
  | some halt => rw [run_of_some s root document h]; rfl
  | none => rw [run_of_none s root document h, ← violations_close]; rfl

/-- **What a run gives is what its walk tells of**, unless the walk ended early. -/
theorem outcome_run_eq_ok {vs : List Violation} : (s.run root document).outcome = .ok vs ↔
    (s.walkRoot root document).trail.halt = none ∧ (s.walkRoot root document).trail.violations = vs := by
  rw [Run.outcome, halt_run, violations_run]
  cases (s.walkRoot root document).trail.halt <;> simp

/-- A run that went through carries out the notes of its walk if it found no violation. -/
theorem document_run_of_none (h : (s.walkRoot root document).trail.halt = none) :
    (s.run root document).document =
      if (s.walkRoot root document).trail.violations = [] then
        Removal.carryOutAll (s.walkRoot root document).trail.unlisted (s.walkRoot root document).left
      else (s.walkRoot root document).left := by
  rw [run_of_none s root document h]
  simp only [close]
  by_cases hv : (s.walkRoot root document).trail.violations = []
  · cases hu : (s.walkRoot root document).trail.unlisted <;> simp [hv, Removal.carryOutAll]
  · simp [hv]

end Setting
end ConfigSchema
