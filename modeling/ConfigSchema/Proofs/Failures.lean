import ConfigSchema.Once
import ConfigSchema.Proofs.Endings
import ConfigSchema.Validation.Engine
/-!
# Failures — what a failing validator raises

A validator that fails ends the run there and then, and its failure comes out of every way of taking in a document as it
is (`Loader.Raises`), whatever was found before and however much the failure looks like something that was found.  A
check raises nothing else: the violation that a run stops at goes into the result.  A handler that tells the two apart by
the object that was raised comes to the same answers (`Loader.checkByMark`).
-/
namespace ConfigSchema

theorem Event.judged_mem {w : Validator} {e : Element} {v : Value} {events : List Event} :
    (w, e, v) ∈ events.filterMap judgement? ↔ .judged w e v ∈ events := by
  rw [List.mem_filterMap]
  constructor
  · rintro ⟨event, hm, hj⟩
    cases event with
    | judged w' e' v' =>
      cases hj
      exact hm
    | began | metaPruned | found | unlistedPruned | finished => cases hj
  · exact fun hm => ⟨_, hm, rfl⟩

namespace Setting

variable {s : Setting} {w : Validator} {e : Element} {v : Value} {f : Failure} {event : Event}

theorem ending?_judged (h : s.judge w e v = .fail f) : s.ending? (.judged w e v) = some (.failure f) :=
  ending?_eq_some.2 (.inr ⟨w, e, v, f, rfl, h, rfl⟩)

/-- Only a failing validator ends a run with a failure. -/
theorem eq_judged_of_ending? (h : s.ending? event = some (.failure f)) :
    ∃ w e v, event = .judged w e v ∧ s.judge w e v = .fail f := by
  obtain ⟨x, -, -, heq⟩ | ⟨w, e, v, f', hevent, hj, heq⟩ := ending?_eq_some.1 h
  · cases heq
  · cases heq
    exact ⟨w, e, v, hevent, hj⟩

/-- The violation that a run stops at was found last. -/
theorem violations_run_of_firstViolation {root : Element} {document : Value} {x : Violation}
    (h : (s.run root document).halt = some (.firstViolation x)) :
    ∃ before, (s.run root document).violations = before ++ [x] := by
  obtain ⟨before, event, hevents, he, -⟩ := (s.prompt_run root document).of_halt h
  obtain ⟨y, rfl, -, heq⟩ | ⟨w, e, v, f, -, -, heq⟩ := ending?_eq_some.1 he
  · cases heq
    exact ⟨Event.violations before, by rw [Run.violations, hevents, Event.violations_append]; rfl⟩
  · cases heq

end Setting

namespace Loader

/-- Every way to take in a document raises a failure as it is. -/
structure Raises (l : Loader) (document : Value) (f : Failure) : Prop where
  run : ∀ latest, ((⟨l.root, l.setting, latest⟩ : Engine).run document).1.outcome = .error (.failure f)
  validate : (l.validate document).answer = .error (.failure f)
  parse : ∀ text, l.decode text = .ok document → (l.parse text).answer = .error (.failure f)
  check : (l.check document).answer = .error (.failure f)
  isValid : (l.root.isValid l.setting document).answer = .error (.failure f)
  assertValid : (l.root.assertValid l.setting document).1 = .error (.other (.failure f))

theorem raises_of_halt {l : Loader} {document : Value} {f : Failure}
    (h : (l.setting.run l.root document).halt = some (.failure f)) : l.Raises document f := by
  have hvalidate : (l.validate document).answer = .error (.failure f) := by
    simp only [Loader.validate, h, Raised.ofHalt]
  have hown : (l.root.check l.setting document).answer = .error (.failure f) := by
    simp only [Element.check, Element.loader, Loader.check, h]
  exact {
    run := fun latest => by simp only [Engine.run, Run.outcome, h]
    validate := hvalidate
    parse := fun text hd => by simp only [Loader.parse, hd, hvalidate]
    check := by simp only [Loader.check, h]
    isValid := by
      rw [Element.isValid, Loader.isValid, ← Element.check, hown]
      rfl
    assertValid := by
      rw [Element.assertValid, Loader.assertValid, ← Element.check, hown] }

/-- A check that sees only which object was raised, each object by its mark.  Violations are recorded as objects with
the marks of their turns; what a validator raises has a mark of its own.  A violation that was raised counts as the run's
own if it is the object that was recorded last. -/
def checkByMark (l : Loader) (marks : Nat → Nat) (own : Nat) (document : Value) : Except Raised Result :=
  let run := l.setting.run l.root document
  let result : Result := ⟨run.violations.isEmpty, run.violations, run.document⟩
  let recordedLast := run.violations.length - 1
  match run.halt with
  | none => .ok result
  | some halt =>
    let thrown : Bool × Nat := match halt with
      | .firstViolation _ => (true, marks recordedLast)
      | .failure (.violation _) => (true, own)
      | .failure _ => (false, own)
    if thrown.1 && !run.violations.isEmpty && marks recordedLast == thrown.2 then .ok result else .error (.ofHalt halt)

theorem checkByMark_eq (l : Loader) {marks : Nat → Nat} {own : Nat} (h : ∀ i, marks i ≠ own) (document : Value) :
    l.checkByMark marks own document = (l.check document).answer := by
  unfold checkByMark check
  simp only
  cases hh : (l.setting.run l.root document).halt with
  | none => rfl
  | some halt =>
    cases halt with
    | firstViolation x =>
      -- what was raised was recorded last, so something was recorded
      obtain ⟨before, hlast⟩ := Setting.violations_run_of_firstViolation hh
      have hsome : (l.setting.run l.root document).violations.isEmpty = false := by
        rw [hlast, List.isEmpty_eq_false_iff]
        exact List.append_ne_nil_of_right_ne_nil _ (List.cons_ne_nil _ _)
      simp only [hsome, Bool.not_false, Bool.and_self, beq_self_eq_true, if_true]
    | failure f =>
      have hother : ∀ i, (marks i == own) = false := fun i => beq_eq_false_iff_ne.2 (h i)
      cases f <;> simp only [hother, Bool.and_false, Bool.false_and, Bool.false_eq_true, if_false, Raised.ofHalt]

/-- **A validator that fails is the last one that is asked, and its failure is raised as it is**, whichever way the
document is taken in.  A check raises nothing else, and it would tell the same violations apart by their objects. -/
theorem raises_of_judged (l : Loader) (document : Value) :
    (∀ w e v f, (w, e, v) ∈ (l.setting.run l.root document).judgements → l.setting.judge w e v = .fail f →
      l.Raises document f ∧ ∃ before, (l.setting.run l.root document).events = before ++ [.judged w e v] ∧
        (l.setting.run l.root document).violations = Event.violations before) ∧
    (∀ raised, (l.check document).answer = .error raised → ∃ w e v f,
      (w, e, v) ∈ (l.setting.run l.root document).judgements ∧ l.setting.judge w e v = .fail f ∧ raised = .failure f) ∧
    (∀ marks own, (∀ i, marks i ≠ own) → l.checkByMark marks own document = (l.check document).answer) := by
  have hprompt := l.setting.prompt_run l.root document
  refine ⟨fun w e v f hm hj => ?_, fun raised h => ?_, fun marks own h => l.checkByMark_eq h document⟩
  · obtain ⟨hh, before, hevents, -⟩ := hprompt.of_mem (Event.judged_mem.1 hm) (Setting.ending?_judged hj)
    refine ⟨raises_of_halt hh, before, hevents, ?_⟩
    rw [Run.violations, hevents, Event.violations_append]
    exact List.append_nil _
  · cases hh : (l.setting.run l.root document).halt with
    | none => simp only [check, hh] at h; cases h
    | some halt =>
      cases halt with
      | firstViolation x => simp only [check, hh] at h; cases h
      | failure f =>
        obtain ⟨before, event, hevents, he, -⟩ := hprompt.of_halt hh
        obtain ⟨w, e, v, rfl, hj⟩ := Setting.eq_judged_of_ending? he
        simp only [check, hh] at h
        cases h
        refine ⟨w, e, v, f, Event.judged_mem.2 ?_, hj, rfl⟩
        rw [hevents]
        exact List.mem_append_right _ List.mem_cons_self

/-- A validator fails with the very violation that was found before it was asked. -/
theorem raises_of_judged_twin :
    let twin : Violation := ⟨.wrongType "string" "number", ⟨"/x"⟩⟩
    let s : Setting := ⟨{}, fun _ _ _ => .fail (.violation twin)⟩
    let root := Element.object {} [("x", .number {} {}), ("y", .number { validators := [⟨"strict", "strict"⟩] } {})]
    let l : Loader := { root, setting := s }
    let document := Value.object [(.name "x", .string "text"), (.name "y", .number (.whole 1))]
    l.Raises document (.violation twin) ∧ (l.validate document).loader.errors = [twin] := by
  intro twin s root l document
  have hfirst := (raises_of_judged l document).1 ⟨"strict", "strict"⟩
    (.number { validators := [⟨"strict", "strict"⟩] } {}) (.number (.whole 1)) (.violation twin)
  have hasked : (s.run root document).judgements = [(⟨"strict", "strict"⟩,
      .number { validators := [⟨"strict", "strict"⟩] } {}, .number (.whole 1))] := by
    unfold s root document twin
    rfl
  refine ⟨(hfirst ?_ rfl).1, ?_⟩
  · rw [show l.setting.run l.root document = s.run root document from rfl, hasked]
    exact List.mem_singleton_self _
  · unfold l s root document twin
    rfl

end Loader
end ConfigSchema
