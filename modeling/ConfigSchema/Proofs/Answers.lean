import ConfigSchema.Once
import ConfigSchema.Proofs.Endings
/-!
# Answers — one verdict, whichever way it is asked for

A document can be validated, checked, asked about and asserted, by a loader that has been used or by one of its own, and
it can be taken in as a text.  If no validator fails, all of these come to the same errors and leave the same document
(`Loader.Agrees`); they differ in what they make of the errors.
-/
namespace ConfigSchema

theorem Event.mem_violations {x : Violation} {events : List Event} : x ∈ violations events ↔ .found x ∈ events := by
  rw [violations, List.mem_filterMap]
  constructor
  · rintro ⟨event, hm, hx⟩
    cases event with
    | found y =>
      cases hx
      exact hm
    | began | metaPruned | judged | unlistedPruned | finished => cases hx
  · exact fun hm => ⟨_, hm, rfl⟩

namespace Setting

/-- No validator fails. -/
def Decides (s : Setting) : Prop := ∀ w e v f, s.judge w e v ≠ .fail f

variable {s : Setting} {root : Element} {document : Value}

/-- Where violations end a run, none was found before anything ended it. -/
theorem violations_eq_nil_of_ending? {events : List Event} (hstop : s.options.stopOnFirst = true)
    (h : ∀ event ∈ events, s.ending? event = none) : Event.violations events = [] := by
  refine List.eq_nil_iff_forall_not_mem.2 fun x hx => ?_
  have hx := h _ (Event.mem_violations.1 hx)
  rw [ending?, if_pos hstop] at hx
  cases hx

/-- Where no validator fails, only a violation can end a run. -/
theorem Decides.eq_found (hs : s.Decides) {event : Event} {halt : Halt} (h : s.ending? event = some halt) :
    ∃ x, event = .found x ∧ s.options.stopOnFirst = true ∧ halt = .firstViolation x :=
  (ending?_eq_some.1 h).resolve_right fun ⟨w, e, v, f, _, hj, _⟩ => hs w e v f hj

/-- Where no validator fails, a run ends early exactly if it stops at a violation, which then is the only one. -/
theorem Decides.halt_run (hs : s.Decides) (root : Element) (document : Value) :
    ((s.run root document).halt = none ∧
        (s.options.stopOnFirst = true → (s.run root document).violations = [])) ∨
      ∃ x, (s.run root document).halt = some (.firstViolation x) ∧ (s.run root document).violations = [x] ∧
        s.options.stopOnFirst = true := by
  have hprompt := s.prompt_run root document
  cases hh : (s.run root document).halt with
  | none =>
    refine .inl ⟨rfl, fun hstop => violations_eq_nil_of_ending? hstop fun event hm => ?_⟩
    cases he : s.ending? event with
    | none => rfl
    | some halt =>
      rw [(hprompt.of_mem hm he).1] at hh
      cases hh
  | some halt =>
    obtain ⟨before, event, hevents, he, hbefore⟩ := hprompt.of_halt hh
    obtain ⟨x, rfl, hstop, rfl⟩ := hs.eq_found he
    refine .inr ⟨x, rfl, ?_, hstop⟩
    rw [Run.violations, hevents, Event.violations_append, violations_eq_nil_of_ending? hstop hbefore]
    rfl

end Setting

namespace Loader

/-- The ways to take in a document agree on its errors and on what is left of it. -/
structure Agrees (l : Loader) (document : Value) (errors : List Violation) (left : Value) : Prop where
  check : (l.check document).answer = .ok ⟨errors.isEmpty, errors, left⟩
  isValid : (l.root.isValid l.setting document).answer = .ok errors.isEmpty
  accepts : errors = [] →
    (l.validate document).answer = .ok left ∧ (l.root.assertValid l.setting document).1 = .ok left
  /-- A run that stops at its first violation raises just that. -/
  stops : l.setting.options.stopOnFirst = true → errors ≠ [] →
    ∃ x, errors = [x] ∧ (l.validate document).answer = .error (.firstViolation x)
  collects : l.setting.options.stopOnFirst = false → errors ≠ [] →
    (l.validate document).answer = .error (.rejected errors)
  asserts : errors ≠ [] → ∃ r, (l.root.assertValid l.setting document).1 = .error (.invalid r) ∧ ∀ p : Printing,
    (AssertionRaised.invalid r).message p =
      "Configuration not valid: " ++ toString errors.length ++ " error(s)\n  data: " ++ left.display p ++ "\n" ++
        String.intercalate "\n"
          (errors.map fun x => "  " ++ x.path.shown ++ ": " ++ x.errorClass.name ++ ": " ++ x.message)
  /-- Whatever was listed on the loader before, the errors are listed now. -/
  lists : (l.check document).loader.errors = errors ∧ (l.validate document).loader.errors = errors
  leaves : (l.check document).run.map (·.document) = some left ∧
    (l.validate document).run.map (·.document) = some left ∧
    (l.root.isValid l.setting document).run.map (·.document) = some left ∧
    (l.root.assertValid l.setting document).2.run.map (·.document) = some left
  /-- A loader of one's own answers as any other one. -/
  once : (l.root.check l.setting document).answer = (l.check document).answer ∧
    (l.root.validate l.setting document).answer = (l.validate document).answer
  /-- A text that cannot be decoded comes to no run, so no validator is asked about it. -/
  undecoded : ∀ text f, l.decode text = .error f →
    (l.parse text).answer = .error (.failure f) ∧ (l.parse text).run = none ∧ (l.parse text).loader.errors = []
  decoded : ∀ text, l.decode text = .ok document → l.parse text = l.validate document

theorem check_of_decides {l : Loader} (hs : l.setting.Decides) (document : Value) :
    let run := l.setting.run l.root document
    l.check document =
      ⟨.ok ⟨run.violations.isEmpty, run.violations, run.document⟩, some run, { l with errors := run.violations }⟩ := by
  rcases hs.halt_run l.root document with ⟨hh, -⟩ | ⟨x, hh, -, -⟩ <;> simp only [check, hh]

theorem parse_of_error {l : Loader} {text : String} {f : Failure} (h : l.decode text = .error f) :
    l.parse text = ⟨.error (.failure f), none, { l with errors := [] }⟩ := by
  simp only [parse, h]

theorem parse_of_ok {l : Loader} {text : String} {document : Value} (h : l.decode text = .ok document) :
    l.parse text = l.validate document := by
  simp only [parse, h]

theorem validate_of_decides {l : Loader} (hs : l.setting.Decides) (document : Value) :
    let run := l.setting.run l.root document
    (run.violations = [] → (l.validate document).answer = .ok run.document) ∧
      (run.violations ≠ [] → if l.setting.options.stopOnFirst
        then ∃ x, run.violations = [x] ∧ (l.validate document).answer = .error (.firstViolation x)
        else (l.validate document).answer = .error (.rejected run.violations)) := by
  intro run
  rcases hs.halt_run l.root document with ⟨hh, hstop⟩ | ⟨x, hh, hx, hstop⟩
  · refine ⟨fun hnil => ?_, fun hne => ?_⟩
    · simp only [validate, hh]
      rw [if_pos (List.isEmpty_iff.2 hnil)]
    · rw [if_neg fun hs => hne (hstop hs)]
      simp only [validate, hh]
      rw [if_neg fun hnil => hne (List.isEmpty_iff.1 hnil)]
  · refine ⟨fun hnil => ?_, fun _ => ?_⟩
    · rw [hx] at hnil
      cases hnil
    · rw [if_pos hstop]
      refine ⟨x, hx, ?_⟩
      simp only [validate, hh]
      rfl

theorem assertValid_of_decides {l : Loader} (hs : l.setting.Decides) (document : Value) :
    let run := l.setting.run l.root document
    (l.assertValid document).1 = if run.violations = [] then .ok run.document
      else .error (.invalid ⟨false, run.violations, run.document⟩) := by
  intro run
  unfold assertValid
  rw [check_of_decides hs document]
  simp only
  cases (l.setting.run l.root document).violations <;> rfl

/-- **Where no validator fails, all ways to take in a document agree.** -/
theorem agrees_run (l : Loader) (document : Value) (hs : l.setting.Decides) :
    l.Agrees document (l.setting.run l.root document).violations (l.setting.run l.root document).document := by
  have hcheck := check_of_decides hs document
  have hown : (l.root.check l.setting document) = _ := check_of_decides (l := l.root.loader l.setting) hs document
  have hvalidate := validate_of_decides hs document
  have hassert : (l.root.assertValid l.setting document).1 = _ :=
    assertValid_of_decides (l := l.root.loader l.setting) hs document
  exact {
    check := by rw [hcheck]
    isValid := by
      rw [Element.isValid, isValid, ← Element.check, hown]
      rfl
    accepts := fun hnil => ⟨hvalidate.1 hnil, hassert.trans (if_pos hnil)⟩
    stops := fun hstop hne => by
      have h := hvalidate.2 hne
      rwa [if_pos hstop] at h
    collects := fun hgo hne => by
      have h := hvalidate.2 hne
      rwa [if_neg (by rw [hgo]; exact Bool.false_ne_true)] at h
    asserts := fun hne => ⟨_, hassert.trans (if_neg hne), fun _ => rfl⟩
    lists := ⟨by rw [hcheck], rfl⟩
    leaves := by
      rw [Element.isValid, isValid, Element.assertValid, assertValid, ← Element.check, hown, hcheck]
      exact ⟨rfl, rfl, rfl, rfl⟩
    once := ⟨by rw [hown, hcheck]; rfl, rfl⟩
    undecoded := fun text f h => by
      rw [parse_of_error h]
      exact ⟨rfl, rfl, rfl⟩
    decoded := fun text h => parse_of_ok h }

/-- A loader that stops at the first of two violations, has another one listed, and fails to decode with that one. -/
theorem agrees_run_first :
    let s : Setting := ⟨{ stopOnFirst := true }, fun _ _ _ => .accept⟩
    let root := Element.object {} [("x", .number {} {}), ("y", .number {} {})]
    let listed : Violation := ⟨.nullEntry, ⟨"/z"⟩⟩
    let l : Loader := ⟨root, s, fun _ => .error (.violation listed), [listed]⟩
    let document := Value.object [(.name "$m", .null), (.name "x", .string "text"), (.name "y", .null)]
    let left := Value.object [(.name "x", .string "text"), (.name "y", .null)]
    l.Agrees document [⟨.wrongType "string" "number", ⟨"/x"⟩⟩] left ∧
      (l.parse "text").answer = .error (.failure (.violation listed)) := by
  intro s root listed l document left
  have herrors : (s.run root document).violations = [⟨.wrongType "string" "number", ⟨"/x"⟩⟩] := by
    unfold s root document
    rfl
  have hleft : (s.run root document).document = left := by
    unfold s root document
    rfl
  have h := agrees_run l document fun _ _ _ _ hj => nomatch hj
  rw [show l.setting.run l.root document = s.run root document from rfl, herrors, hleft] at h
  exact ⟨h, (h.undecoded "text" _ rfl).1⟩

end Loader
end ConfigSchema
