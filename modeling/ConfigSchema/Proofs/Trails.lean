import ConfigSchema.Validation.Traversal
/-!
# Trails — what joined trails tell of

A join goes on only after a trail without an early end, so what it tells of is read off its parts.  A trail is clean if it
went through and tells of no violation; a join is clean exactly when its parts are.
-/
namespace ConfigSchema

namespace Event

@[simp] theorem violations_append (l l' : List Event) : violations (l ++ l') = violations l ++ violations l' :=
  List.filterMap_append

end Event

namespace Trail

variable {t u : Trail}

theorem andThen_of_some {halt : Halt} (h : t.halt = some halt) (u : Trail) : t.andThen u = t := by
  simp only [andThen, h]

theorem andThen_of_none (h : t.halt = none) (u : Trail) :
    t.andThen u = ⟨t.events ++ u.events, t.unlisted ++ u.unlisted, u.halt⟩ := by
  simp only [andThen, h]

theorem halt_andThen_eq_none : (t.andThen u).halt = none ↔ t.halt = none ∧ u.halt = none := by
  cases h : t.halt with
  | none => simp [andThen_of_none h]
  | some halt => simp [andThen_of_some h, h]

theorem violations_andThen (h : t.halt = none) (u : Trail) :
    (t.andThen u).violations = t.violations ++ u.violations := by
  rw [andThen_of_none h]
  exact Event.violations_append _ _

theorem unlisted_andThen (h : t.halt = none) (u : Trail) : (t.andThen u).unlisted = t.unlisted ++ u.unlisted := by
  rw [andThen_of_none h]

theorem halt_sequence_eq_none : ∀ {ts : List Trail}, (sequence ts).halt = none ↔ ∀ t ∈ ts, t.halt = none
  | [] => by simp [sequence, empty]
  | t :: ts => by rw [sequence, halt_andThen_eq_none, halt_sequence_eq_none, List.forall_mem_cons]

theorem unlisted_sequence : ∀ {ts : List Trail}, (sequence ts).halt = none →
    (sequence ts).unlisted = ts.flatMap (·.unlisted)
  | [], _ => rfl
  | t :: ts, h => by
    obtain ⟨ht, hts⟩ := halt_andThen_eq_none.1 h
    rw [sequence, unlisted_andThen ht, unlisted_sequence hts, List.flatMap_cons]

theorem unlisted_sequence_nil : ∀ {ts : List Trail}, (∀ t ∈ ts, t.unlisted = []) → (sequence ts).unlisted = []
  | [], _ => rfl
  | t :: ts, h => by
    have ht := h t List.mem_cons_self
    have hts := unlisted_sequence_nil fun u hu => h u (List.mem_cons_of_mem t hu)
    cases hh : t.halt with
    | none => rw [sequence, unlisted_andThen hh, ht, hts]; rfl
    | some halt => rw [sequence, andThen_of_some hh, ht]

theorem andIfClean_of_nil (h : t.violations = []) (u : Trail) : t.andIfClean u = t.andThen u := by
  simp only [andIfClean, h, List.isEmpty_nil, if_true]

theorem andIfClean_of_ne_nil (h : t.violations ≠ []) (u : Trail) : t.andIfClean u = t := by
  simp only [andIfClean, List.isEmpty_iff, h, if_false]

theorem halt_of_halt_andIfClean (h : (t.andIfClean u).halt = none) : t.halt = none := by
  by_cases hv : t.violations = []
  · rw [andIfClean_of_nil hv] at h
    exact (halt_andThen_eq_none.1 h).1
  · rwa [andIfClean_of_ne_nil hv] at h

@[simp] theorem halt_under (step : Step) (t : Trail) : (t.under step).halt = t.halt := rfl

@[simp] theorem violations_under (step : Step) (t : Trail) : (t.under step).violations = t.violations := rfl

/-- A trail that went through and tells of no violation. -/
structure Clean (t : Trail) : Prop where
  halt : t.halt = none
  violations : t.violations = []

theorem clean_iff : t.Clean ↔ t.halt = none ∧ t.violations = [] := ⟨fun h => ⟨h.1, h.2⟩, fun h => ⟨h.1, h.2⟩⟩

@[simp] theorem clean_empty : empty.Clean := ⟨rfl, rfl⟩

@[simp] theorem clean_note (r : Removal) : (note r).Clean := ⟨rfl, rfl⟩

@[simp] theorem clean_event {e : Event} : (event e).Clean ↔ e.violation? = none := by
  cases e <;> simp [clean_iff, event, violations, Event.violations, Event.violation?]

@[simp] theorem clean_under {step : Step} : (t.under step).Clean ↔ t.Clean := by
  simp only [clean_iff, halt_under, violations_under]

/-- **A join is clean exactly when both of its parts are.** -/
@[simp] theorem clean_andThen : (t.andThen u).Clean ↔ t.Clean ∧ u.Clean := by
  constructor
  · intro h
    obtain ⟨ht, hu⟩ := halt_andThen_eq_none.1 h.halt
    have hv := h.violations
    rw [violations_andThen ht, List.append_eq_nil_iff] at hv
    exact ⟨⟨ht, hv.1⟩, ⟨hu, hv.2⟩⟩
  · rintro ⟨ht, hu⟩
    refine ⟨halt_andThen_eq_none.2 ⟨ht.halt, hu.halt⟩, ?_⟩
    rw [violations_andThen ht.halt, ht.violations, hu.violations]
    rfl

@[simp] theorem clean_andIfClean : (t.andIfClean u).Clean ↔ t.Clean ∧ u.Clean := by
  by_cases hv : t.violations = []
  · rw [andIfClean_of_nil hv, clean_andThen]
  · rw [andIfClean_of_ne_nil hv]
    exact ⟨fun h => absurd h.violations hv, fun h => absurd h.1.violations hv⟩

@[simp] theorem clean_sequence : ∀ {ts : List Trail}, (sequence ts).Clean ↔ ∀ t ∈ ts, t.Clean
  | [] => by simp [sequence]
  | t :: ts => by rw [sequence, clean_andThen, clean_sequence, List.forall_mem_cons]

end Trail

namespace Setting

variable (s : Setting) (path : Pointer) (e : Element) (v : Value)

@[simp] theorem violations_found (cause : Cause) : (s.found path cause).violations = [⟨cause, path⟩] := rfl

@[simp] theorem not_clean_found (cause : Cause) : ¬ (s.found path cause).Clean := fun h => by cases h.violations

@[simp] theorem clean_foundAll (causes : List Cause) : (s.foundAll path causes).Clean ↔ causes = [] := by
  cases causes <;> simp [foundAll]

@[simp] theorem clean_heed (validator : Validator) (verdict : Verdict) :
    (s.heed path validator verdict).Clean ↔ verdict = .accept := by
  cases verdict with
  | accept => simp [heed]
  | reject => simp [heed]
  | fail f => simp [heed, Trail.clean_iff]

@[simp] theorem clean_askAll : (s.askAll path e v).Clean ↔ ∀ w ∈ e.validators, s.judge w e v = .accept := by
  simp [askAll, ask, Event.violation?]

@[simp] theorem clean_wrongKind : ¬ (s.wrongKind path e v).Clean := s.not_clean_found path _

@[simp] theorem clean_nullField : (s.nullField path e).Clean ↔ e.traits.nullable = true := by
  unfold nullField
  split
  · rename_i h
    simp [h]
  · rename_i h
    simp [h]

@[simp] theorem clean_dropMeta (fields : List (Key × Value)) : (s.dropMeta path fields).Clean := by
  unfold dropMeta
  simp only
  split
  · exact Trail.clean_empty
  · exact Trail.clean_event.2 rfl

@[simp] theorem clean_reportMissing (children : List (String × Element)) (fields : List (Key × Value)) :
    (s.reportMissing path children fields).Clean ↔ Element.missingNames children fields = [] := by
  cases h : Element.missingNames children fields <;> simp [reportMissing, h]

@[simp] theorem clean_noteUnlisted (children : List (String × Element)) (fields : List (Key × Value)) :
    (s.noteUnlisted children fields).Clean := by
  unfold noteUnlisted
  simp only
  split
  · exact Trail.clean_note _
  · exact Trail.clean_empty

/-! ### Trails without notes -/

@[simp] theorem unlisted_dropMeta (fields : List (Key × Value)) : (s.dropMeta path fields).unlisted = [] := by
  unfold dropMeta
  simp only
  split <;> rfl

@[simp] theorem unlisted_reportMissing (children : List (String × Element)) (fields : List (Key × Value)) :
    (s.reportMissing path children fields).unlisted = [] :=
  Trail.unlisted_sequence_nil fun t ht => by
    obtain ⟨name, -, rfl⟩ := List.mem_map.1 ht
    rfl

@[simp] theorem unlisted_foundAll (causes : List Cause) : (s.foundAll path causes).unlisted = [] :=
  Trail.unlisted_sequence_nil fun t ht => by
    obtain ⟨cause, -, rfl⟩ := List.mem_map.1 ht
    rfl

@[simp] theorem unlisted_askAll : (s.askAll path e v).unlisted = [] :=
  Trail.unlisted_sequence_nil fun t ht => by
    obtain ⟨w, -, rfl⟩ := List.mem_map.1 ht
    unfold ask
    rw [Trail.unlisted_andThen rfl]
    cases s.judge w e v <;> rfl

end Setting
end ConfigSchema
