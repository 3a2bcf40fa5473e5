import ConfigSchema.Proofs.Told
/-!
# Findings — where the violations of a walk come from

A violation that a joined trail tells of comes from one of its parts, and from the second one only if the first one went
through.  Two violations that are related whenever they come from one part, or from two parts in this order, are related in
the whole (`pairwise_violations_sequence`, `pairwise_violations_each`).
-/
namespace ConfigSchema

namespace Trail

variable {t u : Trail} {x : Violation} {R : Violation → Violation → Prop}

theorem mem_violations_andThen (h : x ∈ (t.andThen u).violations) :
    x ∈ t.violations ∨ t.halt = none ∧ x ∈ u.violations := mem_told_andThen h

theorem mem_violations_andIfClean (h : x ∈ (t.andIfClean u).violations) :
    x ∈ t.violations ∨ t.halt = none ∧ x ∈ u.violations := mem_told_andIfClean h

theorem mem_violations_sequence {ts : List Trail} (h : x ∈ (sequence ts).violations) : ∃ t ∈ ts, x ∈ t.violations :=
  mem_told_sequence h

theorem pairwise_violations_andThen (ht : t.violations.Pairwise R) (hu : u.violations.Pairwise R)
    (h : ∀ x ∈ t.violations, ∀ y ∈ u.violations, R x y) : (t.andThen u).violations.Pairwise R :=
  pairwise_told_andThen ht hu h

/-- The second trail of a join that asks for a clean first one is never met by a violation of the first. -/
theorem pairwise_violations_andIfClean (ht : t.violations.Pairwise R) (hu : u.violations.Pairwise R) :
    (t.andIfClean u).violations.Pairwise R := by
  refine pairwise_told_andIfClean ht hu fun hv x hx => ?_
  have hnone : x ∈ t.violations := hx
  rw [hv] at hnone
  cases hnone

/-- **Violations of a sequence are related** if those of each trail are, and those of each two trails in their order. -/
theorem pairwise_violations_sequence {ts : List Trail} (heach : ∀ t ∈ ts, t.violations.Pairwise R)
    (hcross : ts.Pairwise fun t u => ∀ x ∈ t.violations, ∀ y ∈ u.violations, R x y) :
    (sequence ts).violations.Pairwise R := pairwise_told_sequence heach hcross

end Trail

namespace Walk

variable {α : Type} {f : Nat → α → Walk α} {index : Nat} {parts : List α} {x : Violation}
  {R : Violation → Violation → Prop}

theorem mem_violations_each (h : x ∈ (each f index parts).trail.violations) :
    ∃ i a, parts[i]? = some a ∧ x ∈ (f (index + i) a).trail.violations := mem_told_each h

/-- **Violations of a walk of a list are related** if those of each part are, and those of each two parts in their order. -/
theorem pairwise_violations_each (heach : ∀ i a, parts[i]? = some a → (f (index + i) a).trail.violations.Pairwise R)
    (hcross : ∀ i j a b, i < j → parts[i]? = some a → parts[j]? = some b →
      ∀ x ∈ (f (index + i) a).trail.violations, ∀ y ∈ (f (index + j) b).trail.violations, R x y) :
    (each f index parts).trail.violations.Pairwise R := pairwise_told_each heach hcross

end Walk

namespace Setting

variable {s : Setting} {path : Pointer} {e : Element} {v : Value} {x : Violation}

theorem mem_violations_found {cause : Cause} : x ∈ (s.found path cause).violations ↔ x = ⟨cause, path⟩ := by
  rw [violations_found, List.mem_singleton]

theorem mem_violations_foundAll {causes : List Cause} (h : x ∈ (s.foundAll path causes).violations) :
    ∃ cause ∈ causes, x = ⟨cause, path⟩ := by
  obtain ⟨t, ht, hx⟩ := Trail.mem_violations_sequence h
  obtain ⟨cause, hc, rfl⟩ := List.mem_map.1 ht
  exact ⟨cause, hc, mem_violations_found.1 hx⟩

theorem mem_violations_ask {w : Validator} (h : x ∈ (s.ask path e v w).violations) :
    s.judge w e v = .reject ∧ x = ⟨.badValue (.rejectedBy w.label), path⟩ := by
  rw [ask, Trail.violations_andThen rfl, List.mem_append] at h
  rcases h with h | h
  · cases h
  · cases hj : s.judge w e v with
    | accept | fail => rw [hj] at h; cases h
    | reject => rw [hj] at h; exact ⟨rfl, mem_violations_found.1 h⟩

theorem mem_violations_askAll (h : x ∈ (s.askAll path e v).violations) :
    ∃ w ∈ e.validators, s.judge w e v = .reject ∧ x = ⟨.badValue (.rejectedBy w.label), path⟩ := by
  obtain ⟨t, ht, hx⟩ := Trail.mem_violations_sequence h
  obtain ⟨w, hw, rfl⟩ := List.mem_map.1 ht
  exact ⟨w, hw, mem_violations_ask hx⟩

theorem mem_violations_reportMissing {children : List (String × Element)} {fields : List (Key × Value)}
    (h : x ∈ (s.reportMissing path children fields).violations) :
    ∃ name ∈ Element.missingNames children fields, x = ⟨.missingField name, path.push name⟩ := by
  obtain ⟨t, ht, hx⟩ := Trail.mem_violations_sequence h
  obtain ⟨name, hn, rfl⟩ := List.mem_map.1 ht
  exact ⟨name, hn, mem_violations_found.1 hx⟩

theorem mem_violations_opening {children : List (String × Element)} {fields : List (Key × Value)}
    (h : x ∈ ((s.dropMeta path fields).andThen (s.reportMissing path children fields)).violations) :
    ∃ name ∈ Element.missingNames children fields, x = ⟨.missingField name, path.push name⟩ := by
  rcases Trail.mem_violations_andThen h with h | ⟨-, h⟩
  · rw [(s.clean_dropMeta path fields).violations] at h
    cases h
  · exact mem_violations_reportMissing h

theorem mem_violations_walkField {children : List (String × Element)} {field : Key × Value}
    (h : x ∈ (s.walkField path children field).trail.violations) :
    ∃ name child, field.1 = .name name ∧ Element.child? children name = some child ∧
      x ∈ (s.walk (path.push name) child field.2).trail.violations := by
  obtain ⟨key, v⟩ := field
  unfold walkField at h
  cases key with
  | number | null => cases h
  | name name =>
    simp only [Element.governing?] at h
    cases hg : Element.child? children name with
    | none => rw [hg] at h; cases h
    | some child => rw [hg] at h; exact ⟨name, child, rfl, hg, h⟩

theorem mem_violations_walkObject {children : List (String × Element)} {fields : List (Key × Value)}
    {inside : Walk (List (Key × Value))}
    (h : x ∈ (s.walkObject path e children fields inside).trail.violations) :
    x ∈ ((s.dropMeta path fields).andThen (s.reportMissing path children fields)).violations ∨
      x ∈ inside.trail.violations ∨
      ((s.dropMeta path fields).andThen (s.reportMissing path children fields)).halt = none ∧ inside.trail.halt = none ∧
        x ∈ (s.askAll path e (s.walkObject path e children fields inside).left).violations := by
  rw [trail_walkObject] at h
  rcases Trail.mem_violations_andThen h with h | ⟨-, h⟩
  · rcases Trail.mem_violations_andIfClean h with h | ⟨hh, h⟩
    · exact (Trail.mem_violations_andThen h).imp_right fun h => .inl h.2
    · rw [Trail.halt_andThen_eq_none] at hh
      exact .inr (.inr ⟨hh.1, hh.2, h⟩)
  · rw [(s.clean_noteUnlisted children fields).violations] at h
    cases h

end Setting
end ConfigSchema
