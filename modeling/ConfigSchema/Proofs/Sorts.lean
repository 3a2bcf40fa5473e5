import ConfigSchema.Value
/-!
# Sorts — one question after the other, and a question for each kind

A value is classified twice: by the first question that it answers (`Membership.tag?`), and by the question of each kind,
which has exceptions of its own (`Membership.isOf`).  Whatever types a value is of, it is of the kind that the first gives it.
The second may say more: a number that is a mapping too would be tagged a number, and be of the kind of objects as well.  The
two agree just on what is of one sort (`OneSort`), and what a decoder gives is: of its types only boolean and number, text and
sequence, bytes and sequence, and sequence and mapping go together.
-/
namespace ConfigSchema
namespace Membership

variable {m : Membership} {k : Kind}

/-- At most one of null, a number or boolean, a text, and an array or mapping.  A boolean may be a number, a text a sequence,
and an array a mapping. -/
structure OneSort (m : Membership) : Prop where
  null : m.null = true → (m.boolean || m.number || m.string || m.isArray || m.mapping) = false
  numeric : (m.boolean || m.number) = true → (m.string || m.isArray || m.mapping) = false
  text : m.string = true → m.mapping = false

/-- **A value is of the kind that its tag names**, whatever types it is of. -/
theorem isOf_of_tag? (h : m.tag? = some (some k)) : m.isOf k = true := by
  unfold tag? at h
  cases k <;> simp only [isOf] <;> grind

/-- What is a sequence and neither text nor bytes is no text. -/
theorem string_of_isArray (h : m.isArray = true) : m.string = false := by
  unfold isArray at h
  grind

/-- A value of one sort has the tag of the kind that it is of. -/
theorem OneSort.tag?_of_isOf (hm : m.OneSort) (h : m.isOf k = true) : m.tag? = some (some k) := by
  obtain ⟨hnull, hnumeric, htext⟩ := hm
  have harray := @string_of_isArray m
  unfold tag?
  cases k <;> simp only [isOf] at h <;> grind

/-- A value is of one sort if its tag names every kind that it is of: two kinds would need two tags, and null has none. -/
theorem oneSort_of_tag? (h : ∀ k, m.isOf k = true → m.tag? = some (some k)) : m.OneSort := by
  have hnull : m.null = true → ∀ k, m.isOf k = false := fun hn k => Bool.eq_false_iff.2 fun hk => by
    have htag := h k hk
    rw [tag?, if_pos hn] at htag
    cases htag
  have hone : ∀ k k', m.isOf k = true → m.isOf k' = true → k = k' := fun k k' hk hk' => by
    simpa using (h k hk).symm.trans (h k' hk')
  refine ⟨fun hn => ?_, fun hn => ?_, fun hs => ?_⟩
  · have hobject := hnull hn .object
    have harray := hnull hn .array
    have hstring := hnull hn .string
    have hnumber := hnull hn .number
    have hboolean := hnull hn .boolean
    simp only [isOf] at hobject harray hstring hnumber hboolean
    grind
  · obtain ⟨k, hk, hkind⟩ : ∃ k, m.isOf k = true ∧ (k = .boolean ∨ k = .number) := by
      cases hb : m.boolean with
      | true => exact ⟨.boolean, hb, .inl rfl⟩
      | false => exact ⟨.number, by grind [isOf], .inr rfl⟩
    have hother : ∀ k', k' ≠ .boolean → k' ≠ .number → m.isOf k' = false := fun k' => by
      have := hone k k' hk
      grind
    have hobject := hother .object (by decide) (by decide)
    have harray := hother .array (by decide) (by decide)
    have hstring := hother .string (by decide) (by decide)
    simp only [isOf] at hobject harray hstring
    grind
  · have harray : m.isArray = false := Bool.eq_false_iff.2 fun ha => by
      rw [string_of_isArray ha] at hs
      cases hs
    refine Bool.eq_false_iff.2 fun hmapping => ?_
    have hobject : m.isOf .object = true := by rw [isOf, hmapping, harray]; rfl
    cases hone .string .object hs hobject

/-- **The two ways to classify a value agree just if it is of one sort.** -/
theorem oneSort_iff : m.OneSort ↔ ∀ k, m.isOf k = true ↔ m.tag? = some (some k) :=
  ⟨fun hm _ => ⟨hm.tag?_of_isOf, isOf_of_tag?⟩, fun h => oneSort_of_tag? fun k => (h k).1⟩

/-- What is refused is of no sort at all. -/
theorem oneSort_of_refused (h : m.tag? = none) : m.OneSort := oneSort_of_tag? fun k hk => by
  rw [isOf_of_refused h] at hk
  cases hk

end Membership

namespace Value

/-- Every value of a document is of one sort. -/
theorem oneSort (v : Value) : v.membership.OneSort := by
  cases v with
  | foreign f => exact Membership.oneSort_of_refused f.refused
  | null => exact ⟨fun _ => rfl, nofun, nofun⟩
  | boolean | number => exact ⟨nofun, fun _ => rfl, nofun⟩
  | string => exact ⟨nofun, nofun, fun _ => rfl⟩
  | array | object => exact ⟨nofun, nofun, nofun⟩

/-- **A value is of a kind just if the kind is its own.** -/
theorem isOf_iff (k : Kind) (v : Value) : v.isOf k = true ↔ v.kind? = .ok (some k) := by
  rw [isOf, Membership.oneSort_iff.1 v.oneSort k, kind?]
  cases v.membership.tag? with
  | none => simp
  | some tag => rw [Option.some.injEq, Except.ok.injEq]

theorem kindName_of_isOf {v : Value} {k : Kind} (h : v.isOf k = true) : v.kindName = k.label := by
  rw [kindName, (isOf_iff k v).1 h]

end Value
end ConfigSchema
