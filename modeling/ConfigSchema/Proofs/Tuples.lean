import ConfigSchema.Proofs.Assembled
import ConfigSchema.Proofs.Conformance
/-!
# Tuples — arrays whose elements are listed

A list of elements that a builder is given for an array says how many entries there are and what each of them is.  The
element does not keep that it was given a list: it goes by the list if there is something in it.  So an array is held to a
list that is not empty (`exact_of_ne_nil`), and to an empty one it is not: an element that should let no entry pass takes
any (`run_of_ordered`).
-/
namespace ConfigSchema
namespace Builder

/-- Whether a call says what an array holds: slots, or a list of elements. -/
def Call.isShape : Call → Bool
  | .slot _ _ | .ordered _ => true
  | _ => false

/-- A call of another sort leaves an array with the slots and the list that it has. -/
theorem current_of_apply {b b' : Builder} {call : Call} {traits : Traits} {slots : List (Kind × Element)}
    {ordered : List Element} {allowNull : Bool} (hb : b.current = some (.array traits slots ordered allowNull))
    (h : b.apply call = .ok b') (hcall : call.isShape = false) :
    ∃ traits' allowNull', b'.current = some (.array traits' slots ordered allowNull') := by
  obtain ⟨e, hchange, -, rfl⟩ := of_apply_eq_ok h
  obtain rfl : b = ⟨some (.array traits slots ordered allowNull)⟩ := congrArg Builder.mk hb
  cases call with
  | name | nullable | optional | validators | allowNullEntries =>
    cases hchange
    exact ⟨_, _, rfl⟩
  | slot | ordered => cases hcall
  | ofType | defaultValue | minLength | maxLength | validValues | minValue | maxValue | children => cases hchange

/-- **The last list that an array is given stays**, whatever is called later and accepted. -/
theorem current_foldl {slots : List (Kind × Element)} {ordered : List Element} : ∀ (rest : List Call) {b : Builder}
    {traits : Traits} {allowNull : Bool}, b.current = some (.array traits slots ordered allowNull) →
      (∀ call ∈ b.accepted rest, call.isShape = false) →
        ∃ traits' allowNull', (rest.foldl step b).current = some (.array traits' slots ordered allowNull')
  | [], b, traits, allowNull, hb, _ => ⟨traits, allowNull, hb⟩
  | call :: rest, b, traits, allowNull, hb, hrest => by
    rw [accepted] at hrest
    rw [List.foldl_cons, step]
    cases ha : b.apply call with
    | error refusal =>
      rw [ha] at hrest
      exact current_foldl rest hb hrest
    | ok b' =>
      rw [ha] at hrest
      obtain ⟨hcall, hrest⟩ := List.forall_mem_cons.1 hrest
      obtain ⟨traits', allowNull', hb'⟩ := current_of_apply hb ha hcall
      exact current_foldl rest hb' hrest

/-- An array without slots takes a list of elements in place of the one that it has. -/
theorem current_step_ordered {b : Builder} {traits : Traits} {ordered : List Element} {allowNull : Bool}
    (hb : b.current = some (.array traits [] ordered allowNull)) (elements : List Element) :
    (b.step (.ordered elements)).current = some (.array traits [] elements allowNull) := by
  obtain rfl : b = ⟨some (.array traits [] ordered allowNull)⟩ := congrArg Builder.mk hb
  rfl

end Builder

namespace Setting

variable {s : Setting}

/-- An array is accepted exactly if it has as many entries as there are elements, and each is null where null is allowed or
is accepted by its element; else, if their number is another, just that is wrong. -/
structure Exact (s : Setting) (root : Element) (elements : List Element) (allowNull : Bool) (shape : ArrayShape)
    (entries : List Value) : Prop where
  accepted : (s.run root (.array shape entries)).outcome = .ok [] ↔ entries.length = elements.length ∧
    ∀ i v e, entries[i]? = some v → elements[i]? = some e →
      v = .null ∧ allowNull = true ∨ v ≠ .null ∧ (s.walk (Pointer.root.entry i) e v).trail.Clean
  refused : entries.length ≠ elements.length → (s.run root (.array shape entries)).outcome =
    .ok [⟨.arrayContents (.wrongLength entries.length elements.length), .root⟩]

/-! ## Arrays with a list of elements -/

section Array

variable {traits : Traits} {elements : List Element} {allowNull : Bool} {shape : ArrayShape} {entries : List Value}

theorem walkRoot_array (s : Setting) (traits : Traits) (slots : List (Kind × Element)) (ordered : List Element)
    (allowNull : Bool) (shape : ArrayShape) (entries : List Value) :
    s.walkRoot (.array traits slots ordered allowNull) (.array shape entries) =
      s.walk .root (.array traits slots ordered allowNull) (.array shape entries) :=
  s.walkRoot_of_admits _ _ rfl

/-- The walk of an array without validators is clean exactly if the walks of its entries are. -/
theorem outcome_run_array (hv : traits.validators = []) (hlength : elements = [] ∨ elements.length = entries.length) :
    (s.run (.array traits [] elements allowNull) (.array shape entries)).outcome = .ok [] ↔
      (s.walkContents .root [] elements allowNull entries).trail.Clean := by
  rw [outcome_run_eq_ok, ← Trail.clean_iff, walkRoot_array, s.walk_array .root traits [] allowNull shape hlength,
    clean_walkArray]
  refine and_iff_left_of_imp fun _ w hw => ?_
  rw [Element.validators, Element.traits, hv] at hw
  cases hw

theorem clean_walkContents_ordered (helements : elements ≠ []) (hlength : entries.length = elements.length) :
    (s.walkContents .root [] elements allowNull entries).trail.Clean ↔
      ∀ i v e, entries[i]? = some v → elements[i]? = some e →
        v = .null ∧ allowNull = true ∨ v ≠ .null ∧ (s.walk (Pointer.root.entry i) e v).trail.Clean := by
  have hmode : ArrayMode.ofContents [] elements = .ordered := by simp [ArrayMode.ofContents, helements]
  have hwalk : s.walkContents .root [] elements allowNull entries =
      .each (s.walkEntry .root [] elements allowNull) 0 entries := by
    simp only [walkContents, hmode]
  rw [hwalk, Walk.clean_each]
  simp only [Nat.zero_add, clean_walkEntry, Element.entry?_ordered helements]
  constructor
  · intro h i v e hi he
    obtain ⟨hnull, hinside⟩ := h i v hi
    by_cases hv : v = .null
    · exact .inl ⟨hv, hnull hv⟩
    · obtain ⟨e', he', hclean⟩ := hinside hv
      cases he.symm.trans he'
      exact .inr ⟨hv, hclean⟩
  · intro h i v hi
    have hlt : i < elements.length := hlength ▸ (List.getElem?_eq_some_iff.1 hi).1
    have he : elements[i]? = some elements[i] := List.getElem?_eq_getElem hlt
    rcases h i v _ hi he with ⟨rfl, hnull⟩ | ⟨hv, hclean⟩
    · exact ⟨fun _ => hnull, fun hv => absurd rfl hv⟩
    · exact ⟨fun hnull => absurd hnull hv, fun _ => ⟨_, he, hclean⟩⟩

/-- An array with another number of entries than there are elements is refused for that, and for nothing else. -/
theorem outcome_run_of_length_ne (hs : s.options.stopOnFirst = false) (helements : elements ≠ [])
    (hlength : entries.length ≠ elements.length) :
    (s.run (.array traits [] elements allowNull) (.array shape entries)).outcome =
      .ok [⟨.arrayContents (.wrongLength entries.length elements.length), .root⟩] := by
  rw [outcome_run_eq_ok, walkRoot_array,
    s.walk_array_of_length_ne .root traits [] allowNull shape (not_or.2 ⟨helements, hlength.symm⟩)]
  exact ⟨by simp [found, hs], rfl⟩

/-- **An array is held to a list that is not empty.** -/
theorem exact_of_ne_nil (hs : s.options.stopOnFirst = false) (hv : traits.validators = []) (helements : elements ≠ [])
    (shape : ArrayShape) (entries : List Value) :
    s.Exact (.array traits [] elements allowNull) elements allowNull shape entries := by
  refine ⟨?_, outcome_run_of_length_ne hs helements⟩
  by_cases hlength : entries.length = elements.length
  · rw [outcome_run_array hv (.inr hlength.symm), clean_walkContents_ordered helements hlength]
    exact (and_iff_right hlength).symm
  · rw [outcome_run_of_length_ne hs helements hlength]
    exact iff_of_false nofun fun h => hlength h.1

/-- **An array with an empty list takes any entries**, and nulls if they are allowed. -/
theorem outcome_run_of_nil (hs : s.options.stopOnFirst = false) (hv : traits.validators = []) (allowNull : Bool)
    (shape : ArrayShape) (entries : List Value) :
    (s.run (.array traits [] [] allowNull) (.array shape entries)).outcome =
      .ok (if !allowNull && entries.any (·.isNull) then [⟨.nullEntry, .root⟩] else []) := by
  have hnone : ∀ v, s.askAll .root (.array traits [] [] allowNull) v = .empty := fun v => by
    rw [askAll, Element.validators, Element.traits, hv]
    rfl
  have htrail : (s.walk .root (.array traits [] [] allowNull) (.array shape entries)).trail =
      (s.anyEntries .root allowNull entries).trail := by
    rw [s.walk_array .root traits [] allowNull shape (.inl rfl), trail_walkArray, hnone, Trail.andIfClean]
    simp only [Trail.andThen_empty, ite_self]
    rfl
  rw [outcome_run_eq_ok, walkRoot_array, htrail, anyEntries]
  cases !allowNull && entries.any (·.isNull) with
  | true => exact ⟨by simp [found, hs], rfl⟩
  | false => exact ⟨rfl, rfl⟩

end Array

end Setting

namespace Builder

/-- **An array is held to the list of elements that its builder was given last exactly if there is something in the list**,
or nothing in the array.  With an empty list it takes any entries. -/
theorem run_of_ordered {b : Builder} {traits : Traits} {ordered : List Element} {allowNull : Bool}
    (hb : b.current = some (.array traits [] ordered allowNull)) (elements : List Element) (rest : List Call)
    (hrest : ∀ call ∈ (b.step (.ordered elements)).accepted rest, call.isShape = false) :
    ∃ traits allowNull,
      (rest.foldl step (b.step (.ordered elements))).build = .ok (.array traits [] elements allowNull) ∧
      (traits.validators = [] → ∀ s : Setting, s.options.stopOnFirst = false → ∀ shape entries,
        (s.Exact (.array traits [] elements allowNull) elements allowNull shape entries ↔
          elements ≠ [] ∨ entries = []) ∧
        (elements = [] → (s.run (.array traits [] elements allowNull) (.array shape entries)).outcome =
          .ok (if !allowNull && entries.any (·.isNull) then [⟨.nullEntry, .root⟩] else []))) := by
  obtain ⟨traits', allowNull', hcurrent⟩ := current_foldl rest (current_step_ordered hb elements) hrest
  refine ⟨traits', allowNull', by rw [build, hcurrent], fun hv s hs shape entries => ⟨?_, ?_⟩⟩
  · by_cases helements : elements = []
    · subst helements
      have houtcome := Setting.outcome_run_of_nil hs hv allowNull' shape entries
      constructor
      · intro hexact
        refine .inr (Classical.byContradiction fun hentries => ?_)
        have hrefused := hexact.refused (mt List.length_eq_zero_iff.1 hentries)
        rw [houtcome] at hrefused
        split at hrefused <;> cases hrefused
      · rintro (h | rfl)
        · exact absurd rfl h
        · refine ⟨iff_of_true ?_ ⟨rfl, nofun⟩, fun h => absurd rfl h⟩
          rw [houtcome, List.any_nil, Bool.and_false, if_neg Bool.false_ne_true]
    · exact iff_of_true (Setting.exact_of_ne_nil hs hv helements shape entries) (.inl helements)
  · rintro rfl
    exact Setting.outcome_run_of_nil hs hv allowNull' shape entries

/-- Nulls are allowed after the list is given, and a slot is refused then: a null and a number are taken. -/
theorem run_of_ordered_null :
    let s : Setting := ⟨{}, fun _ _ _ => .reject⟩
    let elements : List Element := [.string {} {}, .number {} { maxValue := some (.whole 3) }]
    let entries : List Value := [.null, .number (.whole 3)]
    let calls : List Call := [.allowNullEntries, .slot "number" none]
    let built := calls.foldl step ((⟨some (.bare .array)⟩ : Builder).step (.ordered elements))
    built.build = .ok (.array {} [] elements true) ∧ s.Exact (.array {} [] elements true) elements true .list entries ∧
      (s.run (.array {} [] elements true) (.array .list entries)).outcome = .ok [] := by
  intro s elements entries calls built
  have hbuilt : built.build = .ok (.array {} [] elements true) := rfl
  have hrest : ∀ call ∈ ((⟨some (.bare .array)⟩ : Builder).step (.ordered elements)).accepted calls,
      call.isShape = false := by
    rw [show ((⟨some (.bare .array)⟩ : Builder).step (.ordered elements)).accepted calls = [.allowNullEntries] from rfl]
    exact List.forall_mem_singleton.2 rfl
  obtain ⟨traits, allowNull, hbuild, hexact⟩ :=
    run_of_ordered (b := ⟨some (.bare .array)⟩) rfl elements calls hrest
  cases hbuilt.symm.trans hbuild
  have hrun := (hexact rfl s rfl .list entries).1.2 (.inl (List.cons_ne_nil _ _))
  refine ⟨hbuilt, hrun, ?_⟩
  unfold s elements entries
  rfl

/-- A number is taken where nothing is listed. -/
theorem run_of_ordered_nothing : ¬ ∀ (b : Builder) (traits : Traits) (ordered elements : List Element) (allowNull : Bool)
    (s : Setting) (shape : ArrayShape) (entries : List Value), b.current = some (.array traits [] ordered allowNull) →
      (b.step (.ordered elements)).build = .ok (.array traits [] elements allowNull) → traits.validators = [] →
      s.options.stopOnFirst = false → s.Exact (.array traits [] elements allowNull) elements allowNull shape entries := by
  intro h
  let s : Setting := ⟨{}, fun _ _ _ => .accept⟩
  let entries : List Value := [.number (.whole 1)]
  have hexact := h ⟨some (.bare .array)⟩ {} [] [] false s .list entries rfl rfl rfl rfl
  have hrefused := hexact.refused (by decide)
  have htaken : (s.run (.array {} [] [] false) (.array .list entries)).outcome = .ok [] := by
    unfold s entries
    rfl
  cases htaken.symm.trans hrefused

end Builder
end ConfigSchema
