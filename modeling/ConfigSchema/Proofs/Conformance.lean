import ConfigSchema.Proofs.Pruning
import ConfigSchema.Proofs.Sorts
/-!
# Conformance — which documents a run accepts

`Conforms` says by rules, one for each way in which an element and a value can meet, what it is for a value to be as its
element asks.  A walk is clean exactly over a value that conforms (`clean_walk`), so a run gives no violations exactly for
a document that conforms to the root (`outcome_run_eq_nil`).
-/
namespace ConfigSchema

/-- A number is neither below the one bound nor above the other, as far as they are set. -/
def Number.Within (n : Number) (minimum maximum : Option Number) : Prop :=
  (∀ bound ∈ minimum, n.lt bound = false) ∧ ∀ bound ∈ maximum, bound.lt n = false

/-- A string is one of the listed values, or of a length within the bounds where none are listed. -/
def StringRules.Admit (rules : StringRules) (text : String) : Prop :=
  (rules.validValues ≠ [] → text ∈ rules.validValues) ∧
    (rules.validValues = [] → (Number.whole text.length).Within rules.minLength rules.maxLength)

namespace Setting

/-- All validators of an element accept a value, as it is without its meta fields. -/
def Accepted (s : Setting) (e : Element) (v : Value) : Prop :=
  ∀ w ∈ e.validators, s.judge w e (s.options.prune false e v) = .accept

/-- A value is as its element asks. -/
inductive Conforms (s : Setting) : Element → Value → Prop
  | null {e : Element} (nullable : e.traits.nullable = true) : Conforms s e .null
  | boolean {traits : Traits} {default : Option Scalar} {b : Bool}
    (accepted : s.Accepted (.boolean traits default) (.boolean b)) : Conforms s (.boolean traits default) (.boolean b)
  | number {traits : Traits} {rules : NumberRules} {n : Number} (within : n.Within rules.minValue rules.maxValue)
    (accepted : s.Accepted (.number traits rules) (.number n)) : Conforms s (.number traits rules) (.number n)
  | string {traits : Traits} {rules : StringRules} {text : String} (admitted : rules.Admit text)
    (accepted : s.Accepted (.string traits rules) (.string text)) : Conforms s (.string traits rules) (.string text)
  /-- Undeclared fields are free. -/
  | object {traits : Traits} {children : List (String × Element)} {fields : List (Key × Value)}
    (required : ∀ child ∈ children, child.2.traits.required = true → .name child.1 ∈ fields.map Prod.fst)
    (declared : ∀ field ∈ fields, ∀ child, Element.governing? children field.1 = some child → Conforms s child field.2)
    (accepted : s.Accepted (.object traits children) (.object fields)) :
    Conforms s (.object traits children) (.object fields)
  | any {traits : Traits} {allowNull : Bool} {shape : ArrayShape} {entries : List Value}
    (nulls : .null ∈ entries → allowNull = true)
    (accepted : s.Accepted (.array traits [] [] allowNull) (.array shape entries)) :
    Conforms s (.array traits [] [] allowNull) (.array shape entries)
  /-- Each entry that is not null is of a kind that has a slot, and conforms to the element in it. -/
  | typed {traits : Traits} {slots : List (Kind × Element)} {allowNull : Bool} {shape : ArrayShape}
    {entries : List Value} (slotted : slots ≠ []) (nulls : .null ∈ entries → allowNull = true)
    (slot : ∀ v ∈ entries, v ≠ .null → ∃ k e, v.isOf k = true ∧ Assoc.find? (· == k) slots = some e)
    (each : ∀ v ∈ entries, ∀ k e, v.isOf k = true → Assoc.find? (· == k) slots = some e → Conforms s e v)
    (accepted : s.Accepted (.array traits slots [] allowNull) (.array shape entries)) :
    Conforms s (.array traits slots [] allowNull) (.array shape entries)
  /-- There are as many entries as ordered elements, and each that is not null conforms to the one at its index. -/
  | ordered {traits : Traits} {slots : List (Kind × Element)} {ordered : List Element} {allowNull : Bool}
    {shape : ArrayShape} {entries : List Value} (listed : ordered ≠ []) (length : entries.length = ordered.length)
    (nulls : .null ∈ entries → allowNull = true)
    (each : ∀ (i : Nat) v e, entries[i]? = some v → ordered[i]? = some e → v ≠ .null → Conforms s e v)
    (accepted : s.Accepted (.array traits slots ordered allowNull) (.array shape entries)) :
    Conforms s (.array traits slots ordered allowNull) (.array shape entries)

/-- A document conforms to the root of a schema: the root is an object or array element, and the document an object or
array that conforms to it. -/
inductive ConformsRoot (s : Setting) : Element → Value → Prop
  | object {traits : Traits} {children : List (String × Element)} {fields : List (Key × Value)}
    (h : s.Conforms (.object traits children) (.object fields)) : ConformsRoot s (.object traits children) (.object fields)
  | array {traits : Traits} {slots : List (Kind × Element)} {ordered : List Element} {allowNull : Bool}
    {shape : ArrayShape} {entries : List Value}
    (h : s.Conforms (.array traits slots ordered allowNull) (.array shape entries)) :
    ConformsRoot s (.array traits slots ordered allowNull) (.array shape entries)

end Setting

theorem ArrayMode.ofContents_eq_any {slots : List (Kind × Element)} {ordered : List Element} :
    ofContents slots ordered = .any ↔ slots = [] ∧ ordered = [] := by
  cases slots <;> cases ordered <;> simp [ofContents]

/-! ## The rules for one value -/

theorem Measure.outOfRange_eq_nil (m : Measure) (minimum maximum : Option Number) :
    m.outOfRange minimum maximum = [] ↔ m.toNumber.Within minimum maximum := by
  unfold outOfRange Number.Within
  rw [List.append_eq_nil_iff, and_comm]
  apply and_congr
  · cases minimum <;> simp
  · cases maximum <;> simp

theorem StringRules.causes_eq_nil (rules : StringRules) (text : String) :
    rules.causes text = [] ↔ rules.Admit text := by
  unfold causes Admit
  by_cases hv : rules.validValues = []
  · simp [hv, Measure.outOfRange_eq_nil, Measure.toNumber]
  · by_cases ht : text ∈ rules.validValues <;> simp [hv, ht]

namespace Element

theorem missingNames_eq_nil {children : List (String × Element)} {fields : List (Key × Value)} :
    missingNames children fields = [] ↔
      ∀ child ∈ children, child.2.traits.required = true → .name child.1 ∈ fields.map Prod.fst := by
  simp only [missingNames, requiredNames, List.filter_eq_nil_iff, List.mem_map, List.mem_filter, Bool.not_eq_true',
    Bool.not_eq_false, List.any_eq_true, beq_iff_eq]
  constructor
  · intro h child hc hr
    exact h child.1 ⟨child, ⟨hc, hr⟩, rfl⟩
  · rintro h name ⟨child, ⟨hc, hr⟩, rfl⟩
    exact h child hc hr

theorem slot?_kindName {v : Value} {k : Kind} (h : v.isOf k = true) (slots : List (Kind × Element)) :
    slot? slots v.kindName = Assoc.find? (· == k) slots := by
  rw [slot?, Value.kindName_of_isOf h, Kind.ofLabel?_label]
  rfl

/-- Which element governs an entry is a matter of the entry's kind and place. -/
theorem entry?_congr {v v' : Value} (h : v.kindName = v'.kindName) (slots : List (Kind × Element)) (ordered : List Element)
    (index : Nat) : entry? slots ordered index v = entry? slots ordered index v' := by
  unfold entry?
  rw [h]

theorem entry?_typed {slots : List (Kind × Element)} (h : slots ≠ []) (index : Nat) (v : Value) :
    entry? slots [] index v = slot? slots v.kindName := by
  cases slots with
  | nil => exact absurd rfl h
  | cons => rfl

theorem entry?_ordered {ordered : List Element} (h : ordered ≠ []) (slots : List (Kind × Element)) (index : Nat)
    (v : Value) : entry? slots ordered index v = ordered[index]? := by
  cases ordered with
  | nil => exact absurd rfl h
  | cons => rfl

end Element

namespace Setting

variable {s : Setting}

theorem Conforms.accepts {e : Element} {v : Value} (h : s.Conforms e v) (hv : v ≠ .null) : e.accepts v = true := by
  cases h with
  | null => exact absurd rfl hv
  | boolean | number | string | object | any | typed | ordered => rfl

/-! ## Clean walks, part by part -/

theorem clean_walkField {path : Pointer} {children : List (String × Element)} {field : Key × Value} :
    (s.walkField path children field).trail.Clean ↔
      ∀ child, Element.governing? children field.1 = some child →
        (s.walk (path.push field.1.token) child field.2).trail.Clean := by
  unfold walkField
  cases Element.governing? children field.1 <;> simp

theorem clean_walkEntry {path : Pointer} {slots : List (Kind × Element)} {ordered : List Element} {allowNull : Bool}
    {index : Nat} {v : Value} : (s.walkEntry path slots ordered allowNull index v).trail.Clean ↔
      (v = .null → allowNull = true) ∧ (v ≠ .null →
        ∃ e, Element.entry? slots ordered index v = some e ∧ (s.walk (path.entry index) e v).trail.Clean) := by
  unfold walkEntry Element.entryDemand
  by_cases hv : v = .null
  · subst hv
    cases allowNull <;> simp [Value.isNull]
  · have hn : v.isNull = false := by rw [Bool.eq_false_iff, ne_eq, Value.isNull_iff]; exact hv
    cases he : Element.entry? slots ordered index v <;> simp [hn, hv]

theorem clean_anyEntries {path : Pointer} {allowNull : Bool} {entries : List Value} :
    (s.anyEntries path allowNull entries).trail.Clean ↔ (.null ∈ entries → allowNull = true) := by
  have hany : entries.any (·.isNull) = true ↔ .null ∈ entries := by
    simp only [List.any_eq_true, Value.isNull_iff, exists_eq_right]
  unfold anyEntries
  by_cases hn : .null ∈ entries
  · cases allowNull <;> simp [hany.2 hn, hn]
  · have hf : entries.any (·.isNull) = false := by rw [Bool.eq_false_iff, ne_eq, hany]; exact hn
    simp [hf, hn]

theorem clean_walkFields {path : Pointer} {children : List (String × Element)} {fields : List (Key × Value)}
    (ih : ∀ field ∈ fields, ∀ child path, (s.walk path child field.2).trail.Clean ↔ s.Conforms child field.2) :
    (Walk.each (fun _ => s.walkField path children) 0 fields).trail.Clean ↔
      ∀ field ∈ fields, ∀ child, Element.governing? children field.1 = some child → s.Conforms child field.2 := by
  rw [Walk.clean_each]
  simp only [clean_walkField]
  constructor
  · intro h field hf child hg
    obtain ⟨i, hi⟩ := List.getElem?_of_mem hf
    exact (ih field hf child _).1 (h i field hi child hg)
  · intro h i field hi child hg
    have hf := List.mem_of_getElem? hi
    exact (ih field hf child _).2 (h field hf child hg)

theorem clean_walkContents {path : Pointer} {slots : List (Kind × Element)} {ordered : List Element} {allowNull : Bool}
    {entries : List Value}
    (ih : ∀ v ∈ entries, ∀ e path, (s.walk path e v).trail.Clean ↔ s.Conforms e v) :
    (s.walkContents path slots ordered allowNull entries).trail.Clean ↔
      (.null ∈ entries → allowNull = true) ∧ (¬ (slots = [] ∧ ordered = []) →
        ∀ i v, entries[i]? = some v → v ≠ .null → ∃ e, Element.entry? slots ordered i v = some e ∧ s.Conforms e v) := by
  by_cases hany : slots = [] ∧ ordered = []
  · obtain ⟨rfl, rfl⟩ := hany
    have hw : s.walkContents path [] [] allowNull entries = s.anyEntries path allowNull entries := rfl
    rw [hw, clean_anyEntries]
    simp
  · have hw : s.walkContents path slots ordered allowNull entries =
        .each (s.walkEntry path slots ordered allowNull) 0 entries := by
      unfold walkContents
      cases hm : ArrayMode.ofContents slots ordered with
      | any => exact absurd (ArrayMode.ofContents_eq_any.1 hm) hany
      | typed | ordered => rfl
    rw [hw, Walk.clean_each]
    simp only [Nat.zero_add, clean_walkEntry]
    constructor
    · intro h
      refine ⟨fun hn => ?_, fun _ i v hi hv => ?_⟩
      · obtain ⟨i, hi⟩ := List.getElem?_of_mem hn
        exact (h i .null hi).1 rfl
      · obtain ⟨e, he, hc⟩ := (h i v hi).2 hv
        exact ⟨e, he, (ih v (List.mem_of_getElem? hi) e _).1 hc⟩
    · rintro ⟨nulls, inside⟩ i v hi
      refine ⟨fun hn => nulls (hn ▸ List.mem_of_getElem? hi), fun hv => ?_⟩
      obtain ⟨e, he, hc⟩ := inside hany i v hi hv
      exact ⟨e, he, (ih v (List.mem_of_getElem? hi) e _).2 hc⟩

theorem conforms_scalar {e : Element} {v : Value} (hv : v.isScalar = true) (ha : e.accepts v = true) :
    (e.causes v = [] ∧ ∀ w ∈ e.validators, s.judge w e v = .accept) ↔ s.Conforms e v := by
  cases v with
  | null | array | object => cases hv
  | foreign f => rw [e.accepts_foreign f] at ha; cases ha
  | boolean b =>
    cases e with
    | boolean traits default =>
      refine ⟨fun h => .boolean h.2, fun h => ?_⟩
      cases h with
      | boolean accepted => exact ⟨rfl, accepted⟩
    | object | array | string | number => cases ha
  | number n =>
    cases e with
    | number traits rules =>
      have hc : rules.causes n = [] ↔ n.Within rules.minValue rules.maxValue := Measure.outOfRange_eq_nil (.value n) _ _
      refine ⟨fun h => .number (hc.1 h.1) h.2, fun h => ?_⟩
      cases h with
      | number within accepted => exact ⟨hc.2 within, accepted⟩
    | object | array | string | boolean => cases ha
  | string text =>
    cases e with
    | string traits rules =>
      refine ⟨fun h => .string ((rules.causes_eq_nil text).1 h.1) h.2, fun h => ?_⟩
      cases h with
      | string admitted accepted => exact ⟨(rules.causes_eq_nil text).2 admitted, accepted⟩
    | object | array | number | boolean => cases ha

theorem conforms_object {traits : Traits} {children : List (String × Element)} {fields : List (Key × Value)} :
    s.Conforms (.object traits children) (.object fields) ↔
      Element.missingNames children fields = [] ∧
        (∀ field ∈ fields, ∀ child, Element.governing? children field.1 = some child → s.Conforms child field.2) ∧
          s.Accepted (.object traits children) (.object fields) := by
  rw [Element.missingNames_eq_nil]
  constructor
  · intro h
    cases h with
    | object required declared accepted => exact ⟨required, declared, accepted⟩
  · rintro ⟨required, declared, accepted⟩
    exact .object required declared accepted

/-- The three rules for arrays at once: what is asked of the entries is asked of each by its element. -/
theorem conforms_array {traits : Traits} {slots : List (Kind × Element)} {ordered : List Element} {allowNull : Bool}
    {shape : ArrayShape} {entries : List Value} (hl : ordered = [] ∨ ordered.length = entries.length) :
    s.Conforms (.array traits slots ordered allowNull) (.array shape entries) ↔
      ((.null ∈ entries → allowNull = true) ∧ (¬ (slots = [] ∧ ordered = []) →
        ∀ i v, entries[i]? = some v → v ≠ .null →
          ∃ e, Element.entry? slots ordered i v = some e ∧ s.Conforms e v)) ∧
        s.Accepted (.array traits slots ordered allowNull) (.array shape entries) := by
  constructor
  · intro h
    cases h with
    | any nulls accepted => exact ⟨⟨nulls, fun h => absurd ⟨rfl, rfl⟩ h⟩, accepted⟩
    | typed slotted nulls slot each accepted =>
      refine ⟨⟨nulls, fun _ i v hi hv => ?_⟩, accepted⟩
      have hm := List.mem_of_getElem? hi
      obtain ⟨k, e, hk, he⟩ := slot v hm hv
      exact ⟨e, by rw [Element.entry?_typed slotted, Element.slot?_kindName hk, he], each v hm k e hk he⟩
    | ordered listed length nulls each accepted =>
      refine ⟨⟨nulls, fun _ i v hi hv => ?_⟩, accepted⟩
      have hlt : i < ordered.length := length ▸ (List.getElem?_eq_some_iff.1 hi).1
      have he : ordered[i]? = some ordered[i] := List.getElem?_eq_getElem hlt
      exact ⟨ordered[i], by rw [Element.entry?_ordered listed, he], each i v _ hi he hv⟩
  · rintro ⟨⟨nulls, inside⟩, accepted⟩
    by_cases ho : ordered = []
    · subst ho
      by_cases hs : slots = []
      · subst hs
        exact .any nulls accepted
      · replace inside := inside fun h => hs h.1
        simp only [Element.entry?_typed hs] at inside
        refine .typed hs nulls (fun v hm hv => ?_) (fun v hm k e hk he => ?_) accepted
        · obtain ⟨i, hi⟩ := List.getElem?_of_mem hm
          obtain ⟨e, he, hc⟩ := inside i v hi hv
          have hk : v.isOf e.kind = true := hc.accepts hv
          exact ⟨e.kind, e, hk, by rw [← Element.slot?_kindName hk, he]⟩
        · obtain ⟨i, hi⟩ := List.getElem?_of_mem hm
          have hv : v ≠ .null := fun h => by subst h; cases k <;> cases hk
          obtain ⟨e', he', hc⟩ := inside i v hi hv
          rw [Element.slot?_kindName hk, he] at he'
          cases he'
          exact hc
    · replace inside := inside fun h => ho h.2
      simp only [Element.entry?_ordered ho] at inside
      refine .ordered ho (hl.resolve_left ho).symm nulls (fun i v e hi he hv => ?_) accepted
      obtain ⟨e', he', hc⟩ := inside i v hi hv
      rw [he] at he'
      cases he'
      exact hc

/-- **A walk is clean exactly over a value that conforms.** -/
theorem clean_walk (e : Element) (v : Value) : ∀ path, (s.walk path e v).trail.Clean ↔ s.Conforms e v := by
  induction e, v using Element.induct with
  | null e =>
    intro path
    rw [walk_null, clean_nullField]
    refine ⟨.null, fun h => ?_⟩
    cases h with
    | null nullable => exact nullable
  | wrong e v hv ha =>
    intro path
    rw [walk_wrong s path hv ha]
    refine ⟨fun h => absurd h (s.clean_wrongKind path e v), fun h => ?_⟩
    rw [h.accepts fun hn => by subst hn; cases hv] at ha
    cases ha
  | scalar e v hv ha =>
    intro path
    rw [walk_scalar s path hv ha, Trail.clean_andIfClean, clean_foundAll, clean_askAll]
    exact conforms_scalar hv ha
  | object traits children fields ih =>
    intro path
    rw [walk_object, clean_walkObject, conforms_object, ← clean_walkFields ih]
    refine and_congr_right fun hm => and_congr_right fun hi => ?_
    -- clean fields leave the object that the validators are asked about
    have ho := Trail.clean_andThen.2 ⟨s.clean_dropMeta path fields, (s.clean_reportMissing path children fields).2 hm⟩
    rw [s.left_walkObject_eq_prune (fun field _ => s.leavesPruned field.2) ho.halt hi.halt]
    rfl
  | array traits slots ordered allowNull shape entries ih =>
    intro path
    by_cases hl : ordered = [] ∨ ordered.length = entries.length
    · rw [walk_array s path traits slots allowNull shape hl, clean_walkArray, conforms_array hl, ← clean_walkContents ih]
      refine and_congr_right fun hi => ?_
      rw [s.left_walkArray_eq_prune hl (fun v _ => s.leavesPruned v) hi.halt]
      rfl
    · rw [walk_array_of_length_ne s path traits slots allowNull shape hl]
      rw [not_or] at hl
      refine ⟨fun h => absurd h (s.not_clean_found path _), fun h => ?_⟩
      cases h with
      | any | typed => exact absurd rfl hl.1
      | ordered _ length => exact absurd length.symm hl.2

theorem conformsRoot_iff {root : Element} {document : Value} :
    s.ConformsRoot root document ↔ root.admits document = true ∧ s.Conforms root document := by
  constructor
  · intro h
    cases h with
    | object h | array h => exact ⟨rfl, h⟩
  · rintro ⟨ha, h⟩
    cases h with
    | null => cases root <;> cases ha
    | boolean | number | string => cases ha
    | object required declared accepted => exact .object (.object required declared accepted)
    | any nulls accepted => exact .array (.any nulls accepted)
    | typed slotted nulls slot each accepted => exact .array (.typed slotted nulls slot each accepted)
    | ordered listed length nulls each accepted => exact .array (.ordered listed length nulls each accepted)

/-- **A run gives no violations exactly for a document that conforms to the root.** -/
theorem outcome_run_eq_nil (s : Setting) (root : Element) (document : Value) :
    (s.run root document).outcome = .ok [] ↔ s.ConformsRoot root document := by
  rw [outcome_run_eq_ok, ← Trail.clean_iff, conformsRoot_iff]
  cases ha : root.admits document with
  | false =>
    obtain ⟨fault, hw⟩ := s.walkRoot_of_not_admits root document ha
    rw [hw]
    exact ⟨fun h => absurd h (s.not_clean_found _ _), fun h => nomatch h.1⟩
  | true =>
    rw [s.walkRoot_of_admits root document ha, clean_walk]
    exact ⟨fun h => ⟨rfl, h⟩, And.right⟩

end Setting
end ConfigSchema
