import ConfigSchema.Element.Equality
import ConfigSchema.Proofs.Constructible
import ConfigSchema.Proofs.ExactOrder
import ConfigSchema.Proofs.Settled
import ConfigSchema.Proofs.Shuffled
/-!
# Sameness — what elements that are the same have in common

Elements that are the same have their children and slots in any order and their numbers in any spelling.  They still ask
for the same: they name the same children and require the same of them, look-ups in them give elements that are the same
again (`Keyed.governing_cases`, `Keyed.entry_cases`), and what they refuse of a scalar is as much and of the same sort
(`forall₂_causes`).  An element with distinct keys is the same as itself (`Keyed.same_self`).
-/
namespace ConfigSchema

theorem sameOption_iff {α : Type} {same : α → α → Bool} {a b : Option α} :
    sameOption same a b = true ↔ Option.Rel (same · · = true) a b := by
  cases a <;> cases b <;> simp [sameOption]

theorem sameOption_refl {α : Type} {same : α → α → Bool} (h : ∀ a, same a a = true) (a : Option α) :
    sameOption same a a = true := by
  cases a with
  | none => rfl
  | some a => exact h a

theorem Scalar.same_refl (a : Scalar) : a.same a = true := by
  cases a with
  | string s => exact beq_self_eq_true s
  | number n => exact n.same_refl
  | boolean b => exact (Number.whole (if b then 1 else 0)).same_refl

theorem Traits.same_iff {t t' : Traits} : t.same t' = true ↔ (t.name = t'.name ∧ t.required = t'.required ∧
    t.nullable = t'.nullable) ∧ t.validators.map (·.id) = t'.validators.map (·.id) := by
  simp only [same, Bool.and_eq_true, beq_iff_eq, and_assoc]

/-- A list whose parts are all found in another list of the same length, under keys that do not repeat, is a shuffle
of it. -/
theorem Assoc.shuffled_of_find? {α β : Type} [BEq α] [LawfulBEq α] {r : β → β → Prop} {l l' : List (α × β)}
    (hn : (l.map Prod.fst).Nodup) (hlength : l.length = l'.length)
    (h : ∀ a ∈ l, ∃ b, find? (· == a.1) l' = some b ∧ r a.2 b) : Shuffled (Match r) l l' := by
  obtain ⟨aligned, heach, hmem⟩ : ∃ aligned, List.Forall₂ (Match r) l aligned ∧ aligned ⊆ l' := by
    clear hn hlength
    induction l with
    | nil => exact ⟨[], .nil, List.nil_subset _⟩
    | cons a l ih =>
      obtain ⟨aligned, heach, hmem⟩ := ih fun a ha => h a (List.mem_cons_of_mem _ ha)
      obtain ⟨b, hb, hr⟩ := h a List.mem_cons_self
      obtain ⟨k, hk, hkey⟩ := exists_of_find? hb
      exact ⟨(k, b) :: aligned, .cons ⟨(beq_iff_eq.1 hkey).symm, hr⟩ heach, List.cons_subset.2 ⟨hk, hmem⟩⟩
  refine ⟨aligned, heach, ?_⟩
  have haligned : aligned.Nodup := List.Nodup.of_map Prod.fst ((forall₂_match_iff.1 heach).1 ▸ hn)
  refine (List.subperm_of_subset haligned hmem).perm_of_length_le ?_
  rw [← heach.length_eq, hlength]

theorem Assoc.find?_of_nodup {α β : Type} [BEq α] [LawfulBEq α] : ∀ {l : List (α × β)} {a : α × β},
    (l.map Prod.fst).Nodup → a ∈ l → find? (· == a.1) l = some a.2
  | b :: l, a, hn, hm => by
    obtain ⟨hnot, hn⟩ := List.nodup_cons.1 hn
    rcases List.mem_cons.1 hm with rfl | hm
    · rw [find?, beq_self_eq_true, if_pos rfl]
    · have hne : b.1 ≠ a.1 := fun heq => hnot (heq ▸ List.mem_map_of_mem hm)
      rw [find?, beq_false_of_ne hne, if_neg Bool.false_ne_true, find?_of_nodup hn hm]

namespace Element

/-- Two elements are the same. -/
def Same (e e' : Element) : Prop := e.same e' = true

/-- Two keyed lists hold elements that are the same under the same keys, in any order. -/
abbrev SameUnder {α : Type} (l l' : List (α × Element)) : Prop := Shuffled (Assoc.Match Same) l l'

theorem Keyed.of_holds {root e : Element} (h : root.Keyed) (he : root.Holds e) : e.Keyed := by
  induction he with
  | root => exact h
  | child _ own ih =>
    cases ih with
    | object names each => exact each _ own
  | slot _ own ih =>
    cases ih with
    | array kinds slot each => exact slot _ own
  | position _ own ih =>
    cases ih with
    | array kinds slot each => exact each _ own

theorem childrenIn_iff {children others : List (String × Element)} : childrenIn children others = true ↔
    ∀ child ∈ children, ∃ other, child? others child.1 = some other ∧ child.2.Same other := by
  induction children with
  | nil => exact iff_of_true (by rw [childrenIn]) nofun
  | cons child rest ih =>
    rw [childrenIn, Bool.and_eq_true, ih, List.forall_mem_cons]
    cases child? others child.1 <;> simp [Same]

theorem slotsIn_iff {slots others : List (Kind × Element)} : slotsIn slots others = true ↔
    ∀ slot ∈ slots, ∃ other, Assoc.find? (· == slot.1) others = some other ∧ slot.2.Same other := by
  induction slots with
  | nil => exact iff_of_true (by rw [slotsIn]) nofun
  | cons slot rest ih =>
    rw [slotsIn, Bool.and_eq_true, ih, List.forall_mem_cons]
    cases Assoc.find? (· == slot.1) others <;> simp [Same]

theorem sameEach_iff {l l' : List Element} : sameEach l l' = true ↔ List.Forall₂ Same l l' := by
  induction l generalizing l' with
  | nil => cases l' <;> simp [sameEach]
  | cons e l ih => cases l' <;> simp [sameEach, ih, Same]

section Same

variable {e e' : Element}

theorem Same.kind_eq (h : e.Same e') : e.kind = e'.kind := by
  unfold Same at h
  cases e <;> cases e' <;> first | rfl | simp [same] at h

theorem Same.traits (h : e.Same e') : e.traits.same e'.traits = true := by
  unfold Same at h
  cases e <;> cases e' <;> simp_all [same, Element.traits]

variable {traits : Traits} {children : List (String × Element)} {slots : List (Kind × Element)} {ordered : List Element}
  {allowNull : Bool}

/-- **Objects that are the same have children that are the same under the same names.** -/
theorem Same.object (h : (Element.object traits children).Same e') (hk : (Element.object traits children).Keyed) :
    ∃ traits' children', e' = .object traits' children' ∧ SameUnder children children' := by
  cases e' with
  | object traits' children' =>
    simp only [Same, same, Bool.and_eq_true, beq_iff_eq, childrenIn_iff] at h
    cases hk with
    | object names each => exact ⟨_, _, rfl, Assoc.shuffled_of_find? names h.1.2 h.2⟩
  | array | string | number | boolean => cases h.kind_eq

theorem Same.array (h : (Element.array traits slots ordered allowNull).Same e')
    (hk : (Element.array traits slots ordered allowNull).Keyed) : ∃ traits' slots' ordered',
      e' = .array traits' slots' ordered' allowNull ∧ SameUnder slots slots' ∧
        List.Forall₂ Same ordered ordered' := by
  cases e' with
  | array traits' slots' ordered' allowNull' =>
    simp only [Same, same, Bool.and_eq_true, beq_iff_eq, slotsIn_iff, sameEach_iff] at h
    cases hk with
    | array kinds slot each =>
      obtain ⟨⟨⟨⟨-, hlength⟩, hslots⟩, hordered⟩, rfl⟩ := h
      exact ⟨_, _, _, rfl, Assoc.shuffled_of_find? kinds hlength hslots, hordered⟩
  | object | string | number | boolean => cases h.kind_eq

/-- **An element with distinct keys is the same as itself.** -/
theorem Keyed.same_self (h : e.Keyed) : e.Same e := by
  have htraits : ∀ t : Traits, t.same t = true := fun t => Traits.same_iff.2 ⟨⟨rfl, rfl, rfl⟩, rfl⟩
  induction h with
  | object names each ih =>
    simp only [Same, same, Bool.and_eq_true, beq_iff_eq, childrenIn_iff]
    exact ⟨⟨htraits _, trivial⟩, fun child hm => ⟨child.2, Assoc.find?_of_nodup names hm, ih child hm⟩⟩
  | array kinds slot each ihSlots ihOrdered =>
    simp only [Same, same, Bool.and_eq_true, beq_iff_eq, slotsIn_iff, sameEach_iff]
    exact ⟨⟨⟨⟨htraits _, trivial⟩, fun slot hm => ⟨slot.2, Assoc.find?_of_nodup kinds hm, ihSlots slot hm⟩⟩,
      List.forall₂_same.2 ihOrdered⟩, trivial⟩
  | string =>
    simp only [Same, same, StringRules.same, Bool.and_eq_true, beq_iff_eq]
    exact ⟨htraits _, ⟨⟨sameOption_refl Number.same_refl _, sameOption_refl Number.same_refl _⟩, trivial⟩,
      sameOption_refl Scalar.same_refl _⟩
  | number =>
    simp only [Same, same, NumberRules.same, Bool.and_eq_true]
    exact ⟨htraits _, ⟨sameOption_refl Number.same_refl _, sameOption_refl Number.same_refl _⟩,
      sameOption_refl Scalar.same_refl _⟩
  | boolean =>
    simp only [Same, same, Bool.and_eq_true]
    exact ⟨htraits _, sameOption_refl Scalar.same_refl _⟩

end Same

/-! ## Look-ups -/

section Lookup

variable {children children' : List (String × Element)} {slots slots' : List (Kind × Element)}
  {ordered ordered' : List Element}

theorem Keyed.names {traits : Traits} (h : (Element.object traits children).Keyed) : (children.map Prod.fst).Nodup := by
  cases h with
  | object names each => exact names

theorem Keyed.kinds {traits : Traits} {allowNull : Bool} (h : (Element.array traits slots ordered allowNull).Keyed) :
    (slots.map Prod.fst).Nodup := by
  cases h with
  | array kinds slot each => exact kinds

/-- **A key is governed by elements that are the same, or by none** in objects that are the same. -/
theorem Keyed.governing_cases {traits : Traits} (hk : (Element.object traits children).Keyed)
    (h : SameUnder children children') (key : Key) :
    governing? children key = none ∧ governing? children' key = none ∨
      ∃ child child', governing? children key = some child ∧ governing? children' key = some child' ∧ child.Keyed ∧
        child.Same child' := by
  generalize hc : governing? children key = c, hc' : governing? children' key = c'
  have hrel : Option.Rel Same c c' := by
    rw [← hc, ← hc']
    cases key with
    | name text => exact Assoc.rel_find? h hk.names text
    | number | null => exact .none
  cases hrel with
  | none => exact .inl ⟨rfl, rfl⟩
  | some hsame => exact .inr ⟨_, _, rfl, rfl, hk.of_holds (holds_of_governing? hc), hsame⟩

theorem ofContents_eq (hslots : SameUnder slots slots') (hordered : List.Forall₂ Same ordered ordered') :
    ArrayMode.ofContents slots ordered = ArrayMode.ofContents slots' ordered' := by
  have hs : slots.isEmpty = slots'.isEmpty := by
    rw [Bool.eq_iff_iff, List.isEmpty_iff, List.isEmpty_iff, hslots.eq_nil_iff]
  have ho : ordered.isEmpty = ordered'.isEmpty := by
    rw [Bool.eq_iff_iff, List.isEmpty_iff, List.isEmpty_iff, (Shuffled.of_forall₂ hordered).eq_nil_iff]
  rw [ArrayMode.ofContents, ArrayMode.ofContents, hs, ho]

/-- **An entry is governed by elements that are the same, or by none** in arrays that are the same. -/
theorem Keyed.entry_cases {traits : Traits} {allowNull : Bool} (hk : (Element.array traits slots ordered allowNull).Keyed)
    (hslots : SameUnder slots slots') (hordered : List.Forall₂ Same ordered ordered') (index : Nat)
    {v v' : Value} (hv : v.kindName = v'.kindName) :
    entry? slots ordered index v = none ∧ entry? slots' ordered' index v' = none ∨
      ∃ e e', entry? slots ordered index v = some e ∧ entry? slots' ordered' index v' = some e' ∧ e.Keyed ∧
        e.Same e' := by
  generalize he : entry? slots ordered index v = x, he' : entry? slots' ordered' index v' = x'
  have hrel : Option.Rel Same x x' := by
    rw [← he, ← he']
    unfold entry?
    rw [← ofContents_eq hslots hordered, ← hv]
    cases ArrayMode.ofContents slots ordered with
    | any => exact .none
    | typed =>
      simp only [slot?]
      cases Kind.ofLabel? v.kindName with
      | none => exact .none
      | some k => exact Assoc.rel_find? hslots hk.kinds k
    | ordered => exact rel_getElem? hordered index
  cases hrel with
  | none => exact .inl ⟨rfl, rfl⟩
  | some hsame => exact .inr ⟨_, _, rfl, rfl, hk.of_holds <| holds_of_entry? he, hsame⟩

/-- **Objects that are the same lack the same children** of fields with the same keys. -/
theorem missingNames_perm (h : SameUnder children children') {fields fields' : List (Key × Value)}
    (hkeys : (fields.map Prod.fst).Perm (fields'.map Prod.fst)) :
    (missingNames children fields).Perm (missingNames children' fields') := by
  have hrequired : ∀ c c' : String × Element, Assoc.Match Same c c' →
      c.2.traits.required = c'.2.traits.required := fun c c' hc => (Traits.same_iff.1 hc.value.traits).1.2.1
  have hnames : (requiredNames children).Perm (requiredNames children') :=
    (h.filter fun c _ c' hc => hrequired c c' hc).map_perm fun _ _ _ hc => hc.key
  have hheld : ∀ name : String, fields.any (·.1 == .name name) = fields'.any (·.1 == .name name) := fun name => by
    have hany := hkeys.any_eq (f := (· == .name name))
    rw [List.any_map, List.any_map] at hany
    exact hany
  simp only [missingNames, hheld]
  exact hnames.filter _

end Lookup

end Element

/-! ## Scalars -/

/-- What is refused as out of range is of the same sort for bounds that are the same. -/
theorem Measure.forall₂_outOfRange (m : Measure) {minimum minimum' maximum maximum' : Option Number}
    (hmin : sameOption Number.same minimum minimum' = true) (hmax : sameOption Number.same maximum maximum' = true) :
    List.Forall₂ (fun cause cause' => cause.errorClass = cause'.errorClass) (m.outOfRange minimum maximum)
      (m.outOfRange minimum' maximum') := by
  unfold outOfRange
  refine List.rel_append ?_ ?_
  · cases sameOption_iff.1 hmax with
    | none => exact .nil
    | some h =>
      simp only [Number.lt_congr h m.toNumber.same_refl]
      split
      · exact .cons rfl .nil
      · exact .nil
  · cases sameOption_iff.1 hmin with
    | none => exact .nil
    | some h =>
      simp only [Number.lt_congr m.toNumber.same_refl h]
      split
      · exact .cons rfl .nil
      · exact .nil

/-- **Elements that are the same refuse as much of a scalar**, and for reasons of the same sort. -/
theorem Element.Same.forall₂_causes {e e' : Element} (h : e.Same e') (v : Value) :
    List.Forall₂ (fun cause cause' => cause.errorClass = cause'.errorClass) (e.causes v) (e'.causes v) := by
  have hkind := h.kind_eq
  cases e with
  | string traits rules =>
    cases e' with
    | string traits' rules' =>
      cases v with
      | string text =>
        simp only [Same, same, StringRules.same, Bool.and_eq_true, beq_iff_eq] at h
        obtain ⟨-, ⟨⟨hmin, hmax⟩, hvalues⟩, -⟩ := h
        simp only [causes, StringRules.causes, ← hvalues]
        split
        · exact (Measure.length text.length).forall₂_outOfRange hmin hmax
        · exact List.forall₂_same.2 fun _ _ => rfl
      | null | boolean | number | array | object | foreign => exact .nil
    | object | array | number | boolean => cases hkind
  | number traits rules =>
    cases e' with
    | number traits' rules' =>
      cases v with
      | number n =>
        simp only [Same, same, NumberRules.same, Bool.and_eq_true] at h
        exact (Measure.value n).forall₂_outOfRange h.2.1.1 h.2.1.2
      | null | boolean | string | array | object | foreign => exact .nil
    | object | array | string | boolean => cases hkind
  | object | array | boolean =>
    cases e' with
    | object | array | boolean => exact .nil
    | string | number => cases hkind

end ConfigSchema
