import ConfigSchema.Element.Builder
import ConfigSchema.Proofs.Declared
import Mathlib.Data.List.Nodup
/-!
# Constructible — the schemas that can be made

An element is made from parts that were made before: by a constructor from given pairs, or by a builder from the element
that it holds and those that a call brings.  Whatever is made in this way declares each name once and has one slot for a
kind, at any depth (`Constructible.keyed`).
-/
namespace ConfigSchema

/-- The elements that a call brings to a builder. -/
def Builder.Call.elements : Builder.Call → List Element
  | .children more => more
  | .slot _ element => element.toList
  | .ordered elements => elements
  | _ => []

namespace Element

/-- The elements that constructors and builders make.  A repeated key keeps its first place and takes its last element. -/
inductive Constructible : Element → Prop
  | object {traits : Traits} {pairs : List (String × Element)} {e : Element}
    (each : ∀ child ∈ pairs, Constructible child.2) (made : object? traits (Assoc.ofPairs (· == ·) pairs) = .ok e) :
    Constructible e
  | array {traits : Traits} {pairs : List (String × Element)} {ordered : List Element} {allowNull : Bool} {e : Element}
    (slot : ∀ slot ∈ pairs, Constructible slot.2) (each : ∀ e ∈ ordered, Constructible e)
    (made : array? traits (Assoc.ofPairs (· == ·) pairs) ordered allowNull = .ok e) : Constructible e
  | string {traits : Traits} {rules : StringRules} : Constructible (.string traits rules)
  | number {traits : Traits} {rules : NumberRules} : Constructible (.number traits rules)
  | boolean {traits : Traits} {default : Option Scalar} : Constructible (.boolean traits default)
  | call {b b' : Builder} {call : Builder.Call} {e : Element} (held : ∀ e, b.current = some e → Constructible e)
    (brought : ∀ e ∈ call.elements, Constructible e) (made : b.apply call = .ok b') (holds : b'.current = some e) :
    Constructible e

/-- Every object of a schema declares each of its names once, and every array has one slot for a kind. -/
inductive Keyed : Element → Prop
  | object {traits : Traits} {children : List (String × Element)} (names : (children.map Prod.fst).Nodup)
    (each : ∀ child ∈ children, Keyed child.2) : Keyed (.object traits children)
  | array {traits : Traits} {slots : List (Kind × Element)} {ordered : List Element} {allowNull : Bool}
    (kinds : (slots.map Prod.fst).Nodup) (slot : ∀ slot ∈ slots, Keyed slot.2) (each : ∀ e ∈ ordered, Keyed e) :
    Keyed (.array traits slots ordered allowNull)
  | string {traits : Traits} {rules : StringRules} : Keyed (.string traits rules)
  | number {traits : Traits} {rules : NumberRules} : Keyed (.number traits rules)
  | boolean {traits : Traits} {default : Option Scalar} : Keyed (.boolean traits default)

theorem Keyed.distinct {e : Element} (h : e.Keyed) : e.Distinct := by
  induction h with
  | object names each ih => exact .object names ih
  | array kinds slot each ihSlots ihOrdered => exact .array ihSlots ihOrdered
  | string => exact .string
  | number => exact .number
  | boolean => exact .boolean

theorem eq_of_object? {traits : Traits} {children : List (String × Element)} {e : Element}
    (h : object? traits children = .ok e) : e = .object traits children := by
  unfold object? at h
  cases hc : checkChildren children with
  | error refusal => rw [hc] at h; cases h
  | ok u => rw [hc] at h; cases h; rfl

theorem mem_of_readSlots : ∀ {slots : List (String × Element)} {read : List (Kind × Element)}, readSlots slots = .ok read →
    ∀ slot ∈ read, ∃ label, (label, slot.2) ∈ slots
  | [], _, h, slot, hm => by
    cases h
    cases hm
  | (label, element) :: rest, read, h, slot, hm => by
    rw [readSlots] at h
    split at h
    · cases h
    · split at h
      · cases hr : readSlots rest with
        | error refusal => rw [hr] at h; cases h
        | ok read' =>
          rw [hr] at h
          cases h
          rcases List.mem_cons.1 hm with rfl | hm
          · exact ⟨label, List.mem_cons_self⟩
          · obtain ⟨label', hm'⟩ := mem_of_readSlots hr slot hm
            exact ⟨label', List.mem_cons_of_mem _ hm'⟩
      · cases h

theorem label_injective : Function.Injective Kind.label := fun k k' h => by
  rw [← Option.some_inj, ← Kind.ofLabel?_label, h, Kind.ofLabel?_label]

theorem label_of_parse {label : String} {k : Kind} (h : Kind.parse label = .ok k) : k.label = label := by
  unfold Kind.parse at h
  split at h
  · cases h
    rename_i hk
    have hlabel := List.find?_some hk
    exact beq_iff_eq.1 hlabel
  · cases h

theorem labels_of_readSlots : ∀ {slots : List (String × Element)} {read : List (Kind × Element)},
    readSlots slots = .ok read → read.map (·.1.label) = slots.map Prod.fst
  | [], _, h => by
    cases h
    rfl
  | (label, element) :: rest, read, h => by
    rw [readSlots] at h
    split at h
    · cases h
    · rename_i k hk
      split at h
      · cases hr : readSlots rest with
        | error refusal => rw [hr] at h; cases h
        | ok read' =>
          rw [hr] at h
          cases h
          rw [List.map_cons, List.map_cons, labels_of_readSlots hr, label_of_parse hk]
      · cases h

theorem keyed_of_array? {traits : Traits} {slots : List (String × Element)} {ordered : List Element}
    {allowNull : Bool} {e : Element} (hlabels : (slots.map Prod.fst).Nodup) (hslots : ∀ slot ∈ slots, slot.2.Keyed)
    (hordered : ∀ e ∈ ordered, e.Keyed) (h : array? traits slots ordered allowNull = .ok e) : e.Keyed := by
  unfold array? at h
  split at h
  · cases h
  · rename_i read hread
    split at h
    · cases h
    · cases h
      have hkinds : (read.map (·.1.label)).Nodup := labels_of_readSlots hread ▸ hlabels
      refine .array (List.Nodup.of_map Kind.label (by rwa [List.map_map])) (fun slot hm => ?_) hordered
      obtain ⟨label, hslot⟩ := mem_of_readSlots hread slot hm
      exact hslots _ hslot

theorem Keyed.checked {e e' : Element} (he : e.Keyed) (h : e.checked = .ok e') : e'.Keyed := by
  cases he with
  | object names each =>
    rw [eq_of_object? h]
    exact .object names each
  | array kinds slot each =>
    refine keyed_of_array? ?_ (fun s hs => ?_) each h
    · have hnodup := kinds.map label_injective
      rwa [List.map_map] at hnodup ⊢
    obtain ⟨s', hm, rfl⟩ := List.mem_map.1 hs
    exact slot s' hm
  | string => cases h; exact .string
  | number => cases h; exact .number
  | boolean => cases h; exact .boolean

theorem keyed_bare (k : Kind) : (bare k).Keyed := by
  cases k with
  | object => exact .object List.nodup_nil fun _ h => nomatch h
  | array => exact .array List.nodup_nil (fun _ h => nomatch h) fun _ h => nomatch h
  | string => exact .string
  | number => exact .number
  | boolean => exact .boolean

theorem Keyed.withTraits {e : Element} (h : e.Keyed) (traits : Traits) : (e.withTraits traits).Keyed := by
  cases h with
  | object names each => exact .object names each
  | array kinds slot each => exact .array kinds slot each
  | string => exact .string
  | number => exact .number
  | boolean => exact .boolean

theorem Keyed.put {traits traits' : Traits} {children : List (String × Element)} {child : Element}
    (h : (Element.object traits children).Keyed) (hc : child.Keyed) (name : String) :
    (Element.object traits' (Assoc.put (· == ·) name child children)).Keyed := by
  cases h with
  | object names each =>
    refine .object (Assoc.nodup_put names name child) fun c hm => ?_
    rcases Assoc.mem_put hm with hm | hm
    · exact each c hm
    · rwa [hm]

theorem keyed_ofPairs {pairs : List (String × Element)} (h : ∀ child ∈ pairs, child.2.Keyed) (traits : Traits) :
    (Element.object traits (Assoc.ofPairs (· == ·) pairs)).Keyed := by
  have hfold : ∀ (pairs children : List (String × Element)), (∀ child ∈ pairs, child.2.Keyed) →
      (Element.object traits children).Keyed →
        (Element.object traits (pairs.foldl (fun l p => Assoc.put (· == ·) p.1 p.2 l) children)).Keyed := by
    intro pairs
    induction pairs with
    | nil => exact fun _ _ h => h
    | cons pair pairs ih =>
      intro children hp hc
      exact ih _ (fun child hm => hp child (List.mem_cons_of_mem _ hm)) (hc.put (hp pair List.mem_cons_self) pair.1)
  exact hfold pairs [] h (.object List.nodup_nil fun _ hm => nomatch hm)

end Element

namespace Builder

theorem keyed_putChildren {traits : Traits} : ∀ {more : List Element} {children children' : List (String × Element)},
    (∀ e ∈ more, e.Keyed) → (Element.object traits children).Keyed → putChildren children more = .ok children' →
      (Element.object traits children').Keyed
  | [], _, _, _, hc, h => by
    cases h
    exact hc
  | child :: rest, children, children', hm, hc, h => by
    rw [putChildren] at h
    split at h
    · exact keyed_putChildren (fun e he => hm e (List.mem_cons_of_mem _ he)) (hc.put (hm child List.mem_cons_self) _) h
    · cases h

theorem of_map_eq_ok {α β : Type} {x : Except SchemaError α} {g : α → β} {b : β} (h : x.map g = .ok b) :
    ∃ a, x = .ok a ∧ g a = b := by
  cases x with
  | error refusal => cases h
  | ok a => exact ⟨a, rfl, Except.ok.inj h⟩

theorem of_bind_eq_ok {α β : Type} {x : Except SchemaError α} {g : α → Except SchemaError β} {b : β}
    (h : x.bind g = .ok b) : ∃ a, x = .ok a ∧ g a = .ok b := by
  cases x with
  | error refusal => cases h
  | ok a => exact ⟨a, rfl, h⟩

variable {b b' : Builder} {call : Call} {e : Element}

theorem build_eq_ok (h : b.build = .ok e) : b.current = some e := by
  unfold build at h
  split at h
  · cases h
    assumption
  · cases h

theorem asObject_eq_ok {method : String} {p : Traits × List (String × Element)} (h : b.asObject method = .ok p) :
    b.current = some (.object p.1 p.2) := by
  unfold asObject at h
  split at h
  · cases h
    assumption
  · cases h

theorem asArray_eq_ok {method : String} {parts : ArrayParts} (h : b.asArray method = .ok parts) :
    b.current = some parts.toElement := by
  unfold asArray at h
  split at h
  · cases h
    assumption
  · cases h

theorem keyed_withDefault {default : Option Scalar} {e e' : Element} (h : withDefault default e = .ok e') :
    e'.Keyed := by
  cases e with
  | object | array => cases h
  | string => cases h; exact .string
  | number => cases h; exact .number
  | boolean => cases h; exact .boolean

theorem keyed_withSlot {parts : ArrayParts} {slot : Kind} {element : Option Element} (hp : parts.toElement.Keyed)
    (he : ∀ e ∈ element, e.Keyed) (h : withSlot parts slot element = .ok e) : e.Keyed := by
  unfold withSlot at h
  simp only at h
  split at h
  · cases h
  · split at h
    · cases h
    · cases h
      have hin : (element.getD (.bare slot)).Keyed := by
        cases element with
        | none => exact Element.keyed_bare slot
        | some e => exact he e rfl
      cases hp with
      | array kinds hslots each =>
        refine .array (Assoc.nodup_put kinds slot _) (fun s hm => ?_) each
        rcases Assoc.mem_put hm with hm | hm
        · exact hslots s hm
        · rwa [hm]

/-- **A call makes an element with distinct keys** of one with distinct keys, if those that it brings are so too. -/
theorem keyed_change (hb : ∀ e, b.current = some e → e.Keyed) (hc : ∀ e ∈ call.elements, e.Keyed)
    (h : b.change call = .ok e) : e.Keyed := by
  cases call with
  | ofType kind =>
    simp only [change] at h
    split at h
    · cases h
    · cases h
      exact Element.keyed_bare kind
  | name | nullable | optional | validators =>
    obtain ⟨e', he, rfl⟩ := of_map_eq_ok h
    exact (hb e' (build_eq_ok he)).withTraits _
  | defaultValue default =>
    obtain ⟨e', -, he⟩ := of_bind_eq_ok h
    exact keyed_withDefault he
  | minLength | maxLength | validValues =>
    obtain ⟨p, -, rfl⟩ := of_map_eq_ok h
    exact .string
  | minValue | maxValue =>
    obtain ⟨p, -, rfl⟩ := of_map_eq_ok h
    exact .number
  | children more =>
    obtain ⟨p, hp, h⟩ := of_bind_eq_ok h
    obtain ⟨children, hput, rfl⟩ := of_map_eq_ok h
    exact keyed_putChildren hc (hb _ (asObject_eq_ok hp)) hput
  | slot label element =>
    simp only [change] at h
    split at h
    · cases h
    · obtain ⟨parts, hp, h⟩ := of_bind_eq_ok h
      exact keyed_withSlot (hb _ (asArray_eq_ok hp)) (fun e he => hc e (Option.mem_toList.2 he)) h
  | ordered elements =>
    obtain ⟨parts, hp, h⟩ := of_bind_eq_ok h
    have hparts := hb _ (asArray_eq_ok hp)
    split at h
    · cases h
    · cases h
      cases hparts with
      | array kinds slot each => exact .array kinds slot hc
  | allowNullEntries =>
    obtain ⟨parts, hp, rfl⟩ := of_map_eq_ok h
    have hparts := hb _ (asArray_eq_ok hp)
    cases hparts with
    | array kinds slot each => exact .array kinds slot each

end Builder

namespace Element

/-- **Whatever can be made declares each name once**, and has one slot for a kind. -/
theorem Constructible.keyed {e : Element} (h : e.Constructible) : e.Keyed := by
  induction h with
  | object each made ih =>
    rw [eq_of_object? made]
    exact keyed_ofPairs ih _
  | array slot each made ihSlots ihOrdered =>
    cases keyed_ofPairs ihSlots {} with
    | object names hslots => exact keyed_of_array? names hslots ihOrdered made
  | string => exact .string
  | number => exact .number
  | boolean => exact .boolean
  | call held brought made holds ihHeld ihBrought =>
    obtain ⟨e', he, rfl⟩ := Builder.of_map_eq_ok made
    obtain ⟨e'', hchange, hchecked⟩ := Builder.of_bind_eq_ok he
    cases holds
    exact (Builder.keyed_change ihHeld ihBrought hchange).checked hchecked

theorem Constructible.distinct {e : Element} (h : e.Constructible) : e.Distinct := h.keyed.distinct

end Element
end ConfigSchema
