import ConfigSchema.Proofs.Constructible
import ConfigSchema.Proofs.Settled
import Mathlib.Data.List.Induction
/-!
# Consistent — what constructors and builders let through

A constructor looks at the element that it is to make and not into its parts: it refuses an object with a child under a
key that is not its name, and an array with an element in a slot of another kind or with both slots and ordered elements
(`object?_eq_ok_iff`, `array?_eq_ok_iff`).  Since the parts were made in the same way, no element of a schema contradicts
itself, however deep it stands (`Constructible.consistent`).  A builder has guards of its own, and they leave nothing for
the constructor to refuse (`Builder.consistent_change`).
-/
namespace ConfigSchema

theorem Kind.parse_label (k : Kind) : Kind.parse k.label = .ok k := by
  rw [Kind.parse, ofLabel?_label]

namespace Element

/-! ## Constructors -/

/-- An element does not contradict itself, its parts aside. -/
def Consistent : Element → Prop
  | .object _ children => ∀ child ∈ children, ∀ name ∈ child.2.name?, name = child.1
  | .array _ slots ordered _ => (∀ slot ∈ slots, slot.2.kind = slot.1) ∧ (slots = [] ∨ ordered = [])
  | .string _ _ | .number _ _ | .boolean _ _ => True

/-- An object has every child under a name of the child's own. -/
def Named : Element → Prop
  | .object _ children => ∀ child ∈ children, child.2.name? = some child.1
  | .array _ _ _ _ | .string _ _ | .number _ _ | .boolean _ _ => True

theorem checkChildren_eq_ok_iff : ∀ {children : List (String × Element)},
    checkChildren children = .ok () ↔ ∀ child ∈ children, ∀ name ∈ child.2.name?, name = child.1
  | [] => by simp [checkChildren]
  | (key, child) :: rest => by
    rw [checkChildren, List.forall_mem_cons, ← checkChildren_eq_ok_iff]
    cases hn : child.name? with
    | none => simp
    | some name => by_cases hk : name = key <;> simp [hk]

theorem object?_eq_ok_iff {traits : Traits} {children : List (String × Element)} {e : Element} :
    object? traits children = .ok e ↔
      (∀ child ∈ children, ∀ name ∈ child.2.name?, name = child.1) ∧ e = .object traits children := by
  rw [object?, ← checkChildren_eq_ok_iff]
  cases checkChildren children with
  | error refusal => exact iff_of_false nofun nofun
  | ok u => simp [Except.map, eq_comm]

/-- Slots are read if each is labelled with the kind of its element. -/
theorem readSlots_eq_ok_iff : ∀ {pairs : List (String × Element)} {slots : List (Kind × Element)},
    readSlots pairs = .ok slots ↔
      (∀ pair ∈ pairs, pair.2.kind.label = pair.1) ∧ slots = pairs.map fun pair => (pair.2.kind, pair.2)
  | [], slots => by simp [readSlots, eq_comm]
  | (label, element) :: rest, slots => by
    rw [readSlots, List.forall_mem_cons, List.map_cons]
    constructor
    · intro h
      split at h
      · cases h
      · rename_i k hparse
        split at h
        · rename_i hkind
          obtain ⟨read, hread, rfl⟩ := Builder.of_map_eq_ok h
          obtain ⟨hrest, rfl⟩ := readSlots_eq_ok_iff.1 hread
          exact ⟨⟨hkind ▸ label_of_parse hparse, hrest⟩, by rw [hkind]⟩
        · cases h
    · rintro ⟨⟨hlabel, hrest⟩, rfl⟩
      obtain rfl : element.kind.label = label := hlabel
      rw [Kind.parse_label, readSlots_eq_ok_iff.2 ⟨hrest, rfl⟩]
      simp [Except.map]

theorem array?_eq_ok_iff {traits : Traits} {pairs : List (String × Element)} {ordered : List Element} {allowNull : Bool}
    {e : Element} : array? traits pairs ordered allowNull = .ok e ↔
      ((∀ pair ∈ pairs, pair.2.kind.label = pair.1) ∧ (pairs = [] ∨ ordered = [])) ∧
        e = .array traits (pairs.map fun pair => (pair.2.kind, pair.2)) ordered allowNull := by
  rw [array?]
  constructor
  · intro h
    split at h
    · cases h
    · rename_i read hread
      obtain ⟨hlabels, rfl⟩ := readSlots_eq_ok_iff.1 hread
      split at h
      · cases h
      · rename_i hboth
        cases h
        simp only [Bool.and_eq_true, Bool.not_eq_true', List.isEmpty_eq_false_iff, ne_eq, List.map_eq_nil_iff] at hboth
        exact ⟨⟨hlabels, by tauto⟩, rfl⟩
  · rintro ⟨⟨hlabels, hone⟩, rfl⟩
    rw [readSlots_eq_ok_iff.2 ⟨hlabels, rfl⟩]
    rcases hone with rfl | rfl <;> simp

theorem checked_eq_ok_iff {e e' : Element} : e.checked = .ok e' ↔ e.Consistent ∧ e' = e := by
  cases e with
  | object traits children => exact object?_eq_ok_iff
  | array traits slots ordered allowNull =>
    have hkinds : (∀ pair ∈ slots.map fun slot => (slot.1.label, slot.2), pair.2.kind.label = pair.1) ↔
        ∀ slot ∈ slots, slot.2.kind = slot.1 := by
      simp only [List.forall_mem_map, label_injective.eq_iff]
    rw [checked, array?_eq_ok_iff, hkinds, List.map_eq_nil_iff, List.map_map, Consistent]
    refine and_congr_right fun h => ?_
    have hsame : slots.map ((fun pair => (pair.2.kind, pair.2)) ∘ fun slot => (slot.1.label, slot.2)) = slots.map id :=
      List.map_congr_left fun slot hm => Prod.ext (h.1 slot hm) rfl
    rw [hsame, List.map_id]
  | string | number | boolean => simp [checked, Consistent, eq_comm]

/-- What gives its result under a condition and only then is refused exactly where the condition fails. -/
theorem exists_error_iff {α : Type} {x : Except SchemaError α} {p : Prop} {a : α} (h : ∀ {b}, x = .ok b ↔ p ∧ b = a) :
    (∃ refusal, x = .error refusal) ↔ ¬ p := by
  cases x with
  | error refusal => exact iff_of_true ⟨refusal, rfl⟩ fun hp => nomatch h.2 ⟨hp, rfl⟩
  | ok b => exact iff_of_false nofun (not_not.2 (h.1 rfl).1)

/-- A label and an element that do not fit: it is the label of no kind, or of another kind than the element's. -/
theorem label_ne_iff {label : String} {e : Element} : e.kind.label ≠ label ↔
    (∀ k : Kind, k.label ≠ label) ∨ ∃ k : Kind, k.label = label ∧ e.kind ≠ k := by
  constructor
  · intro h
    by_cases hk : ∃ k : Kind, k.label = label
    · obtain ⟨k, rfl⟩ := hk
      exact .inr ⟨k, rfl, fun heq => h (heq ▸ rfl)⟩
    · exact .inl (not_exists.1 hk)
  · rintro (h | ⟨k, rfl, h⟩)
    · exact h e.kind
    · exact label_injective.ne h

theorem consistent_bare (k : Kind) : (bare k).Consistent := by
  cases k <;> simp [bare, Consistent]

theorem Consistent.withTraits {e : Element} (h : e.Consistent) (traits : Traits) : (e.withTraits traits).Consistent := by
  cases e <;> exact h

end Element

theorem Assoc.mem_put_key {α β : Type} [BEq α] [LawfulBEq α] {a : α} {b : β} : ∀ {l : List (α × β)} {p : α × β},
    p ∈ put (· == ·) a b l → p ∈ l ∨ p = (a, b)
  | [], p, h => .inr (List.mem_singleton.1 h)
  | (a', b') :: l, p, h => by
    rw [put] at h
    split at h
    · rename_i ha
      rw [beq_iff_eq.1 ha] at h ⊢
      exact (List.mem_cons.1 h).symm.imp_left (List.mem_cons_of_mem _)
    · rcases List.mem_cons.1 h with rfl | h
      · exact .inl List.mem_cons_self
      · exact (mem_put_key h).imp_left (List.mem_cons_of_mem _)

theorem Assoc.mem_of_mem_foldl_put {α β : Type} [BEq α] [LawfulBEq α] {p : α × β} : ∀ {pairs l : List (α × β)},
    p ∈ pairs.foldl (fun l p => put (· == ·) p.1 p.2 l) l → p ∈ l ∨ p ∈ pairs
  | [], _, h => .inl h
  | pair :: pairs, l, h => by
    rw [List.foldl_cons] at h
    rcases mem_of_mem_foldl_put h with h | h
    · rcases mem_put_key h with h | rfl
      · exact .inl h
      · exact .inr List.mem_cons_self
    · exact .inr (List.mem_cons_of_mem _ h)

theorem Assoc.mem_of_mem_ofPairs {α β : Type} [BEq α] [LawfulBEq α] {p : α × β} {pairs : List (α × β)}
    (h : p ∈ ofPairs (· == ·) pairs) : p ∈ pairs :=
  (mem_of_mem_foldl_put h).resolve_left List.not_mem_nil

namespace Builder

/-! ## Calls -/

/-- What a call makes of the element that a builder holds, as far as its parts are concerned. -/
inductive Makes : Option Element → Call → Element → Prop
  | choice (kind : Kind) : Makes none (.ofType kind) (.bare kind)
  | traits {held : Element} {call : Call} (traits : Traits) : Makes (some held) call (held.withTraits traits)
  | scalar {held : Option Element} {call : Call} {e : Element} (h : e.kind.isContainer = false) : Makes held call e
  | children {traits : Traits} {children children' : List (String × Element)} {more : List Element}
    (each : ∀ child ∈ children', child ∈ children ∨ child.2 ∈ more ∧ child.2.name? = some child.1) :
    Makes (some (.object traits children)) (.children more) (.object traits children')
  | slot {traits : Traits} {slots : List (Kind × Element)} {allowNull : Bool} {label : String} {element : Option Element}
    {slot : Kind} {inSlot : Element} (fits : inSlot.kind = slot) (brought : inSlot ∈ element ∨ inSlot = .bare slot) :
    Makes (some (.array traits slots [] allowNull)) (.slot label element)
      (.array traits (Assoc.put (· == ·) slot inSlot slots) [] allowNull)
  | ordered {traits : Traits} {before : List Element} {allowNull : Bool} (elements : List Element) :
    Makes (some (.array traits [] before allowNull)) (.ordered elements) (.array traits [] elements allowNull)
  | allowNull {traits : Traits} {slots : List (Kind × Element)} {ordered : List Element} {allowNull : Bool} :
    Makes (some (.array traits slots ordered allowNull)) .allowNullEntries (.array traits slots ordered true)

/-- Elements under their own names, those without a name left out. -/
def byName (elements : List Element) : List (String × Element) := elements.filterMap fun e => e.name?.map (·, e)

theorem mem_byName {elements : List Element} {child : String × Element} :
    child ∈ byName elements ↔ child.2 ∈ elements ∧ child.2.name? = some child.1 := by
  rw [byName, List.mem_filterMap]
  constructor
  · rintro ⟨e, he, hchild⟩
    obtain ⟨name, hname, rfl⟩ := Option.map_eq_some_iff.1 hchild
    exact ⟨he, hname⟩
  · rintro ⟨he, hname⟩
    exact ⟨child.2, he, by rw [hname]; rfl⟩

/-- **Children are put under their own names, one after the other.** -/
theorem eq_of_putChildren : ∀ {more : List Element} {children children' : List (String × Element)},
    putChildren children more = .ok children' →
      children' = (byName more).foldl (fun l p => Assoc.put (· == ·) p.1 p.2 l) children
  | [], _, _, h => by
    cases h
    rfl
  | child :: rest, children, children', h => by
    rw [putChildren] at h
    split at h
    · rename_i name hname
      have hrest := eq_of_putChildren h
      simp only [byName, List.filterMap_cons, hname, Option.map_some, List.foldl_cons] at hrest ⊢
      exact hrest
    · cases h

theorem mem_of_putChildren {more : List Element} {children children' : List (String × Element)}
    (h : putChildren children more = .ok children') :
    ∀ child ∈ children', child ∈ children ∨ child.2 ∈ more ∧ child.2.name? = some child.1 := fun child hm => by
  rw [eq_of_putChildren h] at hm
  exact (Assoc.mem_of_mem_foldl_put hm).imp_right mem_byName.1

variable {b : Builder} {call : Call} {e : Element}

theorem makes_withSlot {parts : ArrayParts} {slot : Kind} {label : String} {element : Option Element}
    (h : withSlot parts slot element = .ok e) : Makes (some parts.toElement) (.slot label element) e := by
  obtain ⟨traits, slots, ordered, allowNull⟩ := parts
  unfold withSlot at h
  simp only at h
  split at h
  · cases h
  · rename_i hkind
    split at h
    · cases h
    · rename_i hnone
      obtain rfl : ordered = [] := by simpa using hnone
      cases h
      refine .slot (not_not.1 hkind) ?_
      cases element with
      | none => exact .inr rfl
      | some e => exact .inl rfl

/-- **Whatever a call makes, it makes in one of these ways.** -/
theorem makes_of_change (h : b.change call = .ok e) : Makes b.current call e := by
  cases call with
  | ofType kind =>
    simp only [change] at h
    split at h
    · cases h
    · rename_i hnone
      cases h
      rw [Option.isSome_iff_ne_none, not_not] at hnone
      rw [hnone]
      exact .choice kind
  | name | nullable | optional | validators =>
    obtain ⟨held, hb, rfl⟩ := of_map_eq_ok h
    rw [build_eq_ok hb]
    exact .traits _
  | defaultValue default =>
    obtain ⟨held, hb, hd⟩ := of_bind_eq_ok h
    rw [build_eq_ok hb]
    cases held <;> cases hd <;> exact .scalar rfl
  | minLength | maxLength | validValues | minValue | maxValue =>
    obtain ⟨p, -, rfl⟩ := of_map_eq_ok h
    exact .scalar rfl
  | children more =>
    obtain ⟨p, hp, h⟩ := of_bind_eq_ok h
    obtain ⟨children, hput, rfl⟩ := of_map_eq_ok h
    rw [asObject_eq_ok hp]
    exact .children (mem_of_putChildren hput)
  | slot label element =>
    simp only [change] at h
    split at h
    · cases h
    · obtain ⟨parts, hp, h⟩ := of_bind_eq_ok h
      rw [asArray_eq_ok hp]
      exact makes_withSlot h
  | ordered elements =>
    obtain ⟨⟨traits, slots, before, allowNull⟩, hp, h⟩ := of_bind_eq_ok h
    rw [asArray_eq_ok hp]
    split at h
    · cases h
    · rename_i hnone
      obtain rfl : slots = [] := by simpa using hnone
      cases h
      exact .ordered elements
  | allowNullEntries =>
    obtain ⟨parts, hp, rfl⟩ := of_map_eq_ok h
    rw [asArray_eq_ok hp]
    exact .allowNull

/-- **What a call makes of an element that does not contradict itself does not do so either.** -/
theorem Makes.consistent {held : Option Element} (h : Makes held call e) (hb : ∀ e ∈ held, e.Consistent) :
    e.Consistent := by
  cases h with
  | choice kind => exact Element.consistent_bare kind
  | traits traits => exact (hb _ rfl).withTraits traits
  | scalar h => cases e <;> trivial
  | children each =>
    intro child hm name hn
    rcases each child hm with hm | ⟨-, hname⟩
    · exact hb _ rfl child hm name hn
    · exact Option.some.inj (hn.symm.trans hname)
  | slot fits brought =>
    refine ⟨fun s hm => ?_, .inr rfl⟩
    rcases Assoc.mem_put_key hm with hm | rfl
    · exact (hb _ rfl).1 s hm
    · exact fits
  | ordered elements => exact ⟨nofun, .inl rfl⟩
  | allowNull =>
    have hheld := hb _ rfl
    exact hheld

/-- **Whatever is part of what a call makes** was part of it before, was brought by the call, or is bare. -/
theorem Makes.of_mem_parts {held : Option Element} (h : Makes held call e) {part : Element} (hm : part ∈ e.parts) :
    (∃ e' ∈ held, part ∈ e'.parts) ∨ part ∈ call.elements ∨ ∃ kind, part = .bare kind := by
  cases h with
  | choice kind => cases kind <;> cases hm
  | @traits held _ traits =>
    have hparts : (held.withTraits traits).parts = held.parts := by cases held <;> rfl
    exact .inl ⟨held, rfl, hparts ▸ hm⟩
  | scalar h => cases e <;> first | cases hm | cases h
  | children each =>
    obtain ⟨child, hc, rfl⟩ := List.mem_map.1 hm
    rcases each child hc with hc | ⟨hc, -⟩
    · exact .inl ⟨_, rfl, List.mem_map_of_mem hc⟩
    · exact .inr (.inl hc)
  | slot fits brought =>
    simp only [Element.parts, List.append_nil] at hm
    obtain ⟨s, hs, rfl⟩ := List.mem_map.1 hm
    rcases Assoc.mem_put_key hs with hs | rfl
    · exact .inl ⟨_, rfl, List.mem_append_left _ (List.mem_map_of_mem hs)⟩
    · exact .inr (brought.imp Option.mem_toList.2 fun hbare => ⟨_, hbare⟩)
  | ordered elements => exact .inr (.inl hm)
  | allowNull => exact .inl ⟨_, rfl, hm⟩

/-- The children that a call puts into an object stand under names of their own. -/
theorem Makes.named {held : Option Element} (h : Makes held call e) (hb : ∀ e ∈ held, e.Named) : e.Named := by
  cases h with
  | choice kind => cases kind <;> simp [Element.bare, Element.Named]
  | @traits held _ traits =>
    have hheld := hb held rfl
    cases held <;> exact hheld
  | scalar h => cases e <;> trivial
  | children each =>
    intro child hm
    rcases each child hm with hm | ⟨-, hname⟩
    · exact hb _ rfl child hm
    · exact hname
  | slot | ordered | allowNull => trivial

/-- What a call makes passes the constructor's check, or the call would be refused. -/
theorem of_apply_eq_ok {b' : Builder} (h : b.apply call = .ok b') :
    ∃ e, b.change call = .ok e ∧ e.Consistent ∧ b' = ⟨some e⟩ := by
  obtain ⟨e', hchecked, rfl⟩ := of_map_eq_ok h
  obtain ⟨e, hchange, hchecked⟩ := of_bind_eq_ok hchecked
  obtain ⟨hconsistent, rfl⟩ := Element.checked_eq_ok_iff.1 hchecked
  exact ⟨e', hchange, hconsistent, rfl⟩

/-- **The guards of a builder leave nothing for the constructor to refuse.** -/
theorem apply_eq_change (hb : ∀ e ∈ b.current, e.Consistent) (call : Call) :
    b.apply call = (b.change call).map fun e => ⟨some e⟩ := by
  rw [apply]
  cases hc : b.change call with
  | error refusal => rfl
  | ok e =>
    have hchecked : e.checked = .ok e :=
      Element.checked_eq_ok_iff.2 ⟨(makes_of_change hc).consistent hb, rfl⟩
    simp only [Except.bind, hchecked]

/-- The builder after calls on a new one, whether they were refused or not. -/
def after (calls : List Call) : Builder := calls.foldl step {}

theorem after_snoc (calls : List Call) (call : Call) : after (calls ++ [call]) = (after calls).step call := by
  rw [after, List.foldl_append]
  rfl

/-- **What every call keeps holds of whatever a builder holds**, however the calls on it went. -/
theorem forall_after {p : Element → Prop}
    (keep : ∀ {held : Option Element} {call : Call} {e : Element}, Makes held call e → (∀ e ∈ held, p e) → p e)
    (calls : List Call) : ∀ e ∈ (after calls).current, p e := by
  induction calls using List.reverseRecOn with
  | nil => exact nofun
  | append_singleton calls call ih =>
    rw [after_snoc, step]
    cases ha : (after calls).apply call with
    | error refusal => exact ih
    | ok b =>
      obtain ⟨e, hchange, -, rfl⟩ := of_apply_eq_ok ha
      rintro _ ⟨⟩
      exact keep (makes_of_change hchange) ih

/-! ## Guards -/

end Builder

/-- Whether it is a builder that refuses in this way, and not a constructor. -/
def SchemaError.ofGuard : SchemaError → Bool
  | .unknownKind _ | .unnamedChild _ | .orderedAlready | .slotsAlready | .undetermined | .alreadyDetermined
  | .notPrimitive | .precedingCall _ _ | .slotMismatch _ => true
  | .childName _ _ | .slotElement _ _ | .slotsAndOrdered | .statedOfElement _ | .statedOfBuilder _ => false

namespace Builder

/-- Whatever is refused is refused by a guard. -/
def Guarded {α : Type} (x : Except SchemaError α) : Prop := ∀ refusal, x = .error refusal → refusal.ofGuard = true

section Guarded

variable {α β : Type} {x : Except SchemaError α}

theorem Guarded.map (h : Guarded x) (f : α → β) : Guarded (x.map f) := by
  cases x with
  | error refusal =>
    rintro _ ⟨⟩
    exact h refusal rfl
  | ok a => exact nofun

theorem Guarded.bind (h : Guarded x) {f : α → Except SchemaError β} (hf : ∀ a, Guarded (f a)) :
    Guarded (x.bind f) := by
  cases x with
  | error refusal =>
    rintro _ ⟨⟩
    exact h refusal rfl
  | ok a => exact hf a

@[simp] theorem guarded_error {refusal : SchemaError} :
    Guarded (.error refusal : Except SchemaError α) ↔ refusal.ofGuard = true := by
  constructor
  · intro h
    exact h refusal rfl
  · rintro h _ ⟨⟩
    exact h

@[simp] theorem guarded_ok (a : α) : Guarded (.ok a) := nofun

end Guarded

theorem guarded_build (b : Builder) : Guarded b.build := by
  unfold build
  split <;> simp [SchemaError.ofGuard]

theorem guarded_putChildren : ∀ (more : List Element) (children : List (String × Element)),
    Guarded (putChildren children more)
  | [], children => guarded_ok children
  | child :: rest, children => by
    rw [putChildren]
    split
    · exact guarded_putChildren rest _
    · exact guarded_error.2 rfl

theorem guarded_withDefault (default : Option Scalar) (e : Element) : Guarded (withDefault default e) := by
  cases e <;> simp [withDefault, SchemaError.ofGuard]

theorem guarded_withSlot (parts : ArrayParts) (slot : Kind) (element : Option Element) :
    Guarded (withSlot parts slot element) := by
  unfold withSlot
  simp only
  split
  · exact guarded_error.2 rfl
  · split <;> simp [SchemaError.ofGuard]

/-- **A call that is refused before its element is checked** is refused by a guard of the builder. -/
theorem guarded_change (b : Builder) (call : Call) : Guarded (b.change call) := by
  have hstring (method : String) : Guarded (b.asString method) := by
    unfold asString
    split <;> simp [meantFor, SchemaError.ofGuard]
  have hnumber (method : String) : Guarded (b.asNumber method) := by
    unfold asNumber
    split <;> simp [meantFor, SchemaError.ofGuard]
  have hobject (method : String) : Guarded (b.asObject method) := by
    unfold asObject
    split <;> simp [meantFor, SchemaError.ofGuard]
  have harray (method : String) : Guarded (b.asArray method) := by
    unfold asArray
    split <;> simp [meantFor, SchemaError.ofGuard]
  cases call with
  | ofType kind =>
    simp only [change]
    split <;> simp [SchemaError.ofGuard]
  | name | nullable | optional | validators => exact b.guarded_build.map _
  | defaultValue default => exact b.guarded_build.bind (guarded_withDefault default)
  | minLength | maxLength | validValues => exact (hstring _).map _
  | minValue | maxValue => exact (hnumber _).map _
  | children more => exact (hobject _).bind fun p => (guarded_putChildren more p.2).map _
  | slot label element =>
    simp only [change]
    split
    · exact guarded_error.2 rfl
    · exact (harray _).bind fun parts => guarded_withSlot parts _ element
  | ordered elements =>
    refine (harray _).bind fun parts => ?_
    split <;> simp [SchemaError.ofGuard]
  | allowNullEntries => exact (harray _).map _

end Builder

/-! ## Schemas -/

namespace Element

/-- **No element of a schema that can be made contradicts itself**, however deep it stands. -/
theorem Constructible.consistent {root : Element} (h : root.Constructible) : ∀ e, root.Holds e → e.Consistent := by
  induction h with
  | object each made ih =>
    obtain ⟨hnames, rfl⟩ := object?_eq_ok_iff.1 made
    refine forall_holds_iff.2 ⟨hnames, fun part hm => ?_⟩
    obtain ⟨child, hc, rfl⟩ := List.mem_map.1 hm
    exact ih child (Assoc.mem_of_mem_ofPairs hc)
  | array slot each made ihSlots ihOrdered =>
    obtain ⟨hconsistent, rfl⟩ := array?_eq_ok_iff.1 made
    refine forall_holds_iff.2 ⟨⟨?_, ?_⟩, fun part hm => ?_⟩
    · exact List.forall_mem_map.2 fun _ _ => rfl
    · exact hconsistent.2.imp_left List.map_eq_nil_iff.2
    · rcases List.mem_append.1 hm with hm | hm
      · rw [List.map_map] at hm
        obtain ⟨pair, hp, rfl⟩ := List.mem_map.1 hm
        exact ihSlots pair (Assoc.mem_of_mem_ofPairs hp)
      · exact ihOrdered part hm
  | string | number | boolean => exact forall_holds_iff.2 ⟨trivial, nofun⟩
  | call held brought made holds ihHeld ihBrought =>
    obtain ⟨e, hchange, hconsistent, rfl⟩ := Builder.of_apply_eq_ok made
    cases holds
    refine forall_holds_iff.2 ⟨hconsistent, fun part hm => ?_⟩
    rcases (Builder.makes_of_change hchange).of_mem_parts hm with ⟨e', he', hm⟩ | hm | ⟨kind, rfl⟩
    · exact (forall_holds_iff.1 (ihHeld e' he')).2 part hm
    · exact ihBrought part hm
    · have hbare : (bare kind).parts = [] := by cases kind <;> rfl
      exact forall_holds_iff.2 ⟨consistent_bare kind, by rw [hbare]; exact nofun⟩

/-- What every schema can rely on, at any depth. -/
structure WellFormed (root : Element) : Prop where
  /-- A child that has a name stands under it. -/
  named : ∀ traits children, root.Holds (.object traits children) →
    ∀ child ∈ children, child.2.name? = none ∨ child.2.name? = some child.1
  /-- A slot holds an element of its kind, and so does what is looked up under a label. -/
  slotted : ∀ traits slots ordered allowNull, root.Holds (.array traits slots ordered allowNull) →
    (∀ slot ∈ slots, slot.2.kind = slot.1) ∧
      ∀ label, slot? slots label = none ∨ ∃ e, slot? slots label = some e ∧ e.kind.label = label
  /-- No array has both slots and ordered elements, so either of them alone decides how it goes about entries. -/
  shaped : ∀ traits slots ordered allowNull, root.Holds (.array traits slots ordered allowNull) →
    (slots = [] ∨ ordered = []) ∧ (ArrayMode.ofContents slots ordered = .typed ↔ slots ≠ []) ∧
      (ArrayMode.ofContents slots ordered = .ordered ↔ ordered ≠ [])

theorem kind_of_slot? {slots : List (Kind × Element)} (h : ∀ slot ∈ slots, slot.2.kind = slot.1) {label : String}
    {e : Element} (he : slot? slots label = some e) : e.kind.label = label := by
  obtain ⟨k, hk, he⟩ := Option.bind_eq_some_iff.1 he
  have hkind : e.kind = k := h _ (Assoc.mem_of_find?_key he)
  rw [hkind]
  exact label_of_parse (by rw [Kind.parse, hk])

theorem wellFormed_iff {root : Element} : root.WellFormed ↔ ∀ e, root.Holds e → e.Consistent := by
  constructor
  · intro h e he
    cases e with
    | object traits children =>
      intro child hm name hn
      rcases h.named _ _ he child hm with hname | hname <;> rw [hname] at hn <;> cases hn
      rfl
    | array traits slots ordered allowNull => exact ⟨(h.slotted _ _ _ _ he).1, (h.shaped _ _ _ _ he).1⟩
    | string | number | boolean => trivial
  · intro h
    refine ⟨fun traits children he child hm => ?_, fun traits slots ordered allowNull he => ?_,
      fun traits slots ordered allowNull he => ?_⟩
    · cases hn : child.2.name? with
      | none => exact .inl rfl
      | some name => exact .inr (congrArg some (h _ he child hm name hn))
    · have hslots := (h _ he).1
      refine ⟨hslots, fun label => ?_⟩
      cases hs : slot? slots label with
      | none => exact .inl rfl
      | some e => exact .inr ⟨e, rfl, kind_of_slot? hslots hs⟩
    · have hone := (h _ he).2
      refine ⟨hone, ?_⟩
      rcases hone with rfl | rfl
      · cases ordered <;> simp [ArrayMode.ofContents]
      · cases slots <;> simp [ArrayMode.ofContents]

/-- **Every schema that can be made is well formed, and builders need no check but their own.**  A constructor refuses
exactly an object with a child under another name than its own, and an array with a label that fits no kind or not the
element's, or with both shapes.  The children that a builder puts into an object have names, and whatever call it refuses
is refused by one of its guards. -/
theorem wellFormed_of_constructible :
    (∀ root : Element, root.Constructible → root.WellFormed) ∧
    (∀ traits children, (∃ refusal, object? traits children = .error refusal) ↔
      ∃ child ∈ children, ∃ name, child.2.name? = some name ∧ name ≠ child.1) ∧
    (∀ traits pairs ordered allowNull, (∃ refusal, array? traits pairs ordered allowNull = .error refusal) ↔
      (∃ pair ∈ pairs, ∀ k : Kind, k.label ≠ pair.1) ∨
        (∃ pair ∈ pairs, ∃ k : Kind, k.label = pair.1 ∧ pair.2.kind ≠ k) ∨ pairs ≠ [] ∧ ordered ≠ []) ∧
    (∀ calls traits children, (Builder.after calls).current = some (.object traits children) →
      ∀ child ∈ children, child.2.name? = some child.1) ∧
    ∀ calls call, (Builder.after calls).apply call = ((Builder.after calls).change call).map (⟨some ·⟩) ∧
      ∀ refusal, (Builder.after calls).apply call = .error refusal → refusal.ofGuard = true := by
  refine ⟨fun root h => wellFormed_iff.2 h.consistent, fun traits children => ?_,
    fun traits pairs ordered allowNull => ?_, fun calls traits children h => ?_, fun calls call => ?_⟩
  · rw [exists_error_iff object?_eq_ok_iff]
    simp only [Option.mem_def, not_forall, exists_prop, ne_eq]
  · rw [exists_error_iff array?_eq_ok_iff, not_and_or, not_or, ← or_assoc]
    simp only [not_forall, exists_prop, ← exists_or, ← and_or_left, label_ne_iff, ← ne_eq]
  · exact Builder.forall_after Builder.Makes.named calls _ h
  · have hchange := Builder.apply_eq_change (Builder.forall_after Builder.Makes.consistent calls) call
    refine ⟨hchange, ?_⟩
    rw [hchange]
    exact (Builder.guarded_change _ call).map _

/-- An array from a constructor is put into an object by a builder; other builders are refused a second shape, and other
constructors a child or an element in a slot. -/
theorem wellFormed_of_constructible_list :
    let list := Element.array { name := some "list" } [(.number, .number {} {})] [] false
    let root := Element.object {} [("list", list)]
    root.Constructible ∧ root.WellFormed ∧ (∃ refusal, object? {} [("other", list)] = .error refusal) ∧
      (∃ refusal, array? {} [("number", list)] [] false = .error refusal) ∧
      (Builder.after [.ofType .object, .children [list]]).current = some root ∧ list.name? = some "list" ∧
      (Builder.after [.ofType .array, .ordered [], .slot "number" none]).apply (.ordered [list]) = .error .slotsAlready ∧
      SchemaError.slotsAlready.ofGuard = true := by
  intro list root
  obtain ⟨hformed, hobject, harray, hnames, hguards⟩ := wellFormed_of_constructible
  have hnumber : (Element.number {} {}).Constructible := .number
  have hlist : list.Constructible :=
    @Constructible.array _ [("number", .number {} {})] [] _ _ (List.forall_mem_singleton.2 hnumber) nofun rfl
  have hempty : (Element.object {} []).Constructible := @Constructible.object _ [] _ nofun rfl
  have hroot : root.Constructible := by
    refine @Constructible.call ⟨some (.object {} [])⟩ ⟨some root⟩ (.children [list]) root ?_
      (List.forall_mem_singleton.2 hlist) rfl rfl
    rintro _ ⟨⟩
    exact hempty
  have hafter : (Builder.after [.ofType .object, .children [list]]).current = some root := rfl
  have hrefused : (Builder.after [.ofType .array, .ordered [], .slot "number" none]).apply (.ordered [list]) =
      .error .slotsAlready := rfl
  refine ⟨hroot, hformed root hroot, (hobject _ _).2 ⟨_, List.mem_singleton_self _, "list", rfl, by decide⟩,
    (harray _ _ _ _).2 (.inr (.inl ⟨_, List.mem_singleton_self _, .number, rfl, nofun⟩)), hafter, ?_, hrefused,
    (hguards _ _).2 _ hrefused⟩
  exact hnames _ _ _ hafter _ (List.mem_singleton_self _)

end Element
end ConfigSchema
