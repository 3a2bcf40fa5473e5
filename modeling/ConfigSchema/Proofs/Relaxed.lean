import ConfigSchema.Proofs.Diagnosis
import ConfigSchema.Proofs.Sameness
/-!
# Relaxed — schemas that ask for less

One element relaxes another if it is got from it by taking demands away, here or in any of its parts (`Relaxes`): null is
allowed, a child need not be there or is not declared any more, bounds are wider, more values are listed, validators are
gone, an array has more slots or looks at its entries no longer.  Whatever the stricter element accepts, the other accepts
as well (`Relaxes.conforms`), although it may not even come to the same parts of the document.
-/
namespace ConfigSchema

/-- Bounds that leave at least as much room as others: each of them is unset, or is that of the others, or lies beyond
it. -/
structure Number.Widens (minimum maximum minimum' maximum' : Option Number) : Prop where
  below : ∀ bound' ∈ minimum', ∃ bound ∈ minimum, bound' = bound ∨ bound'.AtMost bound
  above : ∀ bound' ∈ maximum', ∃ bound ∈ maximum, bound' = bound ∨ bound.AtMost bound'

theorem Number.Widens.refl (minimum maximum : Option Number) : Widens minimum maximum minimum maximum :=
  ⟨fun bound hb => ⟨bound, hb, .inl rfl⟩, fun bound hb => ⟨bound, hb, .inl rfl⟩⟩

/-- A number within bounds is within wider ones, also if it is not-a-number. -/
theorem Number.Widens.within {n : Number} {minimum maximum minimum' maximum' : Option Number}
    (h : Widens minimum maximum minimum' maximum') (hn : n.Within minimum maximum) : n.Within minimum' maximum' := by
  refine ⟨fun bound' hb' => ?_, fun bound' hb' => ?_⟩
  · obtain ⟨bound, hb, rfl | hle⟩ := h.below bound' hb'
    · exact hn.1 bound' hb
    · have hnot := hn.1 bound hb
      exact Bool.eq_false_iff.2 fun hlt => Bool.eq_false_iff.1 hnot (lt_of_lt_of_atMost hlt hle)
  · obtain ⟨bound, hb, rfl | hle⟩ := h.above bound' hb'
    · exact hn.2 bound' hb
    · have hnot := hn.2 bound hb
      exact Bool.eq_false_iff.2 fun hlt => Bool.eq_false_iff.1 hnot (lt_of_atMost_of_lt hle hlt)

/-- Null is still allowed if it was, and no validator is new; a child may no longer be required. -/
structure Traits.Relaxes (traits traits' : Traits) : Prop where
  nullable : traits.nullable = true → traits'.nullable = true
  required : traits'.required = true → traits.required = true
  validators : ∀ w ∈ traits'.validators, w ∈ traits.validators

/-- Where values are listed more of them may be, and nothing else counts; else the bounds on the length are wider. -/
def StringRules.Relaxes (rules rules' : StringRules) : Prop :=
  (rules.validValues ≠ [] → rules.validValues ⊆ rules'.validValues) ∧
    (rules.validValues = [] → rules'.validValues = [] ∧
      Number.Widens rules.minLength rules.maxLength rules'.minLength rules'.maxLength)

theorem StringRules.Relaxes.keeps {rules rules' : StringRules} (h : rules.Relaxes rules') {text : String}
    (ht : rules.Admit text) : rules'.Admit text := by
  by_cases hv : rules.validValues = []
  · obtain ⟨hv', hwider⟩ := h.2 hv
    exact ⟨fun hsome => absurd hv' hsome, fun _ => hwider.within (ht.2 hv)⟩
  · have hlisted := h.1 hv (ht.1 hv)
    exact ⟨fun _ => hlisted, fun hnone => absurd hlisted (hnone ▸ List.not_mem_nil)⟩

namespace Assoc

variable {α β : Type} [BEq α] [LawfulBEq α]

theorem exists_find?_of_mem {a : α} : ∀ {l : List (α × β)}, a ∈ l.map Prod.fst → ∃ b, find? (· == a) l = some b
  | (a', b) :: l, h => by
    rw [find?]
    by_cases ha : a' = a
    · exact ⟨b, if_pos (beq_iff_eq.2 ha)⟩
    · rw [if_neg (by simpa using ha)]
      exact exists_find?_of_mem ((List.mem_cons.1 h).resolve_left (Ne.symm ha))

end Assoc

theorem Value.isOf_unique {v : Value} {k k' : Kind} (h : v.isOf k = true) (h' : v.isOf k' = true) : k = k' :=
  Element.label_injective ((kindName_of_isOf h).symm.trans (kindName_of_isOf h'))

namespace Element

theorem mem_of_governing? {children : List (String × Element)} {key : Key} {child : Element}
    (h : governing? children key = some child) : ∃ name, key = .name name ∧ (name, child) ∈ children := by
  cases key with
  | name name => exact ⟨name, rfl, Assoc.mem_of_find?_key h⟩
  | number | null => cases h

/-- The second element asks for no more than the first. -/
inductive Relaxes : Element → Element → Prop
  /-- Children that are still declared are relaxed. -/
  | object {traits traits' : Traits} {children children' : List (String × Element)} (eased : traits.Relaxes traits')
    (kept : children'.map Prod.fst ⊆ children.map Prod.fst)
    (each : ∀ child ∈ children, ∀ child' ∈ children', child.1 = child'.1 → Relaxes child.2 child'.2) :
    Relaxes (.object traits children) (.object traits' children')
  /-- An array of any shape may come to take any entries. -/
  | any {traits traits' : Traits} {slots : List (Kind × Element)} {ordered : List Element} {allowNull allowNull' : Bool}
    (eased : traits.Relaxes traits') (nulls : allowNull = true → allowNull' = true) :
    Relaxes (.array traits slots ordered allowNull) (.array traits' [] [] allowNull')
  /-- Every slot is still there and relaxed; others may have come. -/
  | typed {traits traits' : Traits} {slots slots' : List (Kind × Element)} {allowNull allowNull' : Bool}
    (eased : traits.Relaxes traits') (slotted : slots ≠ []) (kept : slots.map Prod.fst ⊆ slots'.map Prod.fst)
    (each : ∀ slot ∈ slots, ∀ slot' ∈ slots', slot.1 = slot'.1 → Relaxes slot.2 slot'.2)
    (nulls : allowNull = true → allowNull' = true) :
    Relaxes (.array traits slots [] allowNull) (.array traits' slots' [] allowNull')
  /-- There are as many positions as before. -/
  | ordered {traits traits' : Traits} {ordered ordered' : List Element} {allowNull allowNull' : Bool}
    (eased : traits.Relaxes traits') (listed : ordered ≠ []) (length : ordered.length = ordered'.length)
    (each : ∀ (i : Nat) e e', ordered[i]? = some e → ordered'[i]? = some e' → Relaxes e e')
    (nulls : allowNull = true → allowNull' = true) :
    Relaxes (.array traits [] ordered allowNull) (.array traits' [] ordered' allowNull')
  | string {traits traits' : Traits} {rules rules' : StringRules} (eased : traits.Relaxes traits')
    (looser : rules.Relaxes rules') : Relaxes (.string traits rules) (.string traits' rules')
  | number {traits traits' : Traits} {rules rules' : NumberRules} (eased : traits.Relaxes traits')
    (wider : Number.Widens rules.minValue rules.maxValue rules'.minValue rules'.maxValue) :
    Relaxes (.number traits rules) (.number traits' rules')
  | boolean {traits traits' : Traits} {default default' : Option Scalar} (eased : traits.Relaxes traits') :
    Relaxes (.boolean traits default) (.boolean traits' default')

variable {e e' : Element}

theorem Relaxes.traits (h : e.Relaxes e') : e.traits.Relaxes e'.traits := by
  cases h <;> assumption

theorem Relaxes.kind_eq (h : e.Relaxes e') : e'.kind = e.kind := by
  cases h <;> rfl

theorem Relaxes.admits (h : e.Relaxes e') (document : Value) : e'.admits document = e.admits document := by
  rw [Element.admits, Element.admits, accepts, accepts, h.kind_eq]

end Element

namespace Setting

variable {s : Setting} {e e' : Element}

/-- What the validators decide about a value is the same whichever element governs it. -/
def Impartial (s : Setting) : Prop := ∀ w e e' v, s.judge w e v = s.judge w e' v

/-- The validators that are left of an element accept a scalar still. -/
theorem Impartial.accepted_scalar (hs : s.Impartial) (h : e.Relaxes e') {v : Value} (hv : v.isScalar = true)
    (ha : s.Accepted e v) : s.Accepted e' v := by
  intro w hw
  have hjudge := ha w (h.traits.validators w hw)
  rw [s.options.prune_scalar false e hv] at hjudge
  rw [s.options.prune_scalar false e' hv, hs w e' e, hjudge]

theorem Accepted.of_unguarded {v : Value} (h : e.Unguarded) (hc : e.kind.isContainer = true) : s.Accepted e v := by
  intro w hw
  rw [h e .root hc] at hw
  cases hw

/-- **What conforms to an element conforms to one that relaxes it.** -/
theorem Impartial.conforms_of_relaxes (hs : s.Impartial) (h : e.Relaxes e') : ∀ v, e'.Unguarded → s.Conforms e v →
    s.Conforms e' v := by
  induction h with
  | object eased kept each ih =>
    intro v hu hv
    cases hv with
    | null nullable => exact .null (eased.nullable nullable)
    | object required declared accepted =>
      refine .object (fun child' hm' hr' => ?_) (fun field hf child' hg' => ?_) (.of_unguarded hu rfl)
      · obtain ⟨child, hm, hkey⟩ := List.mem_map.1 (kept (List.mem_map_of_mem hm'))
        have hr := (each child hm child' hm' hkey).traits.required hr'
        exact hkey ▸ required child hm hr
      · obtain ⟨name, hkey, hm'⟩ := Element.mem_of_governing? hg'
        obtain ⟨child, hc⟩ := Assoc.exists_find?_of_mem (kept (List.mem_map_of_mem hm'))
        have hchild := declared field hf child (by rw [hkey]; exact hc)
        exact ih _ (Assoc.mem_of_find?_key hc) _ hm' rfl _ (hu.of_holds (.child .root hm')) hchild
  | any eased nulls =>
    intro v hu hv
    cases hv with
    | null nullable => exact .null (eased.nullable nullable)
    | any hnull _ | typed _ hnull _ _ _ | ordered _ _ hnull _ _ =>
      exact .any (fun hm => nulls (hnull hm)) (.of_unguarded hu rfl)
  | typed eased slotted kept each nulls ih =>
    intro v hu hv
    cases hv with
    | null nullable => exact .null (eased.nullable nullable)
    | any => exact absurd rfl slotted
    | ordered listed => exact absurd rfl listed
    | typed _ hnull slot inside _ =>
      have hslot : ∀ k e, Assoc.find? (· == k) _ = some e → ∃ e', Assoc.find? (· == k) _ = some e' := fun k e he =>
        Assoc.exists_find?_of_mem (kept (List.mem_map_of_mem (Assoc.mem_of_find?_key he)))
      refine .typed (fun hnone => ?_) (fun hm => nulls (hnull hm)) (fun u hm hn => ?_) (fun u hm k e' hk he' => ?_)
        (.of_unguarded hu rfl)
      · subst hnone
        exact slotted (List.map_eq_nil_iff.1 (List.subset_nil.1 kept))
      · obtain ⟨k, e, hk, he⟩ := slot u hm hn
        obtain ⟨e', he'⟩ := hslot k e he
        exact ⟨k, e', hk, he'⟩
      · have hn : u ≠ .null := fun hnull => by subst hnull; cases k <;> cases hk
        obtain ⟨k', e, hk', he⟩ := slot u hm hn
        obtain rfl := Value.isOf_unique hk hk'
        have hm' := Assoc.mem_of_find?_key he'
        exact ih _ (Assoc.mem_of_find?_key he) _ hm' rfl u (hu.of_holds (.slot .root hm')) (inside u hm k e hk he)
  | ordered eased listed length each nulls ih =>
    intro v hu hv
    cases hv with
    | null nullable => exact .null (eased.nullable nullable)
    | any | typed => exact absurd rfl listed
    | ordered _ hlength hnull inside _ =>
      refine .ordered (fun hnone => ?_) (hlength.trans length) (fun hm => nulls (hnull hm)) (fun i u e' hi he' hn => ?_)
        (.of_unguarded hu rfl)
      · subst hnone
        exact listed (List.length_eq_zero_iff.1 length)
      · have hlt : i < _ := length ▸ (List.getElem?_eq_some_iff.1 he').1
        have he := List.getElem?_eq_getElem hlt
        have hu' := hu.of_holds (.position .root (List.mem_of_getElem? he'))
        exact ih i _ e' he he' u hu' (inside i u _ hi he hn)
  | string eased looser =>
    intro v hu hv
    cases hv with
    | null nullable => exact .null (eased.nullable nullable)
    | string admitted accepted =>
      exact .string (looser.keeps admitted) (hs.accepted_scalar (.string eased looser) rfl accepted)
  | number eased wider =>
    intro v hu hv
    cases hv with
    | null nullable => exact .null (eased.nullable nullable)
    | number within accepted =>
      exact .number (wider.within within) (hs.accepted_scalar (.number eased wider) rfl accepted)
  | boolean eased =>
    intro v hu hv
    cases hv with
    | null nullable => exact .null (eased.nullable nullable)
    | boolean accepted => exact .boolean (hs.accepted_scalar (.boolean eased) rfl accepted)

/-- **A schema that asks for less rejects nothing that was accepted**, as long as the validators that are left look at
scalars only and at nothing but the value. -/
theorem outcome_run_of_relaxes {root root' : Element} (hs : s.Impartial) (hu : root'.Unguarded)
    (h : root.Relaxes root') (document : Value) (hok : (s.run root document).outcome = .ok []) :
    (s.run root' document).outcome = .ok [] := by
  have hclean := Trail.clean_iff.2 ((s.outcome_run_eq_ok root document).1 hok)
  have hadmits := admits_of_clean_walkRoot hclean
  rw [s.walkRoot_of_admits root document hadmits, clean_walk] at hclean
  rw [outcome_run_eq_ok, ← Trail.clean_iff, walkRoot_of_admits _ _ _ (by rwa [h.admits]), clean_walk]
  exact hs.conforms_of_relaxes h document hu hclean

/-- More values are listed for the mode, a bound of the port is gone and the other wider, the list takes strings as well,
and the flag is not declared any more. -/
theorem outcome_run_of_relaxes_list :
    let s : Setting := ⟨{}, fun _ _ v => if v.isScalar then .accept else .reject⟩
    let root := Element.object {} [("mode", .string {} { validValues := ["fast"] }),
      ("port", .number { validators := [⟨"known", "known"⟩] } { minValue := some (.whole 1), maxValue := some (.whole 9) }),
      ("list", .array {} [(.number, .number {} {})] [] false), ("flag", .boolean {} none)]
    let root' := Element.object {} [("mode", .string { required := false } { validValues := ["slow", "fast"] }),
      ("port", .number {} { minValue := some (.whole 0) }),
      ("list", .array {} [(.string, .string {} {}), (.number, .number { nullable := true } {})] [] true)]
    let document := Value.object [(.name "list", .array .list [.number (.whole 3)]), (.name "port", .number (.whole 1)),
      (.name "mode", .string "fast"), (.name "flag", .boolean true)]
    s.Impartial ∧ root'.Unguarded ∧ root.Relaxes root' ∧ (s.run root document).outcome = .ok [] ∧
      (s.run root' document).outcome = .ok [] := by
  intro s root root' document
  have himpartial : s.Impartial := fun _ _ _ _ => rfl
  have hentries :
      (Element.array {} [(.string, .string {} {}), (.number, .number { nullable := true } {})] [] true).Unguarded :=
    Element.unguarded_iff.2 ⟨fun _ => rfl, List.forall_mem_cons.2 ⟨Element.unguarded_of_scalar rfl,
      List.forall_mem_singleton.2 (Element.unguarded_of_scalar rfl)⟩⟩
  have hunguarded : root'.Unguarded :=
    Element.unguarded_iff.2 ⟨fun _ => rfl, List.forall_mem_cons.2 ⟨Element.unguarded_of_scalar rfl,
      List.forall_mem_cons.2 ⟨Element.unguarded_of_scalar rfl, List.forall_mem_singleton.2 hentries⟩⟩⟩
  have hmode : (Element.string {} { validValues := ["fast"] }).Relaxes
      (.string { required := false } { validValues := ["slow", "fast"] }) :=
    .string ⟨id, fun _ => rfl, List.forall_mem_nil _⟩ (by simp [StringRules.Relaxes])
  have hport : (Element.number { validators := [⟨"known", "known"⟩] }
      { minValue := some (.whole 1), maxValue := some (.whole 9) }).Relaxes
      (.number {} { minValue := some (.whole 0) }) := by
    refine .number ⟨id, id, List.forall_mem_nil _⟩ ⟨?_, ?_⟩ <;> simp [Number.AtMost, Number.value?]
  have hlist : (Element.array {} [(.number, .number {} {})] [] false).Relaxes
      (.array {} [(.string, .string {} {}), (.number, .number { nullable := true } {})] [] true) := by
    refine .typed ⟨id, id, List.forall_mem_nil _⟩ (List.cons_ne_nil _ _) (by decide)
      (fun slot hm slot' hm' hkey => ?_) fun _ => rfl
    simp only [List.mem_cons, List.not_mem_nil, or_false] at hm hm'
    obtain ⟨rfl, rfl | rfl⟩ := And.intro hm hm'
    · cases hkey
    · exact .number ⟨fun _ => rfl, id, List.forall_mem_nil _⟩ (.refl none none)
  have hrelaxes : root.Relaxes root' := by
    refine .object ⟨id, id, List.forall_mem_nil _⟩ (by decide) fun child hm child' hm' hkey => ?_
    simp only [List.mem_cons, List.not_mem_nil, or_false] at hm hm'
    obtain ⟨rfl | rfl | rfl | rfl, rfl | rfl | rfl⟩ := And.intro hm hm' <;>
      first | exact hmode | exact hport | exact hlist | exact absurd hkey (by decide)
  have haccepted : (s.run root document).outcome = .ok [] := by
    unfold s root document
    rfl
  exact ⟨himpartial, hunguarded, hrelaxes, haccepted, outcome_run_of_relaxes himpartial hunguarded hrelaxes _ haccepted⟩

end Setting
end ConfigSchema
