import ConfigSchema.Proofs.Consistent
/-!
# Assembled — what the calls on a builder add up to

The calls that a builder accepts begin with the choice of a kind, and each of the others gives a field of the element a new
value, or adds to what is there.  So the element that is built is the one that the constructor of the kind makes of the
fields as the accepted calls leave them (`build_after`): the last value where a call sets one, everything that was brought
where calls add to a list, and the children and slots in the order in which their keys first came.
-/
namespace ConfigSchema
namespace Builder

/-! ## What calls add up to

Each field of an element is read off the calls that can give it a value, or bring more for it. -/

namespace Call

@[simp] def kind? : Call → Option Kind
  | .ofType kind => some kind
  | _ => none

@[simp] def name? : Call → Option String
  | .name text => some text
  | _ => none

@[simp] def isNullable : Call → Bool
  | .nullable => true
  | _ => false

@[simp] def isOptional : Call → Bool
  | .optional => true
  | _ => false

@[simp] def newValidators : Call → List Validator
  | .validators more => more
  | _ => []

@[simp] def default? : Call → Option (Option Scalar)
  | .defaultValue default => some default
  | _ => none

@[simp] def minLength? : Call → Option (Option Number)
  | .minLength bound => some bound
  | _ => none

@[simp] def maxLength? : Call → Option (Option Number)
  | .maxLength bound => some bound
  | _ => none

@[simp] def newValues : Call → List String
  | .validValues more => more
  | _ => []

@[simp] def minValue? : Call → Option (Option Number)
  | .minValue bound => some bound
  | _ => none

@[simp] def maxValue? : Call → Option (Option Number)
  | .maxValue bound => some bound
  | _ => none

/-- The children that a call brings, each under its name. -/
@[simp] def newChildren : Call → List (String × Element)
  | .children more => byName more
  | _ => []

/-- The slot that a call sets, with the bare element of its kind if the call brings none. -/
@[simp] def slot? : Call → Option (Kind × Element)
  | .slot label element => (Kind.ofLabel? label).map fun kind => (kind, element.getD (.bare kind))
  | _ => none

@[simp] def ordered? : Call → Option (List Element)
  | .ordered elements => some elements
  | _ => none

@[simp] def isAllowNull : Call → Bool
  | .allowNullEntries => true
  | _ => false

end Call

/-- The last value that calls give to a field. -/
def last? {α : Type} (field : Call → Option α) (calls : List Call) : Option α := (calls.filterMap field).getLast?

def traitsOf (calls : List Call) : Traits where
  name := last? Call.name? calls
  required := !calls.any Call.isOptional
  nullable := calls.any Call.isNullable
  validators := calls.flatMap Call.newValidators

def defaultOf (calls : List Call) : Option Scalar := (last? Call.default? calls).join

def stringRulesOf (calls : List Call) : StringRules where
  minLength := (last? Call.minLength? calls).join
  maxLength := (last? Call.maxLength? calls).join
  validValues := calls.flatMap Call.newValues
  default := defaultOf calls

def numberRulesOf (calls : List Call) : NumberRules where
  minValue := (last? Call.minValue? calls).join
  maxValue := (last? Call.maxValue? calls).join
  default := defaultOf calls

/-- The children in the order in which their names first came, each as it was brought last. -/
def childrenOf (calls : List Call) : List (String × Element) := Assoc.ofPairs (· == ·) (calls.flatMap Call.newChildren)

def slotsOf (calls : List Call) : List (Kind × Element) := Assoc.ofPairs (· == ·) (calls.filterMap Call.slot?)

def orderedOf (calls : List Call) : List Element := (last? Call.ordered? calls).getD []

/-- The constructor of a kind, given the fields as calls leave them. -/
def construct (calls : List Call) : Kind → Except SchemaError Element
  | .object => Element.object? (traitsOf calls) (childrenOf calls)
  | .array => Element.array? (traitsOf calls) ((slotsOf calls).map fun slot => (slot.1.label, slot.2)) (orderedOf calls)
      (calls.any Call.isAllowNull)
  | .string => .ok (.string (traitsOf calls) (stringRulesOf calls))
  | .number => .ok (.number (traitsOf calls) (numberRulesOf calls))
  | .boolean => .ok (.boolean (traitsOf calls) (defaultOf calls))

/-- The element with the fields as calls leave them, unchecked. -/
def assembled (calls : List Call) : Kind → Element
  | .object => .object (traitsOf calls) (childrenOf calls)
  | .array => .array (traitsOf calls) (slotsOf calls) (orderedOf calls) (calls.any Call.isAllowNull)
  | .string => .string (traitsOf calls) (stringRulesOf calls)
  | .number => .number (traitsOf calls) (numberRulesOf calls)
  | .boolean => .boolean (traitsOf calls) (defaultOf calls)

/-- The calls that are accepted, when they are made in turn. -/
def accepted (b : Builder) : List Call → List Call
  | [] => []
  | call :: rest =>
    match b.apply call with
    | .ok b' => call :: accepted b' rest
    | .error _ => accepted b rest

/-! ## One call more -/

section Snoc

variable (calls : List Call) (call : Call)

@[simp] theorem last?_snoc {α : Type} (field : Call → Option α) :
    last? field (calls ++ [call]) = (field call).or (last? field calls) := by
  rw [last?, last?, List.filterMap_append]
  cases h : field call <;> simp [h]

@[simp] theorem childrenOf_snoc : childrenOf (calls ++ [call]) =
    call.newChildren.foldl (fun l p => Assoc.put (· == ·) p.1 p.2 l) (childrenOf calls) := by
  rw [childrenOf, childrenOf, Assoc.ofPairs, Assoc.ofPairs, List.flatMap_append, List.foldl_append,
    List.flatMap_singleton]

@[simp] theorem slotsOf_snoc : slotsOf (calls ++ [call]) =
    call.slot?.elim (slotsOf calls) fun slot => Assoc.put (· == ·) slot.1 slot.2 (slotsOf calls) := by
  rw [slotsOf, slotsOf, Assoc.ofPairs, Assoc.ofPairs, List.filterMap_append, List.foldl_append,
    List.filterMap_cons]
  cases call.slot? <;> rfl

end Snoc

/-- **A call gives a field of the element another value or adds to it**, and chooses no kind. -/
theorem change_assembled {calls : List Call} {kind : Kind} {call : Call} {e : Element}
    (h : (⟨some (assembled calls kind)⟩ : Builder).change call = .ok e) :
    call.kind? = none ∧ e = assembled (calls ++ [call]) kind := by
  cases call with
  | ofType => cases h
  | name | nullable | optional | validators =>
    cases h
    cases kind <;>
      simp [assembled, traitsOf, stringRulesOf, numberRulesOf, defaultOf, orderedOf, Element.withTraits,
        Element.traits, Element.validators]
  | defaultValue default =>
    cases kind <;> cases h <;>
      simp [assembled, traitsOf, stringRulesOf, numberRulesOf, defaultOf]
  -- from here on a call is meant for one kind, and the other kinds are refused
  | minLength | maxLength | validValues =>
    cases kind <;> cases h
    simp [assembled, traitsOf, stringRulesOf, defaultOf]
  | minValue | maxValue =>
    cases kind <;> cases h
    simp [assembled, traitsOf, numberRulesOf, defaultOf]
  | children more =>
    obtain ⟨p, hp, h⟩ := of_bind_eq_ok h
    obtain ⟨children, hput, rfl⟩ := of_map_eq_ok h
    cases kind <;> cases hp
    simp [assembled, traitsOf, eq_of_putChildren hput]
  | slot label element =>
    simp only [change] at h
    split at h
    · cases h
    · rename_i slot hparse
      obtain ⟨parts, hparts, h⟩ := of_bind_eq_ok h
      have hslot : Kind.ofLabel? label = some slot := by
        rw [← Element.label_of_parse hparse, Kind.ofLabel?_label]
      cases kind <;> cases hparts
      simp only [withSlot] at h
      split at h
      · cases h
      · split at h
        · cases h
        · cases h
          simp [assembled, traitsOf, orderedOf, ArrayParts.toElement, hslot]
  | ordered elements =>
    obtain ⟨parts, hparts, h⟩ := of_bind_eq_ok h
    cases kind <;> cases hparts
    split at h
    · cases h
    · cases h
      simp [assembled, traitsOf, orderedOf, ArrayParts.toElement]
  | allowNullEntries =>
    cases kind <;> cases h
    simp [assembled, traitsOf, orderedOf, ArrayParts.toElement]

/-! ## Runs of calls -/

theorem accepted_snoc (call : Call) : ∀ (calls : List Call) (b : Builder), b.accepted (calls ++ [call]) =
    b.accepted calls ++ (match (calls.foldl step b).apply call with | .ok _ => [call] | .error _ => [])
  | [], b => by
    rw [List.nil_append, List.foldl_nil, accepted, accepted, List.nil_append]
    cases b.apply call <;> rfl
  | first :: rest, b => by
    rw [List.cons_append, List.foldl_cons, accepted, accepted, step]
    cases b.apply first with
    | error refusal => exact accepted_snoc call rest b
    | ok b' => exact congrArg (first :: ·) (accepted_snoc call rest b')

theorem assembled_ofType (kind : Kind) : assembled [.ofType kind] kind = .bare kind := by
  cases kind <;> rfl

theorem construct_eq (calls : List Call) (kind : Kind) : construct calls kind = (assembled calls kind).checked := by
  cases kind <;> rfl

/-- What a builder holds when it has accepted some calls: nothing if there are none, and else what they add up to, of the
kind that the first of them chose. -/
inductive Holding : List Call → Builder → Prop where
  | nothing : Holding [] {}
  | element (kind : Kind) {rest : List Call} (once : ∀ other, Call.ofType other ∉ rest) :
      Holding (.ofType kind :: rest) ⟨some (assembled (.ofType kind :: rest) kind)⟩

/-- **One call more that is accepted** is the choice of the kind, or adds to what the builder holds. -/
theorem Holding.apply {taken : List Call} {b b' : Builder} {call : Call} (h : Holding taken b)
    (happly : b.apply call = .ok b') : Holding (taken ++ [call]) b' := by
  obtain ⟨e, hchange, -, rfl⟩ := of_apply_eq_ok happly
  cases h with
  | nothing =>
    cases call with
    | ofType kind =>
      cases hchange
      rw [← assembled_ofType kind]
      exact .element kind fun _ => List.not_mem_nil
    | slot label element =>
      simp only [change] at hchange
      split at hchange <;> cases hchange
    | _ => cases hchange
  | @element kind rest once =>
    obtain ⟨hkind, rfl⟩ := change_assembled hchange
    refine .element kind fun other hm => ?_
    rcases List.mem_append.1 hm with hm | hm
    · exact once other hm
    · rw [← List.mem_singleton.1 hm] at hkind
      cases hkind

theorem holding_after (calls : List Call) : Holding (({} : Builder).accepted calls) (after calls) := by
  induction calls using List.reverseRecOn with
  | nil => exact .nothing
  | append_singleton calls call ih =>
    rw [after_snoc, accepted_snoc, ← after, step]
    cases ha : (after calls).apply call with
    | error refusal => simpa only [List.append_nil] using ih
    | ok b => exact ih.apply ha

/-- **The first choice of a kind is accepted**, and no later one is. -/
theorem kinds_accepted (calls : List Call) :
    ((({} : Builder).accepted calls).filterMap Call.kind?).head? = (calls.filterMap Call.kind?).head? := by
  induction calls using List.reverseRecOn with
  | nil => rfl
  | append_singleton calls call ih =>
    rw [accepted_snoc, ← after, List.filterMap_append, List.filterMap_append, List.head?_append, List.head?_append,
      ← ih]
    cases ha : (after calls).apply call with
    | ok b => rfl
    | error refusal =>
      cases call with
      | ofType kind =>
        have hholding := holding_after calls
        generalize ({} : Builder).accepted calls = taken, after calls = b at hholding ha ⊢
        -- only a builder that holds something refuses the choice
        cases hholding with
        | nothing => cases kind <;> cases ha
        | element other once => rfl
      | _ => rfl

/-- **A builder builds what the constructor makes of the accepted calls.**  If none of them chooses a kind then there are
none, and there is nothing to build.  Otherwise the first of them is the only choice of a kind, and what the constructor
of this kind makes of the fields that they add up to is what is built.  The kind is the one that was chosen first. -/
theorem build_after (calls : List Call) :
    let taken := ({} : Builder).accepted calls
    ((∀ kind, Call.ofType kind ∉ taken) → taken = [] ∧ (after calls).build = .error .undetermined) ∧
      (∀ kind, Call.ofType kind ∈ taken → ∃ rest e, taken = .ofType kind :: rest ∧
        (∀ other, Call.ofType other ∉ rest) ∧ construct taken kind = .ok e ∧ (after calls).build = .ok e) ∧
      ∀ kind, Call.ofType kind ∈ taken ↔ (calls.filterMap Call.kind?).head? = some kind := by
  have hconsistent := forall_after Makes.consistent calls
  have hholding := holding_after calls
  rw [← kinds_accepted calls]
  generalize ({} : Builder).accepted calls = taken, after calls = b at hconsistent hholding ⊢
  cases hholding with
  | nothing => exact ⟨fun _ => ⟨rfl, rfl⟩, fun _ => nofun, fun _ => iff_of_false nofun nofun⟩
  | @element kind rest once =>
    refine ⟨fun h => absurd List.mem_cons_self (h kind), fun other hm => ?_, fun other => ?_⟩
    · rcases List.mem_cons.1 hm with h | hm
      · cases h
        refine ⟨rest, _, rfl, once, ?_, rfl⟩
        rw [construct_eq]
        exact Element.checked_eq_ok_iff.2 ⟨hconsistent _ rfl, rfl⟩
      · exact absurd hm (once other)
    · simp [once, eq_comm]

/-- A slot is set again and keeps its place, and what comes too early or does not fit an array with slots is passed over. -/
theorem build_after_slots :
    let number : Element := .number {} { minValue := some (.whole 1) }
    let calls : List Call := [.nullable, .ofType .array, .slot "number" none, .slot "string" none, .ofType .object,
      .slot "number" (some number), .maxLength none, .ordered [number], .slot "null" none, .optional]
    ∃ rest e, ({} : Builder).accepted calls = .ofType .array :: rest ∧ (∀ other, Call.ofType other ∉ rest) ∧
      construct (({} : Builder).accepted calls) .array = .ok e ∧ (after calls).build = .ok e ∧
      e = .array { required := false } [(.number, number), (.string, .string {} {})] [] false := by
  intro number calls
  have htaken : ({} : Builder).accepted calls = [.ofType .array, .slot "number" none, .slot "string" none,
      .slot "number" (some number), .optional] := rfl
  obtain ⟨rest, e, hrest, once, hconstruct, hbuild⟩ := (build_after calls).2.1 .array (htaken ▸ List.mem_cons_self)
  exact ⟨rest, e, hrest, once, hconstruct, hbuild, Except.ok.inj (hbuild.symm.trans rfl)⟩

end Builder
end ConfigSchema
