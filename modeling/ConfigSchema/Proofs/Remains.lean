import ConfigSchema.Proofs.Descent
import ConfigSchema.Proofs.Runs
import ConfigSchema.Proofs.Shuffled
/-!
# Remains — nothing comes into a document

What a run leaves of a document remains of it: fields may be gone from objects, at any depth, and that is all
(`remains_run`).  So no field is filled in that was not there, whatever its schema has for a default, and no value is replaced
by another one.
-/
namespace ConfigSchema

namespace Value

/-- The first value is what remains of the second after fields were taken out of objects. -/
inductive RemainsOf : Value → Value → Prop
  | null : RemainsOf .null .null
  | scalar {v : Value} (h : v.isScalar = true) : RemainsOf v v
  | array {shape : ArrayShape} {left entries : List Value} (each : List.Forall₂ RemainsOf left entries) :
    RemainsOf (.array shape left) (.array shape entries)
  | object {left kept fields : List (Key × Value)} (sub : kept.Sublist fields) (keys : left.map Prod.fst = kept.map Prod.fst)
    (each : List.Forall₂ RemainsOf (left.map Prod.snd) (kept.map Prod.snd)) : RemainsOf (.object left) (.object fields)

variable {u v : Value} {left fields : List (Key × Value)}

theorem remainsOf_object : (Value.object left).RemainsOf (.object fields) ↔
    ∃ kept, kept.Sublist fields ∧ List.Forall₂ (Assoc.Match RemainsOf) left kept := by
  constructor
  · intro h
    cases h with
    | scalar h => cases h
    | object sub keys each => exact ⟨_, sub, Assoc.forall₂_match_iff.2 ⟨keys, each⟩⟩
  · rintro ⟨kept, hsub, heach⟩
    obtain ⟨keys, each⟩ := Assoc.forall₂_match_iff.1 heach
    exact .object hsub keys each

theorem RemainsOf.refl (v : Value) : v.RemainsOf v := by
  induction v using Value.induct with
  | null => exact .null
  | scalar v h => exact .scalar h
  | array shape entries ih => exact .array (List.forall₂_same.2 ih)
  | object fields ih =>
    exact remainsOf_object.2 ⟨fields, .refl _, List.forall₂_same.2 fun field hf => ⟨rfl, ih field hf⟩⟩

/-- Fields may be taken out by their keys. -/
theorem RemainsOf.filter (h : (Value.object left).RemainsOf (.object fields)) (p : Key → Bool) :
    (Value.object (left.filter fun field => p field.1)).RemainsOf (.object fields) := by
  obtain ⟨kept, hsub, heach⟩ := remainsOf_object.1 h
  refine remainsOf_object.2 ⟨kept.filter fun field => p field.1, List.filter_sublist.trans hsub, ?_⟩
  exact forall₂_filter heach fun a _ b hab => by rw [hab.key]

theorem RemainsOf.without (h : u.RemainsOf v) (keys : List Key) : (u.without keys).RemainsOf v := by
  cases h with
  | null => exact .null
  | scalar h => cases u <;> first | exact .scalar rfl | cases h
  | array each => exact .array each
  | object sub hkeys each => exact (RemainsOf.object sub hkeys each).filter fun key => !keys.contains key

/-- A change of a part that takes fields out of it takes fields out of the whole. -/
theorem RemainsOf.alter {f : Value → Value} (hf : ∀ {u v : Value}, u.RemainsOf v → (f u).RemainsOf v) : ∀ (place : Place)
    {u v : Value}, u.RemainsOf v → (u.alter f place).RemainsOf v
  | [], _, _, h => by
    rw [Value.alter]
    exact hf h
  | step :: place, u, v, h => by
    cases h with
    | null => cases step <;> exact .null
    | scalar h => cases step <;> cases u <;> first | exact .scalar rfl | cases h
    | @array shape left entries each =>
      cases step with
      | field key => exact .array each
      | entry index =>
        rw [Value.alter]
        refine .array (List.forall₂_iff_get.2 ⟨by rw [List.length_modify, each.length_eq], fun i hi hi' => ?_⟩)
        rw [List.length_modify] at hi
        have hpart := (List.forall₂_iff_get.1 each).2 i hi hi'
        simp only [List.get_eq_getElem, List.getElem_modify] at hpart ⊢
        split
        · exact alter hf place hpart
        · exact hpart
    | @object left kept fields sub keys each =>
      cases step with
      | entry index => exact .object sub keys each
      | field key =>
        rw [Value.alter]
        refine remainsOf_object.2 ⟨kept, sub, ?_⟩
        have hmap := forall₂_map (Assoc.forall₂_match_iff.2 ⟨keys, each⟩) (q := Assoc.Match RemainsOf)
          (f := fun field => if field.1 = key then (field.1, field.2.alter f place) else field) (g := id)
          fun a _ b hab => by
            split
            · exact ⟨hab.key, alter hf place hab.value⟩
            · exact hab
        rwa [List.map_id] at hmap

theorem RemainsOf.carryOutAll : ∀ (notes : List Removal) {u : Value}, u.RemainsOf v →
    (Removal.carryOutAll notes u).RemainsOf v
  | [], _, h => h
  | r :: rs, _, h => RemainsOf.carryOutAll rs (h.alter (fun hu => hu.without r.keys) r.place)

end Value

namespace Walk

variable {α : Type} {r : α → α → Prop} {f : Nat → α → Walk α}

/-- What a walk of a list leaves is related part by part to the list, if that is so of every part, walked or not. -/
theorem forall₂_left_each (hr : ∀ a, r a a) : ∀ {index : Nat} {parts : List α}, (∀ i, ∀ a ∈ parts, r (f i a).left a) →
    List.Forall₂ r (each f index parts).left parts
  | _, [], _ => .nil
  | index, a :: rest, h => by
    have ha := h index a List.mem_cons_self
    rw [each, cons]
    split
    · exact .cons ha (List.forall₂_same.2 fun b _ => hr b)
    · exact .cons ha (forall₂_left_each hr fun i b hb => h i b (List.mem_cons_of_mem a hb))

end Walk

namespace Setting

variable {s : Setting}

theorem remains_walkObject (path : Pointer) (e : Element) (children : List (String × Element)) {fields : List (Key × Value)}
    {inside : Walk (List (Key × Value))} (h : List.Forall₂ (Assoc.Match Value.RemainsOf) inside.left fields) :
    (s.walkObject path e children fields inside).left.RemainsOf (.object fields) := by
  rw [walkObject, Walk.after]
  have hinside : (Value.object inside.left).RemainsOf (.object fields) := Value.remainsOf_object.2 ⟨fields, .refl _, h⟩
  split
  · exact (Value.RemainsOf.refl _).filter fun key => !s.options.drops key
  · exact hinside.filter fun key => !s.options.drops key

/-- **What a walk leaves of a value remains of it**, however the walk ends. -/
theorem remains_walk (e : Element) (v : Value) : ∀ path, (s.walk path e v).left.RemainsOf v := by
  induction e, v using Element.induct with
  | null e =>
    intro path
    rw [walk_null]
    exact .null
  | wrong e v hv ha =>
    intro path
    rw [walk_wrong s path hv ha]
    exact .refl v
  | scalar e v hv ha =>
    intro path
    rw [walk_scalar s path hv ha]
    exact .scalar hv
  | object traits children fields ih =>
    intro path
    rw [walk_object]
    refine remains_walkObject path _ children (Walk.forall₂_left_each (fun _ => ⟨rfl, .refl _⟩) fun _ field hf => ?_)
    unfold walkField
    cases Element.governing? children field.1 with
    | none => exact ⟨rfl, .refl _⟩
    | some child => exact ⟨rfl, ih field hf child _⟩
  | array traits slots ordered allowNull shape entries ih =>
    intro path
    by_cases hl : ordered = [] ∨ ordered.length = entries.length
    · rw [walk_array s path traits slots allowNull shape hl, left_walkArray]
      refine .array ?_
      unfold walkContents
      cases ArrayMode.ofContents slots ordered with
      | any => exact List.forall₂_same.2 fun v _ => .refl v
      | typed | ordered =>
        refine Walk.forall₂_left_each .refl fun i v hv => ?_
        unfold walkEntry
        cases Element.entryDemand slots ordered allowNull i v with
        | nothing | refused => exact .refl v
        | governed e => exact ih v hv e _
    · rw [walk_array_of_length_ne s path traits slots allowNull shape hl]
      exact .refl _

theorem remains_walkRoot (root : Element) (document : Value) : (s.walkRoot root document).left.RemainsOf document := by
  cases ha : root.admits document with
  | false =>
    obtain ⟨fault, hw⟩ := s.walkRoot_of_not_admits root document ha
    rw [hw]
    exact .refl document
  | true =>
    rw [s.walkRoot_of_admits root document ha]
    exact remains_walk root document .root

/-- **What a run leaves of its document remains of it**: nothing comes in, and nothing but fields goes. -/
theorem remains_run (root : Element) (document : Value) : (s.run root document).document.RemainsOf document := by
  have hwalk := s.remains_walkRoot root document
  cases hh : (s.walkRoot root document).trail.halt with
  | some halt =>
    rw [run_of_some s root document hh]
    exact hwalk
  | none =>
    rw [document_run_of_none s root document hh]
    split
    · exact hwalk.carryOutAll _
    · exact hwalk

end Setting
end ConfigSchema
