import ConfigSchema.Proofs.Scheduled
/-!
# Seen — what a memory shows of a value

A value is seen as its objects with the keys that are left in them.  What is seen depends on nothing outside the value
(`view_congr`), and a value from which nothing was deleted is seen as it was.  Keys that go from one object in the memory
go from what is seen of the document, wherever in the document the object stands (`view_without`).
-/
namespace ConfigSchema
namespace InPlace

open scoped List

namespace Memory

variable {memory memory' : Memory} {place : Place}

/-- A field with what is left of its value. -/
def look (memory : Memory) (place : Place) (field : Key × Value) : Key × Value :=
  (field.1, memory.view (place ++ [Step.field field.1]) field.2)

theorem viewFields_eq (memory : Memory) (place : Place) : ∀ fields,
    memory.viewFields place fields = (fields.map (memory.look place)).filter (·.1 ∈ memory place)
  | [] => by rw [viewFields, List.map_nil, List.filter_nil]
  | (key, v) :: rest => by
    rw [viewFields, viewFields_eq memory place rest, List.map_cons, List.filter_cons]
    by_cases h : key ∈ memory place <;> simp [look, h]

theorem viewEntries_eq (memory : Memory) (place : Place) : ∀ (index : Nat) (entries : List Value),
    memory.viewEntries place index entries =
      (entries.zipIdx index).map fun entry => memory.view (place ++ [Step.entry entry.2]) entry.1
  | _, [] => by rw [viewEntries, List.zipIdx_nil, List.map_nil]
  | index, v :: rest => by
    rw [viewEntries, viewEntries_eq memory place (index + 1) rest, List.zipIdx_cons, List.map_cons]

theorem view_object (memory : Memory) (place : Place) (fields : List (Key × Value)) :
    memory.view place (.object fields) = .object ((fields.map (memory.look place)).filter (·.1 ∈ memory place)) := by
  rw [view, viewFields_eq]

theorem view_array (memory : Memory) (place : Place) (shape : ArrayShape) (entries : List Value) :
    memory.view place (.array shape entries) =
      .array shape (entries.zipIdx.map fun entry => memory.view (place ++ [Step.entry entry.2]) entry.1) := by
  rw [view, viewEntries_eq]

theorem view_scalar (memory : Memory) (place : Place) {v : Value} (h : v.isScalar = true) : memory.view place v = v := by
  cases v with
  | null | array | object => cases h
  | boolean | number | string | foreign => rfl

/-- What is seen of a value depends on nothing outside it. -/
theorem view_congr {v : Value} (h : ∀ p ∈ within place, memory' p = memory p) :
    memory'.view place v = memory.view place v := by
  induction v using Value.induct generalizing place with
  | null => rfl
  | scalar v hv => rw [view_scalar _ _ hv, view_scalar _ _ hv]
  | array shape entries ih =>
    rw [view_array, view_array]
    refine congrArg _ (List.map_congr_left fun entry hentry => ?_)
    exact ih _ (List.mem_of_getElem? (List.mem_zipIdx_iff_getElem?.1 hentry)) fun p hp => h p (within_mono place _ hp)
  | object fields ih =>
    have hlook : fields.map (memory'.look place) = fields.map (memory.look place) :=
      List.map_congr_left fun field hf => Prod.ext rfl (ih field hf fun p hp => h p (within_mono place _ hp))
    rw [view_object, view_object, hlook, h place List.prefix_rfl]

/-- A value from which nothing was deleted is seen as it was. -/
theorem view_of_intact {v : Value} (hu : v.Unrepeated) (h : Intact memory place v) : memory.view place v = v := by
  induction v using Value.induct generalizing place with
  | null => rfl
  | scalar v hv => exact view_scalar _ _ hv
  | array shape entries ih =>
    have heach : (entries.zipIdx.map fun entry => memory.view (place ++ [Step.entry entry.2]) entry.1) =
        entries.zipIdx.map Prod.fst := List.map_congr_left fun entry hentry => by
      have hget := List.mem_zipIdx_iff_getElem?.1 hentry
      have hmem := List.mem_of_getElem? hget
      exact ih _ hmem (hu.of_array _ hmem) (h.entry hget)
    rw [view_array, heach, List.zipIdx_map_fst]
  | object fields ih =>
    obtain ⟨hn, hu⟩ := hu.of_object
    have heach : fields.map (memory.look place) = fields := by
      conv_rhs => rw [← List.map_id fields]
      exact List.map_congr_left fun field hf => Prod.ext rfl (ih field hf (hu field hf) (h.field hn hf))
    have hkept : fields.filter (·.1 ∈ memory place) = fields :=
      List.filter_eq_self.2 fun field hf => decide_eq_true (h.keys ▸ List.mem_map_of_mem hf)
    rw [view_object, heach, hkept]

/-! ## Keys that go from one object -/

theorem without_self (memory : Memory) (r : Removal) : memory.without r r.place = (memory r.place).diff r.keys :=
  Function.update_self ..

theorem without_of_ne (memory : Memory) {r : Removal} {p : Place} (h : p ≠ r.place) : memory.without r p = memory p :=
  Function.update_of_ne h ..

theorem without_sublist (memory : Memory) (r : Removal) (p : Place) : memory.without r p <+ memory p := by
  by_cases hp : p = r.place
  · rw [hp, without_self]
    exact List.diff_sublist ..
  · rw [without_of_ne memory hp]

/-- What stands apart from the object is seen as before. -/
theorem view_without_of_notMem {r : Removal} (h : r.place ∉ within place) (v : Value) :
    (memory.without r).view place v = memory.view place v :=
  view_congr fun _ hp => without_of_ne memory fun he => h (he ▸ hp)

theorem view_without_here (keys : List Key) (hn : (memory place).Nodup) (v : Value) :
    (memory.without ⟨place, keys⟩).view place v = (memory.view place v).without keys := by
  have hinside : ∀ step u, (memory.without ⟨place, keys⟩).view (place ++ [step]) u = memory.view (place ++ [step]) u :=
    fun step u => view_without_of_notMem (fun hp => ne_of_mem_within hp rfl) u
  cases v with
  | null | boolean | number | string | foreign => rfl
  | array shape entries =>
    rw [view_array, view_array]
    simp only [hinside, Value.without]
  | object fields =>
    have hlook : (memory.without ⟨place, keys⟩).look place = memory.look place :=
      funext fun field => Prod.ext rfl (hinside _ _)
    rw [view_object, view_object, hlook, Value.without, List.filter_filter, without_self memory ⟨place, keys⟩]
    refine congrArg Value.object (List.filter_congr fun field _ => ?_)
    rw [Bool.eq_iff_iff]
    simp [hn.mem_sdiff_iff, and_comm]

section Step

variable {step : Step} {rest : Place} {f : Value → Value}

/-- An array in which only what is seen one step inside has changed, along the rest of the place. -/
theorem view_array_step (hother : ∀ step' ≠ step, ∀ u, memory'.view (place ++ [step']) u = memory.view (place ++ [step']) u)
    (hstep : ∀ u, memory'.view (place ++ [step]) u = (memory.view (place ++ [step]) u).alter f rest)
    (shape : ArrayShape) (entries : List Value) :
    memory'.view place (.array shape entries) = (memory.view place (.array shape entries)).alter f (step :: rest) := by
  rw [view_array, view_array]
  cases step with
  | field key =>
    -- an array has no fields, so the step leads nowhere
    exact congrArg (Value.array shape) (List.map_congr_left fun entry _ =>
      hother (.entry entry.2) (fun h => by cases h) entry.1)
  | entry index =>
    rw [Value.alter]
    refine congrArg _ (List.ext_getElem? fun i => ?_)
    rw [List.getElem?_modify, List.getElem?_map, List.getElem?_map, List.getElem?_zipIdx]
    cases entries[i]? with
    | none => rfl
    | some u =>
      by_cases hi : index = i
      · subst hi
        simpa using hstep u
      · simpa [hi] using hother (.entry i) (fun h => hi (Step.entry.inj h).symm) u

/-- An object in which only what is seen one step inside has changed, along the rest of the place. -/
theorem view_object_step (hkeys : memory' place = memory place)
    (hother : ∀ step' ≠ step, ∀ u, memory'.view (place ++ [step']) u = memory.view (place ++ [step']) u)
    (hstep : ∀ u, memory'.view (place ++ [step]) u = (memory.view (place ++ [step]) u).alter f rest)
    (fields : List (Key × Value)) :
    memory'.view place (.object fields) = (memory.view place (.object fields)).alter f (step :: rest) := by
  rw [view_object, view_object, hkeys]
  cases step with
  | field key =>
    rw [Value.alter]
    -- the fields keep their keys, so it does not matter which ones are seen first
    have hkept : ((fun field : Key × Value => decide (field.1 ∈ memory place)) ∘ fun field =>
        if field.1 = key then (field.1, Value.alter f rest field.2) else field) =
          fun field => decide (field.1 ∈ memory place) := funext fun field => by
      simp only [Function.comp_def]
      split <;> rfl
    conv_rhs => rw [← hkept, ← List.filter_map, List.map_map]
    refine congrArg (fun l => Value.object (List.filter _ l)) (List.map_congr_left fun field _ => ?_)
    by_cases hk : field.1 = key
    · subst hk
      simpa [look] using hstep field.2
    · simpa [look, hk] using hother (.field field.1) (fun h => hk (Step.field.inj h)) field.2
  | entry index =>
    -- an object has no entries
    exact congrArg (fun l => Value.object (List.filter _ l)) (List.map_congr_left fun field _ =>
      Prod.ext rfl (hother (.field field.1) (fun h => by cases h) field.2))

end Step

/-- **Keys that go from the memory of one object go from what is seen of the value around it.** -/
theorem view_without (keys : List Key) : ∀ (rest place : Place) (v : Value), (memory (place ++ rest)).Nodup →
    (memory.without ⟨place ++ rest, keys⟩).view place v = (memory.view place v).alter (.without keys) rest
  | [], place, v, hn => by
    rw [List.append_nil] at hn ⊢
    exact view_without_here keys hn v
  | step :: rest, place, v, hn => by
    have hplace : place ++ step :: rest = place ++ [step] ++ rest := List.append_cons ..
    rw [hplace] at hn ⊢
    have hhere : place ++ [step] ++ rest ∈ within (place ++ [step]) := List.prefix_append ..
    have hother : ∀ step' ≠ step, ∀ u, (memory.without ⟨place ++ [step] ++ rest, keys⟩).view (place ++ [step']) u =
        memory.view (place ++ [step']) u := fun step' hne u =>
      view_without_of_notMem ((apart_within place hne).symm _ hhere) u
    have hstep := fun u => view_without keys rest (place ++ [step]) u hn
    cases v with
    | null | boolean | number | string | foreign => cases step <;> rfl
    | array shape entries => exact view_array_step hother hstep shape entries
    | object fields =>
      exact view_object_step (without_of_ne memory (ne_of_mem_within hhere).symm) hother hstep fields

/-- **Notes that are carried out in the memory are carried out on what is seen of the document.** -/
theorem view_withoutAll (v : Value) : ∀ (notes : List Removal) (memory : Memory), (∀ p, (memory p).Nodup) →
    (notes.foldl without memory).view [] v = Removal.carryOutAll notes (memory.view [] v)
  | [], _, _ => rfl
  | r :: notes, memory, hn => by
    have hone : (memory.without r).view [] v = r.carryOut (memory.view [] v) := view_without r.keys r.place [] v (hn _)
    rw [List.foldl_cons, Removal.carryOutAll_cons, ← hone]
    exact view_withoutAll v notes _ fun p => (hn p).sublist (without_sublist memory r p)

end Memory

end InPlace
end ConfigSchema
