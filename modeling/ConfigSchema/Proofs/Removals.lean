import ConfigSchema.Validation.Removal
/-!
# Removals — notes carried out part by part

Notes that all lead inside a value are carried out on each of its parts by itself: a part sees the notes whose first step
leads to it, without that step (`carryOutAll_object`, `carryOutAll_array`).  Notes that were gathered from parts come apart
again into what each part gave (`below_gather`).
-/
namespace ConfigSchema
namespace Removal

/-- The notes that lead through a step, as they are seen from behind it. -/
def below (step : Step) (rs : List Removal) : List Removal :=
  rs.filterMap fun r => match r.place with
    | [] => none
    | first :: place => if first = step then some ⟨place, r.keys⟩ else none

@[simp] theorem carryOutAll_nil (v : Value) : carryOutAll [] v = v := rfl

theorem carryOutAll_cons (r : Removal) (rs : List Removal) (v : Value) :
    carryOutAll (r :: rs) v = carryOutAll rs (r.carryOut v) := List.foldl_cons ..

theorem carryOutAll_append (rs rs' : List Removal) (v : Value) :
    carryOutAll (rs ++ rs') v = carryOutAll rs' (carryOutAll rs v) := List.foldl_append ..

/-- **Notes that lead inside an object are carried out field by field.** -/
theorem carryOutAll_object : ∀ (rs : List Removal), (∀ r ∈ rs, r.place ≠ []) → ∀ (fields : List (Key × Value)),
    carryOutAll rs (.object fields) =
      .object (fields.map fun field => (field.1, carryOutAll (below (.field field.1) rs) field.2))
  | [], _, fields => by simp [below]
  | ⟨[], keys⟩ :: rs, h, fields => absurd rfl (h _ List.mem_cons_self)
  | ⟨.entry index :: place, keys⟩ :: rs, h, fields => by
    -- an object has no entries, so the note leads nowhere
    show carryOutAll rs (.object fields) = _
    rw [carryOutAll_object rs (fun r hr => h r (List.mem_cons_of_mem _ hr))]
    rfl
  | ⟨.field key :: place, keys⟩ :: rs, h, fields => by
    rw [carryOutAll_cons, carryOut, Value.alter, carryOutAll_object rs (fun r hr => h r (List.mem_cons_of_mem _ hr)),
      List.map_map]
    congr 1
    apply List.map_congr_left
    intro field _
    by_cases hk : field.1 = key
    · subst hk
      simp [below, carryOutAll_cons, carryOut]
    · simp [below, hk, Ne.symm hk]

/-- **Notes that lead inside an array are carried out entry by entry.** -/
theorem carryOutAll_array : ∀ (rs : List Removal), (∀ r ∈ rs, r.place ≠ []) →
    ∀ (shape : ArrayShape) (entries : List Value),
      carryOutAll rs (.array shape entries) =
        .array shape (entries.mapIdx fun i v => carryOutAll (below (.entry i) rs) v)
  | [], _, shape, entries => by simp [below, List.mapIdx_eq_zipIdx_map]
  | ⟨[], keys⟩ :: rs, h, shape, entries => absurd rfl (h _ List.mem_cons_self)
  | ⟨.field key :: place, keys⟩ :: rs, h, shape, entries => by
    show carryOutAll rs (.array shape entries) = _
    rw [carryOutAll_array rs (fun r hr => h r (List.mem_cons_of_mem _ hr))]
    rfl
  | ⟨.entry index :: place, keys⟩ :: rs, h, shape, entries => by
    rw [carryOutAll_cons, carryOut, Value.alter, carryOutAll_array rs (fun r hr => h r (List.mem_cons_of_mem _ hr))]
    congr 1
    apply List.ext_getElem?
    intro i
    rw [List.getElem?_mapIdx, List.getElem?_mapIdx, List.getElem?_modify]
    by_cases hi : index = i
    · subst hi
      cases entries[index]? <;> simp [below, carryOutAll_cons, carryOut]
    · cases entries[i]? <;> simp [below, hi]

/-- The notes of several parts, seen from one step further out. -/
def gather (parts : List (Step × List Removal)) : List Removal := parts.flatMap fun part => part.2.map (·.under part.1)

theorem gather_cons (step : Step) (rs : List Removal) (parts : List (Step × List Removal)) :
    gather ((step, rs) :: parts) = rs.map (·.under step) ++ gather parts := List.flatMap_cons ..

theorem place_gather_ne_nil (parts : List (Step × List Removal)) : ∀ r ∈ gather parts, r.place ≠ [] := by
  intro r hr
  obtain ⟨part, -, hr⟩ := List.mem_flatMap.1 hr
  obtain ⟨r', -, rfl⟩ := List.mem_map.1 hr
  exact List.cons_ne_nil _ _

theorem below_append (step : Step) (rs rs' : List Removal) : below step (rs ++ rs') = below step rs ++ below step rs' :=
  List.filterMap_append

theorem below_map_under (step : Step) : ∀ rs : List Removal, below step (rs.map (·.under step)) = rs
  | [] => rfl
  | r :: rs => by
    have hfirst : below step (r.under step :: rs.map (·.under step)) = r :: below step (rs.map (·.under step)) :=
      List.filterMap_cons_some (if_pos rfl)
    rw [List.map_cons, hfirst, below_map_under step rs]

theorem below_map_under_of_ne {step step' : Step} (h : step' ≠ step) (rs : List Removal) :
    below step (rs.map (·.under step')) = [] := by
  simp [below, under, h]

theorem below_gather_eq_nil (step : Step) : ∀ {parts : List (Step × List Removal)},
    (∀ part ∈ parts, part.1 = step → part.2 = []) → below step (gather parts) = []
  | [], _ => rfl
  | (step', rs) :: parts, h => by
    rw [gather_cons, below_append, below_gather_eq_nil step fun part hp => h part (List.mem_cons_of_mem _ hp),
      List.append_nil]
    by_cases hs : step' = step
    · have hnil : rs = [] := h _ List.mem_cons_self hs
      rw [hnil]
      rfl
    · exact below_map_under_of_ne hs rs

/-- **The notes of parts come apart again**, if two parts that one step leads to made none. -/
theorem below_gather : ∀ {parts : List (Step × List Removal)},
    (parts.Pairwise fun a b => a.1 = b.1 → a.2 = [] ∧ b.2 = []) →
    ∀ {step : Step} {rs : List Removal}, (step, rs) ∈ parts → below step (gather parts) = rs
  | [], _, _, _, h => by cases h
  | (step', rs') :: parts, hp, step, rs, h => by
    obtain ⟨hhead, htail⟩ := List.pairwise_cons.1 hp
    rw [gather_cons, below_append]
    rcases List.mem_cons.1 h with h | h
    · cases h
      rw [below_map_under, below_gather_eq_nil step' fun part hm heq => (hhead part hm heq.symm).2, List.append_nil]
    · rw [below_gather htail h]
      by_cases hs : step' = step
      · have hnil : rs' = [] := (hhead _ h hs).1
        rw [hnil]
        rfl
      · rw [below_map_under_of_ne hs, List.nil_append]

end Removal
end ConfigSchema
