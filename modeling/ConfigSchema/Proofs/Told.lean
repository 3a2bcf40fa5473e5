import ConfigSchema.Proofs.Descent
/-!
# Told — what joined trails tell of one sort of event

What a join tells of one sort of event comes from its parts, and from the second one only if the first one went through.
Two such things that are related whenever they come from one part, or from two parts in this order, are related in the whole
(`pairwise_told_sequence`, `pairwise_told_each`).
-/
namespace ConfigSchema

namespace Trail

/-- What a trail tells of one sort of event. -/
def told {β : Type} (p : Event → Option β) (t : Trail) : List β := t.events.filterMap p

variable {β : Type} (p : Event → Option β) {t u : Trail} {b : β} {R : β → β → Prop}

theorem told_andThen (h : t.halt = none) (u : Trail) : (t.andThen u).told p = t.told p ++ u.told p := by
  rw [andThen_of_none h]
  exact List.filterMap_append

theorem told_sequence : ∀ {ts : List Trail}, (∀ t ∈ ts, t.halt = none) → (sequence ts).told p = ts.flatMap (·.told p)
  | [], _ => rfl
  | t :: ts, h => by
    obtain ⟨ht, hts⟩ := List.forall_mem_cons.1 h
    rw [sequence, told_andThen p ht, told_sequence hts, List.flatMap_cons]

variable {p}

theorem told_andThen_nil (h : u.told p = []) : (t.andThen u).told p = t.told p := by
  cases hh : t.halt with
  | some halt => rw [andThen_of_some hh]
  | none => rw [told_andThen p hh, h, List.append_nil]

theorem told_andIfClean_nil (h : u.told p = []) : (t.andIfClean u).told p = t.told p := by
  by_cases hv : t.violations = []
  · rw [andIfClean_of_nil hv, told_andThen_nil h]
  · rw [andIfClean_of_ne_nil hv]

theorem told_sequence_nil : ∀ {ts : List Trail}, (∀ t ∈ ts, t.told p = []) → (sequence ts).told p = []
  | [], _ => rfl
  | t :: ts, h => by
    obtain ⟨ht, hts⟩ := List.forall_mem_cons.1 h
    rw [sequence, told_andThen_nil (told_sequence_nil hts), ht]

theorem mem_told_andThen (h : b ∈ (t.andThen u).told p) : b ∈ t.told p ∨ t.halt = none ∧ b ∈ u.told p := by
  cases hh : t.halt with
  | some halt =>
    rw [andThen_of_some hh] at h
    exact .inl h
  | none =>
    rw [told_andThen p hh] at h
    exact (List.mem_append.1 h).imp_right fun hu => ⟨rfl, hu⟩

theorem mem_told_andIfClean (h : b ∈ (t.andIfClean u).told p) : b ∈ t.told p ∨ t.halt = none ∧ b ∈ u.told p := by
  by_cases hv : t.violations = []
  · rw [andIfClean_of_nil hv] at h
    exact mem_told_andThen h
  · rw [andIfClean_of_ne_nil hv] at h
    exact .inl h

theorem mem_told_sequence : ∀ {ts : List Trail}, b ∈ (sequence ts).told p → ∃ t ∈ ts, b ∈ t.told p
  | [], h => nomatch h
  | t :: ts, h => by
    rw [sequence] at h
    rcases mem_told_andThen h with h | ⟨-, h⟩
    · exact ⟨t, List.mem_cons_self, h⟩
    · obtain ⟨u, hu, hb⟩ := mem_told_sequence h
      exact ⟨u, List.mem_cons_of_mem t hu, hb⟩

theorem pairwise_told_andThen (ht : (t.told p).Pairwise R) (hu : (u.told p).Pairwise R)
    (h : ∀ a ∈ t.told p, ∀ b ∈ u.told p, R a b) : ((t.andThen u).told p).Pairwise R := by
  cases hh : t.halt with
  | some halt => rwa [andThen_of_some hh]
  | none =>
    rw [told_andThen p hh]
    exact List.pairwise_append.2 ⟨ht, hu, h⟩

theorem pairwise_told_andIfClean (ht : (t.told p).Pairwise R) (hu : (u.told p).Pairwise R)
    (h : t.violations = [] → ∀ a ∈ t.told p, ∀ b ∈ u.told p, R a b) : ((t.andIfClean u).told p).Pairwise R := by
  by_cases hv : t.violations = []
  · rw [andIfClean_of_nil hv]
    exact pairwise_told_andThen ht hu (h hv)
  · rwa [andIfClean_of_ne_nil hv]

/-- **What a sequence tells is related** if what each trail tells is, and what each two trails tell in their order. -/
theorem pairwise_told_sequence : ∀ {ts : List Trail}, (∀ t ∈ ts, (t.told p).Pairwise R) →
    (ts.Pairwise fun t u => ∀ a ∈ t.told p, ∀ b ∈ u.told p, R a b) → ((sequence ts).told p).Pairwise R
  | [], _, _ => .nil
  | t :: ts, heach, hcross => by
    obtain ⟨hhead, htail⟩ := List.pairwise_cons.1 hcross
    refine pairwise_told_andThen (heach t List.mem_cons_self)
      (pairwise_told_sequence (fun u hu => heach u (List.mem_cons_of_mem t hu)) htail) fun a ha b hb => ?_
    obtain ⟨u, hu, hb⟩ := mem_told_sequence hb
    exact hhead u hu a ha b hb

end Trail

namespace Walk

variable {α β : Type} {f : Nat → α → Walk α} {index : Nat} {parts : List α} {p : Event → Option β} {b : β}
  {R : β → β → Prop}

/-- **A walk of a list that goes through tells of what the walks of its parts tell of**, one after the other. -/
theorem told_each (p : Event → Option β) : ∀ {index : Nat} {parts : List α},
    (∀ i, ∀ a ∈ parts, (f i a).trail.halt = none) →
      (each f index parts).trail.told p = (parts.mapIdx fun i a => (f (index + i) a).trail.told p).flatten
  | _, [], _ => rfl
  | index, a :: rest, h => by
    have hrest := fun i b hb => h i b (List.mem_cons_of_mem a hb)
    rw [each, trail_cons, Trail.told_andThen p (h index a List.mem_cons_self), told_each p hrest, List.mapIdx_cons,
      List.flatten_cons]
    simp only [Nat.add_zero, Nat.add_assoc, Nat.add_comm 1]

theorem told_each_nil (h : ∀ i, ∀ a ∈ parts, (f i a).trail.told p = []) : (each f index parts).trail.told p = [] := by
  rw [trail_each]
  refine Trail.told_sequence_nil fun t ht => ?_
  obtain ⟨i, hi, rfl⟩ := List.mem_mapIdx.1 ht
  exact h _ _ (List.getElem_mem hi)

theorem mem_told_each (h : b ∈ (each f index parts).trail.told p) :
    ∃ i a, parts[i]? = some a ∧ b ∈ (f (index + i) a).trail.told p := by
  rw [trail_each] at h
  obtain ⟨t, ht, hb⟩ := Trail.mem_told_sequence h
  obtain ⟨i, hi, rfl⟩ := List.mem_mapIdx.1 ht
  exact ⟨i, parts[i], List.getElem?_eq_getElem hi, hb⟩

/-- **What a walk of a list tells is related** if what each part tells is, and what each two parts tell in their order. -/
theorem pairwise_told_each (heach : ∀ i a, parts[i]? = some a → ((f (index + i) a).trail.told p).Pairwise R)
    (hcross : ∀ i j a b, i < j → parts[i]? = some a → parts[j]? = some b →
      ∀ x ∈ (f (index + i) a).trail.told p, ∀ y ∈ (f (index + j) b).trail.told p, R x y) :
    ((each f index parts).trail.told p).Pairwise R := by
  rw [trail_each]
  refine Trail.pairwise_told_sequence (fun t ht => ?_) (List.pairwise_iff_getElem.2 fun i j hi hj hlt => ?_)
  · obtain ⟨i, hi, rfl⟩ := List.mem_mapIdx.1 ht
    exact heach i _ (List.getElem?_eq_getElem hi)
  · rw [List.length_mapIdx] at hi hj
    rw [List.getElem_mapIdx, List.getElem_mapIdx]
    exact hcross i j _ _ hlt (List.getElem?_eq_getElem hi) (List.getElem?_eq_getElem hj)

end Walk

/-! ## What the checks of a value do not tell of -/

namespace Setting

variable {s : Setting} {β : Type} {p : Event → Option β} (path : Pointer)

theorem told_found_nil (hfound : ∀ x, p (.found x) = none) (cause : Cause) : (s.found path cause).told p = [] :=
  List.filterMap_cons_none (hfound _)

theorem told_foundAll_nil (hfound : ∀ x, p (.found x) = none) (causes : List Cause) :
    (s.foundAll path causes).told p = [] :=
  Trail.told_sequence_nil fun t ht => by
    obtain ⟨cause, -, rfl⟩ := List.mem_map.1 ht
    exact told_found_nil path hfound cause

theorem told_nullField_nil (hfound : ∀ x, p (.found x) = none) (e : Element) : (s.nullField path e).told p = [] := by
  unfold nullField
  split
  · rfl
  · exact told_found_nil path hfound _

theorem told_reportMissing_nil (hfound : ∀ x, p (.found x) = none) (children : List (String × Element))
    (fields : List (Key × Value)) : (s.reportMissing path children fields).told p = [] :=
  Trail.told_sequence_nil fun t ht => by
    obtain ⟨name, -, rfl⟩ := List.mem_map.1 ht
    exact told_found_nil _ hfound _

theorem told_askAll_nil (hfound : ∀ x, p (.found x) = none) (hjudged : ∀ w e v, p (.judged w e v) = none) (e : Element)
    (v : Value) : (s.askAll path e v).told p = [] :=
  Trail.told_sequence_nil fun t ht => by
    obtain ⟨w, -, rfl⟩ := List.mem_map.1 ht
    have hheed : (s.heed path w (s.judge w e v)).told p = [] := by
      cases s.judge w e v with
      | accept | fail => rfl
      | reject => exact told_found_nil path hfound _
    rw [ask, Trail.told_andThen_nil hheed]
    exact List.filterMap_cons_none (hjudged w e v)

theorem told_dropMeta_nil (hpruned : ∀ count path, p (.metaPruned count path) = none) (fields : List (Key × Value)) :
    (s.dropMeta path fields).told p = [] := by
  unfold dropMeta
  simp only
  split
  · rfl
  · exact List.filterMap_cons_none (hpruned _ _)

theorem told_noteUnlisted_nil (children : List (String × Element)) (fields : List (Key × Value)) :
    (s.noteUnlisted children fields).told p = [] := by
  unfold noteUnlisted
  simp only
  split <;> rfl

theorem told_anyEntries_nil (hfound : ∀ x, p (.found x) = none) (allowNull : Bool) (entries : List Value) :
    (s.anyEntries path allowNull entries).trail.told p = [] := by
  simp only [anyEntries]
  split
  · exact told_found_nil path hfound _
  · rfl

/-- **A walk tells only of meta fields, of violations and of validators that it asks.** -/
theorem told_walk_nil (hpruned : ∀ count path, p (.metaPruned count path) = none) (hfound : ∀ x, p (.found x) = none)
    (hjudged : ∀ w e v, p (.judged w e v) = none) (e : Element) (v : Value) : ∀ path, (s.walk path e v).trail.told p = [] := by
  induction e, v using Element.induct with
  | null e =>
    intro path
    rw [walk_null]
    exact told_nullField_nil path hfound e
  | wrong e v hv ha =>
    intro path
    rw [walk_wrong s path hv ha]
    exact told_found_nil path hfound _
  | scalar e v hv ha =>
    intro path
    rw [walk_scalar s path hv ha, Trail.told_andIfClean_nil (told_askAll_nil path hfound hjudged e v)]
    exact told_foundAll_nil path hfound _
  | object traits children fields ih =>
    intro path
    have hinside : (Walk.each (fun _ => s.walkField path children) 0 fields).trail.told p = [] := by
      refine Walk.told_each_nil fun _ field hf => ?_
      unfold walkField
      cases Element.governing? children field.1 with
      | none => rfl
      | some child => exact ih field hf child (path.push field.1.token)
    rw [walk_object, trail_walkObject, Trail.told_andThen_nil (told_noteUnlisted_nil children fields),
      Trail.told_andIfClean_nil (told_askAll_nil path hfound hjudged _ _), Trail.told_andThen_nil hinside,
      Trail.told_andThen_nil (told_reportMissing_nil path hfound children fields), told_dropMeta_nil path hpruned]
  | array traits slots ordered allowNull shape entries ih =>
    intro path
    by_cases hl : ordered = [] ∨ ordered.length = entries.length
    · rw [walk_array s path traits slots allowNull shape hl, trail_walkArray,
        Trail.told_andIfClean_nil (told_askAll_nil path hfound hjudged _ _), walkContents]
      cases ArrayMode.ofContents slots ordered with
      | any => exact told_anyEntries_nil path hfound allowNull entries
      | typed | ordered =>
        refine Walk.told_each_nil fun i v hv => ?_
        unfold walkEntry
        cases Element.entryDemand slots ordered allowNull i v with
        | nothing => rfl
        | refused cause => exact told_found_nil _ hfound cause
        | governed e => exact ih v hv e (path.entry i)
    · rw [walk_array_of_length_ne s path traits slots allowNull shape hl]
      exact told_found_nil path hfound _

end Setting
end ConfigSchema
