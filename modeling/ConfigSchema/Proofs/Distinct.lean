import ConfigSchema.Proofs.Descent
import ConfigSchema.Value.Reader
/-!
# Distinct — documents whose objects hold each name once

No name is met twice among the fields of an object.  Putting pairs one after the other keeps this, since a name that is
there already keeps its place, and so every text that can be read gives such a document (`distinct_of_read`).  Nothing is
asked of keys that are not names, which no schema declares.
-/
namespace ConfigSchema

namespace Value

/-- Every object of a document holds each of its names once. -/
inductive Distinct : Value → Prop
  | null : Distinct .null
  | scalar {v : Value} (h : v.isScalar = true) : Distinct v
  | array {shape : ArrayShape} {entries : List Value} (each : ∀ v ∈ entries, Distinct v) :
    Distinct (.array shape entries)
  | object {fields : List (Key × Value)} (names : (fields.filterMap (·.1.name?)).Nodup)
    (each : ∀ field ∈ fields, Distinct field.2) : Distinct (.object fields)

theorem Distinct.of_array {shape : ArrayShape} {entries : List Value} (h : Distinct (.array shape entries)) :
    ∀ v ∈ entries, Distinct v := by
  cases h with
  | scalar h => cases h
  | array each => exact each

theorem Distinct.of_object {fields : List (Key × Value)} (h : Distinct (.object fields)) :
    (fields.filterMap (·.1.name?)).Nodup ∧ ∀ field ∈ fields, Distinct field.2 := by
  cases h with
  | scalar h => cases h
  | object names each => exact ⟨names, each⟩

end Value

/-! ## Objects put together from pairs -/

namespace Assoc

variable {α β : Type} {same : α → α → Bool} {a : α} {b : β}

theorem mem_put : ∀ {l : List (α × β)} {p : α × β}, p ∈ put same a b l → p ∈ l ∨ p.2 = b
  | [], p, h => by
    rw [put, List.mem_singleton] at h
    exact .inr (h ▸ rfl)
  | (a', b') :: l, p, h => by
    rw [put] at h
    split at h
    · rcases List.mem_cons.1 h with h | h
      · exact .inr (h ▸ rfl)
      · exact .inl (List.mem_cons_of_mem _ h)
    · rcases List.mem_cons.1 h with h | h
      · exact .inl (h ▸ List.mem_cons_self)
      · exact (mem_put h).imp_left (List.mem_cons_of_mem _)

/-- A key that is new comes last; any other is there already. -/
theorem keys_put : ∀ (l : List (α × β)), (put same a b l).map Prod.fst =
    if l.any (same ·.1 a) then l.map Prod.fst else l.map Prod.fst ++ [a]
  | [] => rfl
  | (a', b') :: l => by
    rw [put, List.any_cons]
    cases h : same a' a with
    | true => rfl
    | false =>
      simp only [Bool.false_or, Bool.false_eq_true, if_false, List.map_cons, keys_put l]
      split <;> rfl

theorem names_put {fields : List (Key × Value)} (h : (fields.filterMap (·.1.name?)).Nodup) (key : Key) (v : Value) :
    ((put Key.same key v fields).filterMap (·.1.name?)).Nodup := by
  have hnames : ∀ (l : List (Key × Value)), l.filterMap (·.1.name?) = (l.map Prod.fst).filterMap Key.name? :=
    fun l => by rw [List.filterMap_map]; rfl
  rw [hnames] at h ⊢
  rw [keys_put]
  split
  · exact h
  · rename_i hany
    rw [List.filterMap_append]
    cases key with
    | number | null => exact (List.append_nil _).symm ▸ h
    | name text =>
      refine List.nodup_append.2 ⟨h, List.pairwise_singleton .., fun a ha b hb heq => hany ?_⟩
      obtain ⟨key', hk, hname⟩ := List.mem_filterMap.1 ha
      obtain ⟨⟨key, v⟩, hf, rfl⟩ := List.mem_map.1 hk
      rw [heq, List.mem_singleton.1 hb] at hname
      refine List.any_eq_true.2 ⟨_, hf, ?_⟩
      cases key with
      | number | null => cases hname
      | name text' =>
        cases hname
        exact beq_self_eq_true text

end Assoc

namespace Value

theorem Distinct.put {fields : List (Key × Value)} (h : (Value.object fields).Distinct) {v : Value} (hv : v.Distinct)
    (key : Key) : (Value.object (Assoc.put Key.same key v fields)).Distinct := by
  obtain ⟨hnames, heach⟩ := h.of_object
  refine .object (Assoc.names_put hnames key v) fun field hm => ?_
  rcases Assoc.mem_put hm with hm | hm
  · exact heach field hm
  · rwa [hm]

theorem Distinct.foldl_put : ∀ (pairs : List (Key × Value)), (∀ field ∈ pairs, field.2.Distinct) →
    ∀ {fields : List (Key × Value)}, (Value.object fields).Distinct →
      (Value.object (pairs.foldl (fun l p => Assoc.put Key.same p.1 p.2 l) fields)).Distinct
  | [], _, _, hf => hf
  | pair :: pairs, hp, _, hf =>
    foldl_put pairs (fun field hm => hp field (List.mem_cons_of_mem _ hm)) (hf.put (hp pair List.mem_cons_self) pair.1)

/-- **Pairs put together give an object that holds each name once.** -/
theorem distinct_ofFields {pairs : List (Key × Value)} (h : ∀ field ∈ pairs, field.2.Distinct) :
    (ofFields pairs).Distinct :=
  .foldl_put pairs h (.object List.nodup_nil fun _ hm => nomatch hm)

end Value

/-! ## What the reader gives -/

namespace Reader

theorem distinct_leaf {s : List Char} {x : Taken s Value} (h : leaf s = .ok x) : x.value.Distinct := by
  unfold leaf at h
  split at h
  · rename_i w hw
    cases h
    have hm : w ∈ words := List.mem_of_find?_eq_some hw
    simp only [words, List.mem_cons, List.not_mem_nil, or_false] at hm
    rcases hm with rfl | rfl | rfl | rfl | rfl | rfl
    · exact .null
    all_goals exact .scalar rfl
  · cases hn : number s with
    | error refusal =>
      rw [hn] at h
      cases h
    | ok n =>
      rw [hn] at h
      cases h
      exact .scalar rfl

/-- Whatever a step reads from the front of `s` has a property. -/
def Gives {α : Type} (step : (s : List Char) → Step s α) (P : α → Prop) (s : List Char) : Prop :=
  ∀ x, step s = .ok x → P x.value

theorem gives_value {s : List Char} (he : ∀ t, t.length < s.length → Gives entries (∀ v ∈ ·, v.Distinct) t)
    (hf : ∀ t, t.length < s.length → Gives fields (∀ field ∈ ·, field.2.Distinct) t) : Gives value Value.Distinct s := by
  intro x h
  rw [value.eq_def] at h
  split at h
  · split at h <;> cases h
    exact .scalar rfl
  · rename_i r
    split at h
    · cases h
      exact .array fun _ hv => absurd hv List.not_mem_nil
    · split at h
      · cases h
      · rename_i y hy
        cases h
        exact .array (he _ (Nat.lt_succ_of_le (length_skipBlanks_le r)) y hy)
  · rename_i r
    split at h
    · cases h
      exact .object List.nodup_nil fun _ hv => absurd hv List.not_mem_nil
    · split at h
      · cases h
      · rename_i y hy
        cases h
        exact Value.distinct_ofFields (hf _ (Nat.lt_succ_of_le (length_skipBlanks_le r)) y hy)
  · exact distinct_leaf h

theorem length_skipBlanks_lt {c : Char} {r t : List Char} (h : skipBlanks t = c :: r) :
    (skipBlanks r).length < t.length := by
  have hr := length_skipBlanks_le r
  have ht := length_skipBlanks_le t
  rw [h, List.length_cons] at ht
  omega

theorem gives_entries {s : List Char} (hv : Gives value Value.Distinct s)
    (he : ∀ t, t.length < s.length → Gives entries (∀ v ∈ ·, v.Distinct) t) :
    Gives entries (∀ v ∈ ·, v.Distinct) s := by
  intro x h
  rw [entries] at h
  split at h
  · cases h
  · rename_i y hy
    split at h
    · cases h
      exact List.forall_mem_singleton.2 (hv y hy)
    · rename_i r hr
      split at h
      · cases h
      · rename_i z hz
        cases h
        have hlt := Nat.lt_trans (length_skipBlanks_lt hr) y.shorter
        exact List.forall_mem_cons.2 ⟨hv y hy, he _ hlt z hz⟩
    · cases h

theorem gives_fields {s : List Char} (hv : ∀ t, t.length < s.length → Gives value Value.Distinct t)
    (hf : ∀ t, t.length < s.length → Gives fields (∀ field ∈ ·, field.2.Distinct) t) :
    Gives fields (∀ field ∈ ·, field.2.Distinct) s := by
  intro x h
  rw [fields.eq_def] at h
  split at h
  · split at h
    · cases h
    · rename_i k hk
      split at h
      · rename_i r₁ hr₁
        have hlt₁ := Nat.lt_trans (length_skipBlanks_lt hr₁) (Nat.lt_succ_of_lt k.shorter)
        split at h
        · cases h
        · rename_i y hy
          have hfirst := hv _ hlt₁ y hy
          split at h
          · cases h
            exact List.forall_mem_singleton.2 hfirst
          · rename_i r₂ hr₂
            split at h
            · cases h
            · rename_i z hz
              cases h
              have hlt₂ := Nat.lt_trans (Nat.lt_trans (length_skipBlanks_lt hr₂) y.shorter) hlt₁
              exact List.forall_mem_cons.2 ⟨hfirst, hf _ hlt₂ z hz⟩
          · cases h
      · cases h
  · cases h

theorem gives_distinct (s : List Char) : Gives value Value.Distinct s ∧ Gives entries (∀ v ∈ ·, v.Distinct) s ∧
    Gives fields (∀ field ∈ ·, field.2.Distinct) s := by
  induction hn : s.length using Nat.strongRecOn generalizing s with
  | ind n ih =>
    subst hn
    have hv := gives_value (fun t ht => (ih _ ht t rfl).2.1) fun t ht => (ih _ ht t rfl).2.2
    exact ⟨hv, gives_entries hv fun t ht => (ih _ ht t rfl).2.1,
      gives_fields (fun t ht => (ih _ ht t rfl).1) fun t ht => (ih _ ht t rfl).2.2⟩

theorem distinct_document {s : List Char} {v : Value} (h : document s = .ok v) : v.Distinct := by
  unfold document at h
  split at h
  · cases h
  · split at h
    · cases h
    · rename_i x hx
      split at h
      · cases h
        exact (gives_distinct _).1 x hx
      · cases h

end Reader

/-- **A document that was read holds each name once in every object.** -/
theorem Value.distinct_of_read {text : String} {v : Value} (h : Value.read text = .ok v) : v.Distinct := by
  unfold Value.read at h
  split at h
  · cases h
  · rename_i v' hd
    cases h
    exact Reader.distinct_document hd

end ConfigSchema
