import ConfigSchema.Proofs.Pruning
import ConfigSchema.Proofs.Sameness
/-!
# Reordered — documents that differ in the order of their fields

Two values are reorderings of one another if they are equal but for the order of the fields of objects, at any depth.
Pruning keeps that, also if the two are pruned under elements that are the same (`prune_reordered`).
-/
namespace ConfigSchema

namespace Value

/-- Two values are equal up to the order of the fields of their objects. -/
inductive Reordered : Value → Value → Prop
  | null : Reordered .null .null
  | scalar {v : Value} (h : v.isScalar = true) : Reordered v v
  | array {shape : ArrayShape} {entries entries' : List Value} (each : List.Forall₂ Reordered entries entries') :
    Reordered (.array shape entries) (.array shape entries')
  | object {fields aligned fields' : List (Key × Value)} (keys : fields.map Prod.fst = aligned.map Prod.fst)
    (each : List.Forall₂ Reordered (fields.map Prod.snd) (aligned.map Prod.snd)) (moved : aligned.Perm fields') :
    Reordered (.object fields) (.object fields')

/-- Two lists of fields hold the same keys with reordered values, in any order. -/
abbrev ReorderedFields (fields fields' : List (Key × Value)) : Prop := Shuffled (Assoc.Match Reordered) fields fields'

variable {v v' : Value}

theorem reordered_object {fields : List (Key × Value)} : (Value.object fields).Reordered v' ↔
    ∃ fields', v' = .object fields' ∧ ReorderedFields fields fields' := by
  constructor
  · intro h
    cases h with
    | scalar h => cases h
    | object keys each moved => exact ⟨_, rfl, _, Assoc.forall₂_match_iff.2 ⟨keys, each⟩, moved⟩
  · rintro ⟨fields', rfl, aligned, heach, hmoved⟩
    obtain ⟨keys, each⟩ := Assoc.forall₂_match_iff.1 heach
    exact .object keys each hmoved

theorem reordered_array {shape : ArrayShape} {entries : List Value} : (Value.array shape entries).Reordered v' ↔
    ∃ entries', v' = .array shape entries' ∧ List.Forall₂ Reordered entries entries' := by
  constructor
  · intro h
    cases h with
    | scalar h => cases h
    | array each => exact ⟨_, rfl, each⟩
  · rintro ⟨entries', rfl, each⟩
    exact .array each

theorem Reordered.refl (v : Value) : v.Reordered v := by
  induction v using Value.induct with
  | null => exact .null
  | scalar v h => exact .scalar h
  | array shape entries ih => exact .array (List.forall₂_same.2 ih)
  | object fields ih =>
    exact reordered_object.2 ⟨fields, rfl, fields, List.forall₂_same.2 fun field hf => ⟨rfl, ih field hf⟩, .refl _⟩

theorem Reordered.kindName_eq (h : v.Reordered v') : v.kindName = v'.kindName := by
  cases h with
  | null | scalar | array | object => rfl

theorem Reordered.isNull_eq (h : v.Reordered v') : v.isNull = v'.isNull := by
  cases h with
  | null | scalar | array | object => rfl

theorem Reordered.isOf_eq (h : v.Reordered v') (k : Kind) : v.isOf k = v'.isOf k := by
  cases h with
  | null | scalar => rfl
  | array | object => cases k <;> rfl

theorem Reordered.eq_of_isScalar (h : v.Reordered v') (hv : v.isScalar = true) : v' = v := by
  cases h with
  | null | scalar => rfl
  | array | object => cases hv

theorem Reordered.accepts_eq {e e' : Element} (he : e.Same e') (h : v.Reordered v') :
    e.accepts v = e'.accepts v' := by
  rw [Element.accepts, Element.accepts, he.kind_eq, h.isOf_eq]

/-- Fields that are matched have their keys in common. -/
theorem keys_perm {fields fields' : List (Key × Value)} (h : ReorderedFields fields fields') :
    (fields.map Prod.fst).Perm (fields'.map Prod.fst) :=
  h.map_perm fun _ _ _ hfield => hfield.key

end Value

namespace Options

open Value (Reordered)

variable (o : Options) (unlisted : Bool)

/-- Pruning leaves reorderings of a value under elements that are the same. -/
def Reorders (v : Value) : Prop := ∀ {e e' : Element} {v' : Value}, e.Keyed → e.Same e' → v.Reordered v' →
  (o.prune unlisted e v).Reordered (o.prune unlisted e' v')

variable {o unlisted} {traits : Traits} {children children' : List (String × Element)}
  {slots slots' : List (Kind × Element)} {ordered ordered' : List Element} {allowNull : Bool}

theorem keeps_eq (hk : (Element.object traits children).Keyed)
    (h : Element.SameUnder children children') (key : Key) :
    o.keeps unlisted children key = o.keeps unlisted children' key := by
  unfold keeps
  rcases hk.governing_cases h key with ⟨hc, hc'⟩ | ⟨child, child', hc, hc', -⟩
  · rw [hc, hc']
  · rw [hc, hc', Option.isSome_some, Option.isSome_some]

theorem pruneField_reordered {field field' : Key × Value} (ih : o.Reorders unlisted field.2)
    (hk : (Element.object traits children).Keyed) (h : Element.SameUnder children children')
    (hfield : Assoc.Match Reordered field field') :
    Assoc.Match Reordered (o.pruneField unlisted children field) (o.pruneField unlisted children' field') := by
  refine ⟨hfield.key, ?_⟩
  unfold pruneField
  rw [← hfield.key]
  rcases hk.governing_cases h field.1 with ⟨hc, hc'⟩ | ⟨child, child', hc, hc', hchild, hsame⟩
  · rw [hc, hc']
    exact hfield.value
  · rw [hc, hc']
    exact ih hchild hsame hfield.value

theorem pruneEntry_reordered {v v' : Value} (ih : o.Reorders unlisted v)
    (hk : (Element.array traits slots ordered allowNull).Keyed) (hslots : Element.SameUnder slots slots')
    (hordered : List.Forall₂ Element.Same ordered ordered') (index : Nat) (hv : v.Reordered v') :
    (o.pruneEntry unlisted slots ordered index v).Reordered (o.pruneEntry unlisted slots' ordered' index v') := by
  unfold pruneEntry
  rcases hk.entry_cases hslots hordered index hv.kindName_eq with ⟨he, he'⟩ | ⟨e, e', he, he', hentry, hsame⟩
  · rw [he, he']
    exact hv
  · rw [he, he']
    exact ih hentry hsame hv

/-- Whether an array is as long as its ordered elements ask is the same for arrays and elements that correspond. -/
theorem fits_iff {entries entries' : List Value} (hordered : List.Forall₂ Element.Same ordered ordered')
    (hentries : List.Forall₂ Reordered entries entries') :
    ordered = [] ∨ ordered.length = entries.length ↔ ordered' = [] ∨ ordered'.length = entries'.length := by
  rw [(Shuffled.of_forall₂ hordered).eq_nil_iff, hordered.length_eq, hentries.length_eq]

/-- **What is left of reordered values under elements that are the same is reordered again.** -/
theorem prune_reordered (e : Element) (v : Value) : ∀ {e' v'}, e.Keyed → e.Same e' → v.Reordered v' →
    (o.prune unlisted e v).Reordered (o.prune unlisted e' v') := by
  induction e, v using Element.induct with
  | null e =>
    intro e' v' _ _ hv
    cases hv with
    | null => exact .null
    | scalar h => cases h
  | wrong e v hn ha =>
    intro e' v' _ he hv
    rw [o.prune_of_not_accepts unlisted ha, o.prune_of_not_accepts unlisted (hv.accepts_eq he ▸ ha)]
    exact hv
  | scalar e v hn ha =>
    intro e' v' _ he hv
    rw [hv.eq_of_isScalar hn, o.prune_scalar unlisted e hn, o.prune_scalar unlisted e' hn]
    exact .scalar hn
  | object traits children fields ih =>
    intro e' v' hk he hv
    obtain ⟨traits', children', rfl, hchildren⟩ := he.object hk
    obtain ⟨fields', rfl, hfields⟩ := Value.reordered_object.1 hv
    have hkept : Value.ReorderedFields (fields.filter (o.keeps unlisted children ·.1))
        (fields'.filter (o.keeps unlisted children' ·.1)) :=
      hfields.filter fun field _ field' hfield => hfield.key ▸ keeps_eq hk hchildren field.1
    rw [prune_object, prune_object]
    refine Value.reordered_object.2 ⟨_, rfl, hkept.map fun field hf field' hfield => ?_⟩
    exact pruneField_reordered (ih field (List.mem_filter.1 hf).1 _) hk hchildren hfield
  | array traits slots ordered allowNull shape entries ih =>
    intro e' v' hk he hv
    obtain ⟨traits', slots', ordered', rfl, hslots, hordered⟩ := he.array hk
    obtain ⟨entries', rfl, hentries⟩ := Value.reordered_array.1 hv
    by_cases hl : ordered = [] ∨ ordered.length = entries.length
    · have hl' := (fits_iff hordered hentries).1 hl
      rw [o.prune_array unlisted traits slots allowNull shape hl, o.prune_array unlisted traits' slots' allowNull shape hl']
      exact .array (forall₂_mapIdx hentries fun i v hm v' hv => pruneEntry_reordered (ih v hm _) hk hslots hordered i hv)
    · have hl' := mt (fits_iff hordered hentries).2 hl
      rw [o.prune_array_of_length_ne unlisted traits slots allowNull shape hl,
        o.prune_array_of_length_ne unlisted traits' slots' allowNull shape hl']
      exact .array hentries

end Options
end ConfigSchema
