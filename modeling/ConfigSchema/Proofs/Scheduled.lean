import ConfigSchema.Proofs.Regions
import Mathlib.Data.List.Nodup
import Mathlib.Data.List.Perm.Subperm
/-!
# Scheduled — fields that wait to be taken out are still there

A value is validated in place without a fault as long as no key has been deleted from it.  An object reads its declared
keys before it deletes its meta keys, deletes each of them once (`dropMeta_eq`), and schedules keys that are not among them
(`keys_sublist_dropped`).  What is done with its fields and with the entries of an array stays in their regions, which stand
apart, and so no two notes are about one object and none of the noted keys is gone (`sound_validate`).
-/
namespace ConfigSchema
namespace InPlace

open scoped List

variable {α : Type}

/-! ## Deleting keys -/

theorem delete_eq {place : Place} {key : Key} {m : Machine} (h : key ∈ m.memory place) :
    (delete place key).run m = .ok () { m with memory := m.memory.erase place key } := by
  have hopen : (delete place key).run m = (if key ∈ m.memory place then set { m with memory := m.memory.erase place key }
    else throw (.fault (.missingKey key)) : Work Unit).run m := rfl
  rw [hopen, if_pos h]
  rfl

/-- What is left when the keys of a note have gone. -/
def Memory.without (memory : Memory) (r : Removal) : Memory :=
  Function.update memory r.place ((memory r.place).diff r.keys)

/-- **Keys that are all there are found one after the other.** -/
theorem deleteAll_eq (place : Place) : ∀ (keys : List Key) (m : Machine), keys <+~ m.memory place →
    (keys.forM (delete place)).run m = .ok () { m with memory := m.memory.without ⟨place, keys⟩ }
  | [], m, _ => by
    rw [Memory.without, List.diff_nil, Function.update_eq_self]
    rfl
  | key :: keys, m, h => by
    have hkey : key ∈ m.memory place := h.subset List.mem_cons_self
    have herase : m.memory.erase place key place = (m.memory place).erase key := Function.update_self ..
    have hrest : keys <+~ m.memory.erase place key place := by
      have hsub := h.erase key
      rwa [List.erase_cons_head, ← herase] at hsub
    rw [forM_cons, bind_of_ok (delete_eq hkey), deleteAll_eq place keys _ hrest]
    simp only [Memory.without, herase, List.diff_cons]
    simp only [Memory.erase, Function.update_idem]

/-- The machine after the meta fields have left the object at a place that held some keys. -/
def Machine.dropped (m : Machine) (options : Options) (place : Place) (path : Pointer) (keys : List Key) : Machine :=
  { m with
    memory := Function.update m.memory place (keys.filter (!options.drops ·))
    told := m.told ++
      if (keys.filter options.drops).length = 0 then [] else [.metaPruned (keys.filter options.drops).length path] }

section

variable {options : Options} {oracle : Oracle} {place : Place} {keys : List Key} {m : Machine}

theorem dropped_memory_self (path : Pointer) :
    (m.dropped options place path keys).memory place = keys.filter (!options.drops ·) := Function.update_self ..

theorem dropped_memory_of_ne (path : Pointer) {p : Place} (h : p ≠ place) :
    (m.dropped options place path keys).memory p = m.memory p := Function.update_of_ne h ..

theorem dropped_memory_sublist (path : Pointer) (hk : m.memory place = keys) (p : Place) :
    (m.dropped options place path keys).memory p <+ m.memory p := by
  by_cases hp : p = place
  · rw [hp, dropped_memory_self, hk]
    exact List.filter_sublist
  · rw [dropped_memory_of_ne path hp]

/-- **Every meta key is there when it is deleted.** -/
theorem dropMeta_eq (path : Pointer) (hk : m.memory place = keys) (hn : keys.Nodup) :
    (dropMeta options place path keys).run m = .ok () (m.dropped options place path keys) := by
  unfold dropMeta Machine.dropped
  cases hp : options.pruneMeta with
  | false =>
    have hd : options.drops = fun _ => false := funext fun key => by simp [Options.drops, hp]
    simp only [hd, Bool.not_false, List.filter_true, List.filter_false, ← hk, Function.update_eq_self]
    simp only [Bool.false_and, Bool.false_eq_true, if_false, List.length_nil, if_true, List.append_nil]
    rfl
  | true =>
    have hd : options.drops = options.isMeta := funext fun key => by simp [Options.drops, hp]
    have hkept : keys.diff (keys.filter options.isMeta) = keys.filter (!options.isMeta ·) := by
      rw [hn.sdiff_eq_filter]
      exact List.filter_congr fun key hm => by simp [hm]
    rw [hd]
    cases hm : keys.filter options.isMeta with
    | nil =>
      rw [hm, List.diff_nil] at hkept
      rw [← hkept, ← hk, Function.update_eq_self]
      simp only [List.isEmpty_nil, Bool.not_true, Bool.and_false, Bool.false_eq_true, if_false, List.length_nil, if_true,
        List.append_nil]
      rfl
    | cons key rest =>
      have hsub : key :: rest <+~ m.memory place := hm ▸ hk ▸ List.filter_sublist.subperm
      simp only [List.isEmpty_cons, Bool.not_false, Bool.and_true, if_true]
      rw [bind_of_ok (deleteAll_eq place _ m hsub), Memory.without, hk, ← hm, hkept]
      simp [hm]
      rfl

/-- **Every declared key is there when it is read.** -/
theorem readAll_eq {parts : List (Key × α)} : ∀ fields : List (Key × α),
    (∀ field ∈ fields, field.1 ∈ m.memory place ∧ Assoc.find? (· == field.1) parts = some field.2) →
    ((fields.map Prod.fst).mapM fun key => return (key, ← read parts place key)).run m = .ok fields m
  | [], _ => rfl
  | (key, part) :: rest, h => by
    obtain ⟨hkey, hpart⟩ := h _ List.mem_cons_self
    have hread : (read parts place key).run m = .ok part m := by
      simp only [read, EStateM.run_bind, EStateM.run_get, if_pos hkey, hpart]
      rfl
    have hrest := readAll_eq rest fun field hf => h field (List.mem_cons_of_mem _ hf)
    simp only [List.map_cons, List.mapM_cons, bind_assoc]
    rw [bind_of_ok hread]
    simp only [pure_bind]
    rw [bind_of_ok hrest]
    rfl

end

/-! ## Memory that holds a value as it was -/

/-- Nothing was deleted yet from the value that stood at a place. -/
def Intact (memory : Memory) (place : Place) (v : Value) : Prop := ∀ rest, memory (place ++ rest) = v.keysAt rest

namespace Intact

variable {memory memory' : Memory} {place : Place}

theorem congr {v : Value} (h : Intact memory place v) (hm : ∀ p ∈ within place, memory' p = memory p) :
    Intact memory' place v := fun rest => (hm _ ⟨rest, rfl⟩).trans (h rest)

theorem keys {fields : List (Key × Value)} (h : Intact memory place (.object fields)) :
    memory place = fields.map Prod.fst := by
  have hroot := h []
  rwa [List.append_nil] at hroot

theorem field {fields : List (Key × Value)} (h : Intact memory place (.object fields)) (hn : (fields.map Prod.fst).Nodup)
    {field : Key × Value} (hf : field ∈ fields) : Intact memory (place ++ [Step.field field.1]) field.2 := fun rest => by
  rw [List.append_assoc, List.singleton_append, h, Value.keysAt, Assoc.find?_of_nodup hn hf]
  rfl

theorem entry {shape : ArrayShape} {entries : List Value} (h : Intact memory place (.array shape entries)) {index : Nat}
    {v : Value} (hv : entries[index]? = some v) : Intact memory (place ++ [Step.entry index]) v := fun rest => by
  rw [List.append_assoc, List.singleton_append, h, Value.keysAt, hv]
  rfl

end Intact

/-! ## A value validated in place -/

section

variable (options : Options) (oracle : Oracle)

/-- What is done with one field of an object. -/
def fieldWork (place : Place) (path : Pointer) (children : List (String × Element)) (field : Key × Value) : Work Unit :=
  match Element.governing? children field.1 with
  | some child => validate options oracle field.2 child (place ++ [Step.field field.1]) (path.push field.1.token)
  | none => pure ()

/-- The fields of an object after its meta fields have left it: the missing ones, and then those that are there. -/
def fieldsWork (place : Place) (path : Pointer) (children : List (String × Element)) (fields : List (Key × Value)) :
    Work Unit := do
  reportMissing options path children (fields.map Prod.fst)
  fields.forM (fieldWork options oracle place path children)

/-- What is done with an object after its meta fields have left it, with the keys that are to be scheduled. -/
def objectWork (place : Place) (path : Pointer) (e : Element) (children : List (String × Element))
    (fields : List (Key × Value)) (keys : List Key) : Work Unit := do
  thenAsk options oracle place path e (.object fields) (fieldsWork options oracle place path children fields)
  if options.pruneUnlisted && !keys.isEmpty then schedule ⟨place, keys⟩

/-- The declared fields of an object, as they are handed on. -/
def declaredParts (children : List (String × Element)) (fields : List (Key × Value)) : List (Key × Handle) :=
  (fields.filter fun field => (Element.governing? children field.1).isSome).map fun field =>
    (field.1, handle options oracle field.2)

variable {options oracle}

theorem keys_declaredParts (children : List (String × Element)) (fields : List (Key × Value)) :
    (declaredParts options oracle children fields).map Prod.fst =
      (fields.map Prod.fst).filter fun key => (Element.governing? children key).isSome := by
  rw [declaredParts, List.map_map, List.filter_map]
  rfl

theorem forM_declaredParts (place : Place) (path : Pointer) (children : List (String × Element)) :
    ∀ fields : List (Key × Value), (declaredParts options oracle children fields).forM (fun field => do
        let child ← childOf children field.1
        field.2.validate child (place ++ [Step.field field.1]) (path.push field.1.token)) =
      fields.forM (fieldWork options oracle place path children)
  | [] => rfl
  | field :: rest => by
    rw [forM_cons, ← forM_declaredParts place path children rest, fieldWork, declaredParts, declaredParts, List.filter_cons]
    cases hg : Element.governing? children field.1 with
    | none => rfl
    | some child =>
      rw [Option.isSome_some, if_pos rfl, List.map_cons, forM_cons]
      simp only [childOf, hg, pure_bind, handle]

/-- **The fields of an object, all of whose keys are there**: the meta fields leave it first. -/
theorem insideObject_eq {place : Place} (path : Pointer) (children : List (String × Element))
    {fields : List (Key × Value)} {m : Machine} (hk : m.memory place = fields.map Prod.fst)
    (hn : (fields.map Prod.fst).Nodup) :
    (insideObject options place path children (fields.map fun field => (field.1, handle options oracle field.2))
      (fields.map Prod.fst)).run m =
      (fieldsWork options oracle place path children fields).run
        (m.dropped options place path (fields.map Prod.fst)) := by
  have hread := readAll_eq (declaredParts options oracle children fields) fun part hpart => by
    obtain ⟨field, hf, rfl⟩ := List.mem_map.1 hpart
    have hmem := List.mem_of_mem_filter hf
    have hparts : ((fields.map fun field => (field.1, handle options oracle field.2)).map Prod.fst).Nodup := by
      rwa [List.map_map]
    exact ⟨hk ▸ List.mem_map_of_mem hmem, Assoc.find?_of_nodup hparts (List.mem_map_of_mem hmem)⟩
  rw [keys_declaredParts] at hread
  unfold insideObject
  rw [bind_of_ok hread, bind_of_ok (dropMeta_eq path hk hn), forM_declaredParts]
  rfl

/-- Work that goes on alike from two machines is judged alike by what it wrote down. -/
theorem thenAsk_run_congr {place : Place} {path : Pointer} {e : Element} {v : Value} {work work' : Work Unit}
    {m m' : Machine} (h : work.run m = work'.run m') (hl : m.ledger = m'.ledger) :
    (thenAsk options oracle place path e v work).run m = (thenAsk options oracle place path e v work').run m' := by
  have hopen : ∀ (work : Work Unit) (m : Machine), (thenAsk options oracle place path e v work).run m =
      (do work; askSince options oracle m.ledger.violations.length place path e v : Work Unit).run m := fun _ _ => rfl
  rw [hopen, hopen, hl, EStateM.run_bind, EStateM.run_bind, h]

/-- **An object is validated without its meta fields.** -/
theorem validate_object_run {place : Place} (path : Pointer) (traits : Traits) (children : List (String × Element))
    {fields : List (Key × Value)} {m : Machine} (hk : m.memory place = fields.map Prod.fst)
    (hn : (fields.map Prod.fst).Nodup) :
    (validate options oracle (.object fields) (.object traits children) place path).run m =
      (objectWork options oracle place path (.object traits children) children fields
        (unlisted options children (fields.map Prod.fst))).run (m.dropped options place path (fields.map Prod.fst)) := by
  have hopen : (validate options oracle (.object fields) (.object traits children) place path).run m =
      (do
        thenAsk options oracle place path (.object traits children) (.object fields)
          (insideObject options place path children (fields.map fun field => (field.1, handle options oracle field.2))
            (m.memory place))
        if options.pruneUnlisted && !(unlisted options children (m.memory place)).isEmpty then
          schedule ⟨place, unlisted options children (m.memory place)⟩ : Work Unit).run m := by
    rw [validate_object]
    rfl
  have hledger : m.ledger = (m.dropped options place path (fields.map Prod.fst)).ledger := rfl
  rw [hopen, hk, objectWork, EStateM.run_bind, EStateM.run_bind,
    thenAsk_run_congr (insideObject_eq path children hk hn) hledger]

/-- The fields of an object at a place from whose values nothing was deleted yet. -/
structure Fresh (memory : Memory) (place : Place) (fields : List (Key × Value)) : Prop where
  keys : (fields.map Prod.fst).Nodup
  intact : ∀ field ∈ fields, Intact memory (place ++ [Step.field field.1]) field.2
  unrepeated : ∀ field ∈ fields, field.2.Unrepeated

theorem Fresh.congr {memory memory' : Memory} {place : Place} {fields : List (Key × Value)}
    (h : Fresh memory place fields) (hm : memory' = memory) : Fresh memory' place fields := hm ▸ h

/-- The values in the fields of an object are as they were when its meta fields have gone. -/
theorem Intact.fresh_dropped {place : Place} {fields : List (Key × Value)} {m : Machine}
    (h : Intact m.memory place (.object fields)) (hu : (Value.object fields).Unrepeated) (options : Options)
    (path : Pointer) : Fresh (m.dropped options place path (fields.map Prod.fst)).memory place fields where
  keys := hu.of_object.1
  intact _ hf := (h.field hu.of_object.1 hf).congr fun _ hp => dropped_memory_of_ne path (ne_of_mem_within hp)
  unrepeated := hu.of_object.2

/-! ## Validating without a fault -/

/-- Work that goes on when the meta fields of an object have gone. -/
theorem Sound.of_dropped {place : Place} {path : Pointer} {keys : List Key} {x y : Work α} {m : Machine}
    (hk : m.memory place = keys) (hrun : x.run m = y.run (m.dropped options place path keys))
    (h : Sound options oracle (within place) y (m.dropped options place path keys)) :
    Sound options oracle (within place) x m where
  advance := by
    have hframe : ∀ p ∉ within place, (m.dropped options place path keys).memory p = m.memory p :=
      fun p hp => dropped_memory_of_ne path fun h => hp (h ▸ List.prefix_rfl)
    rw [after_congr hrun]
    exact h.advance.after_deletion hframe (dropped_memory_sublist path hk) rfl
  honest stop m' he := h.honest stop m' (hrun ▸ he)

/-- The places of what is in a field. -/
def inField (place : Place) (field : Key × Value) : Set Place := within (place ++ [Step.field field.1])

theorem sound_reportMissing (path : Pointer) (children : List (String × Element)) (keys : List Key) (m : Machine) :
    Sound options oracle ∅ (reportMissing options path children keys) m :=
  .forM_quiet fun name _ m' => sound_find (path.push name) m' _

theorem pairwise_inField (place : Place) {fields : List (Key × Value)} (hn : (fields.map Prod.fst).Nodup) :
    fields.Pairwise fun a b => Apart (inField place a) (inField place b) :=
  (List.pairwise_map.1 hn).imp fun hne => apart_within place fun h => hne (Step.field.inj h)

end

/-- Wherever a value is as it was, validating it is sound. -/
def Stands (options : Options) (oracle : Oracle) (v : Value) : Prop := ∀ e place path m, v.Unrepeated →
  Intact m.memory place v → Sound options oracle (within place) (validate options oracle v e place path) m

section

variable {options : Options} {oracle : Oracle} {place : Place} {m : Machine}

theorem sound_fieldWork (path : Pointer) (children : List (String × Element)) {field : Key × Value}
    (hu : field.2.Unrepeated) (ih : Stands options oracle field.2)
    (h : Intact m.memory (place ++ [Step.field field.1]) field.2) :
    Sound options oracle (inField place field) (fieldWork options oracle place path children field) m := by
  unfold fieldWork
  cases Element.governing? children field.1 with
  | none => exact .of_pure ()
  | some child => exact ih child _ _ m hu h

theorem sound_fieldsWork (path : Pointer) (children : List (String × Element)) {fields : List (Key × Value)}
    (h : Fresh m.memory place fields) (ih : ∀ field ∈ fields, Stands options oracle field.2) :
    Sound options oracle {p | ∃ field ∈ fields, p ∈ inField place field}
      (fieldsWork options oracle place path children fields) m := by
  refine (sound_reportMissing path children _ m).bind_quiet fun _ m' _ hm' =>
    .forM (pairwise_inField place h.keys) fun field hf m'' hm'' => ?_
  -- neither the report nor the fields before this one touch what is in it
  exact sound_fieldWork path children (h.unrepeated field hf) (ih field hf) ((h.intact field hf).congr fun p hp =>
    (hm'' p hp).trans (hm'.frame p (Set.notMem_empty p)))

/-- **The keys that an object is scheduled with are left in it**, for only its meta fields have gone. -/
theorem sound_objectWork (path : Pointer) (e : Element) (children : List (String × Element))
    {fields : List (Key × Value)} {keys : List Key} (hk : keys <+ m.memory place) (h : Fresh m.memory place fields)
    (ih : ∀ field ∈ fields, Stands options oracle field.2) :
    Sound options oracle (within place) (objectWork options oracle place path e children fields keys) m := by
  have hapart : place ∉ {p | ∃ field ∈ fields, p ∈ inField place field} :=
    fun ⟨field, _, hp⟩ => ne_of_mem_within hp rfl
  have hsingle : Apart {p | ∃ field ∈ fields, p ∈ inField place field} {place} := fun p hp he =>
    hapart (Set.mem_singleton_iff.1 he ▸ hp)
  refine ((sound_thenAsk path (sound_fieldsWork path children h ih)).bind hsingle fun _ m' _ hm' => ?_).mono ?_
  · split
    · have hrun : (schedule ⟨place, keys⟩).run m' = .ok () { m' with ledger := m'.ledger.note ⟨place, keys⟩ } := rfl
      refine .of_ok hrun
        ⟨fun _ _ => rfl, fun _ => .refl _, [⟨place, keys⟩], rfl, List.nodup_singleton place, fun r hr => ?_⟩
      rw [List.mem_singleton.1 hr]
      exact ⟨rfl, (hm'.frame place hapart).symm ▸ hk⟩
    · exact .of_pure ()
  · rintro p (⟨field, -, hp⟩ | rfl)
    · exact within_mono place _ hp
    · exact List.prefix_rfl

/-- The unlisted keys of an object are left in it when its meta fields have gone. -/
theorem keys_sublist_dropped (path : Pointer) (children : List (String × Element)) {keys : List Key} :
    unlisted options children keys <+ (m.dropped options place path keys).memory place := by
  rw [dropped_memory_self]
  refine List.monotone_filter_right _ fun key hkey => ?_
  simp only [Bool.and_eq_true, Bool.not_eq_true'] at hkey
  simp [Options.drops, hkey.2]

theorem forM_handles (path : Pointer) (slots : List (Kind × Element)) (ordered : List Element) (allowNull : Bool)
    (entries : List Value) :
    (entries.map (handle options oracle)).zipIdx.forM (entryWork options place path slots ordered allowNull) =
      entries.zipIdx.forM fun entry =>
        entryWork options place path slots ordered allowNull (handle options oracle entry.1, entry.2) := by
  rw [List.zipIdx_map, forM_map]
  rfl

theorem pairwise_entries (place : Place) (entries : List Value) :
    entries.zipIdx.Pairwise fun a b =>
      Apart (within (place ++ [Step.entry a.2])) (within (place ++ [Step.entry b.2])) := by
  have hindex : (entries.zipIdx.map Prod.snd).Nodup := by
    rw [List.zipIdx_map_snd]
    exact List.nodup_range'
  exact (List.pairwise_map.1 hindex).imp fun hne => apart_within place fun h => hne (Step.entry.inj h)

theorem sound_entryWork (path : Pointer) (slots : List (Kind × Element)) (ordered : List Element) (allowNull : Bool)
    {index : Nat} {v : Value} (hu : v.Unrepeated) (ih : Stands options oracle v)
    (h : Intact m.memory (place ++ [Step.entry index]) v) : Sound options oracle (within (place ++ [Step.entry index]))
      (entryWork options place path slots ordered allowNull (handle options oracle v, index)) m := by
  unfold entryWork
  cases Element.entryDemand slots ordered allowNull index (handle options oracle v).value with
  | nothing => exact .of_pure ()
  | refused cause => exact (sound_find _ m cause).mono (Set.empty_subset _)
  | governed e => exact ih e _ _ m hu h

theorem sound_contentsWork (path : Pointer) (slots : List (Kind × Element)) (ordered : List Element) (allowNull : Bool)
    {shape : ArrayShape} {entries : List Value} (h : Intact m.memory place (.array shape entries))
    (hu : ∀ v ∈ entries, v.Unrepeated) (ih : ∀ v ∈ entries, Stands options oracle v) :
    Sound options oracle (within place)
      (contentsWork options place path slots ordered allowNull (entries.map (handle options oracle))) m := by
  have heach : Sound options oracle (within place) ((entries.map (handle options oracle)).zipIdx.forM
      (entryWork options place path slots ordered allowNull)) m := by
    rw [forM_handles]
    refine (Sound.forM (pairwise_entries place entries) fun entry hentry m' hm' => ?_).mono
      fun p ⟨entry, _, hp⟩ => within_mono place _ hp
    have hget := List.mem_zipIdx_iff_getElem?.1 hentry
    have hmem := List.mem_of_getElem? hget
    exact sound_entryWork path slots ordered allowNull (hu _ hmem) (ih _ hmem) ((h.entry hget).congr hm')
  unfold contentsWork
  cases ArrayMode.ofContents slots ordered with
  | any =>
    simp only
    split
    · exact (sound_find path m _).mono (Set.empty_subset _)
    · exact .of_pure ()
  | typed | ordered => exact heach

/-- **Validating a value that is as it was stays inside the value and comes upon no fault.** -/
theorem sound_validate (e : Element) (v : Value) : ∀ place path m, v.Unrepeated → Intact m.memory place v →
    Sound options oracle (within place) (validate options oracle v e place path) m := by
  induction e, v using Element.induct with
  | null e =>
    intro place path m _ _
    rw [validate_null]
    split
    · exact .of_pure ()
    · exact (sound_find path m _).mono (Set.empty_subset _)
  | wrong e v hv ha =>
    intro place path m _ _
    rw [validate_wrong options oracle place path hv ha]
    exact (sound_find path m _).mono (Set.empty_subset _)
  | scalar e v hv ha =>
    intro place path m _ _
    rw [validate_scalar options oracle place path hv ha]
    exact (sound_thenAsk path (.forM_quiet fun cause _ m' => sound_find path m' cause)).mono (Set.empty_subset _)
  | object traits children fields ih =>
    intro place path m hu hi
    exact .of_dropped hi.keys (validate_object_run path traits children hi.keys hu.of_object.1)
      (sound_objectWork path (.object traits children) children (keys_sublist_dropped path children)
        (hi.fresh_dropped hu options path) fun field hf e place path m => ih field hf e place path m)
  | array traits slots ordered allowNull shape entries ih =>
    intro place path m hu hi
    by_cases hl : ordered = [] ∨ ordered.length = entries.length
    · rw [validate_array options oracle place path traits slots allowNull shape hl]
      exact sound_thenAsk path (sound_contentsWork path slots ordered allowNull hi hu.of_array
        fun v hv e place path m => ih v hv e place path m)
    · rw [validate_array_of_length_ne options oracle place path traits slots allowNull shape hl]
      exact (sound_find path m _).mono (Set.empty_subset _)

end

end InPlace
end ConfigSchema
