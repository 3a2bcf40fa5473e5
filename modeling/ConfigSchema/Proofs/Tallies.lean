import ConfigSchema.Proofs.Addresses
import ConfigSchema.Proofs.Governed
import ConfigSchema.Proofs.Interrupted
import ConfigSchema.Proofs.Notes
import ConfigSchema.Proofs.Told
/-!
# Tallies — how many fields each object has to lose

Each object that a schema looks into is found again by its place (`Element.objectAt?`), and with it how many of its fields
are meta fields and how many are unlisted.  A walk tells of the meta fields of the objects that it enters, in that order
(`told_prunings`); a clean one has a note for each object with unlisted fields, of just these (`noted_walk`).
-/
namespace ConfigSchema

namespace Element

/-- The object at a place that an object element governs: the children that are declared for it, and its fields. -/
def objectAt? : Place → Element → Value → Option (List (String × Element) × List (Key × Value))
  | [], .object _ children, .object fields => some (children, fields)
  | .field key :: place, .object _ children, .object fields => do
    let child ← governing? children key
    let v ← Assoc.find? (· == key) fields
    objectAt? place child v
  | .entry index :: place, .array _ slots ordered _, .array _ entries => do
    let v ← entries[index]?
    let e ← entry? slots ordered index v
    objectAt? place e v
  | _, _, _ => none

theorem objectAt?_field {traits : Traits} {children : List (String × Element)} {fields : List (Key × Value)}
    {field : Key × Value} {child : Element} (hnames : (fields.filterMap (·.1.name?)).Nodup) (hf : field ∈ fields)
    (hg : governing? children field.1 = some child) (place : Place) :
    objectAt? (.field field.1 :: place) (.object traits children) (.object fields) = objectAt? place child field.2 := by
  obtain ⟨key, v⟩ := field
  cases key with
  | number | null => cases hg
  | name name =>
    simp only [objectAt?, hg, Assoc.find?_of_mem hnames hf, Option.bind_eq_bind, Option.bind_some]

theorem objectAt?_entry {traits : Traits} {slots : List (Kind × Element)} {ordered : List Element} {allowNull : Bool}
    {shape : ArrayShape} {entries : List Value} {index : Nat} {v : Value} {e : Element} (hv : entries[index]? = some v)
    (he : entry? slots ordered index v = some e) (place : Place) :
    objectAt? (.entry index :: place) (.array traits slots ordered allowNull) (.array shape entries) =
      objectAt? place e v := by
  simp only [objectAt?, hv, Option.bind_eq_bind, Option.bind_some, he]

end Element

/-- How many fields of the object at a place are meta fields. -/
def Options.metaAt (o : Options) (e : Element) (v : Value) (place : Place) : Nat :=
  ((e.objectAt? place v).map fun object => (object.2.filter (o.isMeta ·.1)).length).getD 0

namespace Setting

/-- How many fields of the object at a place are neither declared nor meta. -/
def unlistedAt (s : Setting) (e : Element) (v : Value) (place : Place) : Nat :=
  ((e.objectAt? place v).map fun object => (s.unlistedKeys object.1 object.2).length).getD 0

/-- How many fields the run takes out of the object at a place, and where it stands, if the options want meta fields out
and the object has any. -/
def pruningAt? (s : Setting) (path : Pointer) (e : Element) (v : Value) (place : Place) : Option (Nat × Pointer) :=
  if s.options.pruneMeta = true ∧ 0 < s.options.metaAt e v place then
    some (s.options.metaAt e v place, path.along place)
  else none

end Setting

def Event.pruning? : Event → Option (Nat × Pointer)
  | .metaPruned count path => some (count, path)
  | _ => none

namespace Walk

variable {α β : Type} {f : Nat → α → Walk α} {step : Nat → α → Step}

/-- **A walk of a list tells of the places that it enters** what its parts tell of them. -/
theorem told_each_entered {p : Event → Option β} {entered : Nat → α → List Place} {g : Place → Option β} :
    ∀ {index : Nat} {parts : List α}, (∀ i a, parts[i]? = some a → (f (index + i) a).trail.told p =
      (entered (index + i) a).filterMap fun place => g (step (index + i) a :: place)) →
      (each f index parts).trail.told p = (enteredIn f step entered index parts).filterMap g
  | _, [], _ => rfl
  | index, a :: rest, h => by
    have hhead : (f index a).trail.told p = ((entered index a).map (step index a :: ·)).filterMap g := by
      rw [List.filterMap_map]
      exact h 0 a rfl
    rw [each, trail_cons, enteredIn, List.filterMap_append]
    cases hh : (f index a).trail.halt with
    | some halt =>
      rw [Trail.andThen_of_some hh, hhead]
      exact (List.append_nil _).symm
    | none =>
      have hrest : (each f (index + 1) rest).trail.told p =
          (enteredIn f step entered (index + 1) rest).filterMap g := told_each_entered fun i b hb => by
        rw [Nat.add_right_comm, Nat.add_assoc]
        exact h (i + 1) b hb
      rw [Trail.told_andThen p hh, hhead, hrest]
      rfl

/-- **A walk of a list that goes through has the notes of its parts**, here by how many keys they name. -/
theorem noted_each (step : Nat → α → Step) (places : Nat → α → List Place) (count : Place → Nat) :
    ∀ {index : Nat} {parts : List α},
    (each f index parts).trail.halt = none → (∀ i a, parts[i]? = some a →
      ((f (index + i) a).trail.unlisted.map (·.keys.length)).Perm
        (((places (index + i) a).map fun place => count (step (index + i) a :: place)).filter (0 < ·))) →
      ((each f index parts).trail.unlisted.map (·.keys.length)).Perm
        (((Place.gather (held step places index parts)).map count).filter (0 < ·))
  | _, [], _, _ => .nil
  | index, a :: rest, hhalt, h => by
    rw [each, trail_cons] at hhalt ⊢
    obtain ⟨ha, hrest⟩ := Trail.halt_andThen_eq_none.1 hhalt
    have hnoted := noted_each step places count hrest fun i b hb => by
      rw [Nat.add_right_comm, Nat.add_assoc]
      exact h (i + 1) b hb
    rw [Trail.unlisted_andThen ha, List.map_append, held_cons, Place.gather_cons, List.map_append, List.filter_append,
      List.map_map]
    exact (h 0 a rfl).append hnoted

end Walk

namespace Setting

variable {s : Setting}

/-! ## Meta fields -/

theorem told_dropMeta (path : Pointer) (traits : Traits) (children : List (String × Element))
    (fields : List (Key × Value)) : (s.dropMeta path fields).told Event.pruning? =
      [[]].filterMap (s.pruningAt? path (.object traits children) (.object fields)) := by
  have hcount : s.options.metaAt (.object traits children) (.object fields) [] =
      (fields.filter (s.options.isMeta ·.1)).length := rfl
  rw [List.filterMap_cons, List.filterMap_nil, pruningAt?, hcount, dropMeta]
  cases hp : s.options.pruneMeta with
  | false =>
    have hnone : (fields.filter (s.options.drops ·.1)).length = 0 := by simp [Options.drops, hp]
    simp only [hnone, if_true, Bool.false_eq_true, false_and, if_false]
    rfl
  | true =>
    have hdrops : (fields.filter (s.options.drops ·.1)) = fields.filter (s.options.isMeta ·.1) :=
      List.filter_congr fun field _ => by rw [Options.drops, hp, Bool.true_and]
    simp only [hdrops, true_and]
    by_cases h : (fields.filter (s.options.isMeta ·.1)).length = 0
    · simp only [h, if_true, Nat.lt_irrefl, if_false]
      rfl
    · simp only [h, if_false, Nat.pos_of_ne_zero h, if_true]
      rfl

/-- Walks of a value tell of the meta fields of the objects that they enter. -/
def TellsPrunings (s : Setting) (v : Value) : Prop := ∀ e path, v.Distinct →
  (s.walk path e v).trail.told Event.pruning? = (s.entered path e v).filterMap (s.pruningAt? path e v)

theorem told_prunings_object {fields : List (Key × Value)} (hd : (Value.object fields).Distinct)
    (ih : ∀ field ∈ fields, s.TellsPrunings field.2) (path : Pointer) (traits : Traits)
    (children : List (String × Element)) :
    (s.walk path (.object traits children) (.object fields)).trail.told Event.pruning? =
      (s.entered path (.object traits children) (.object fields)).filterMap
        (s.pruningAt? path (.object traits children) (.object fields)) := by
  obtain ⟨hnames, heach⟩ := hd.of_object
  have hopening : ((s.dropMeta path fields).andThen (s.reportMissing path children fields)).told Event.pruning? =
      [[]].filterMap (s.pruningAt? path (.object traits children) (.object fields)) := by
    rw [Trail.told_andThen_nil (told_reportMissing_nil path (fun _ => rfl) children fields),
      told_dropMeta path traits children]
  have hinside : (Walk.each (fun _ => s.walkField path children) 0 fields).trail.told Event.pruning? =
      (s.enteredFields path children fields).filterMap
        (s.pruningAt? path (.object traits children) (.object fields)) := by
    rw [s.enteredFields_eq_enteredIn path children 0]
    refine Walk.told_each_entered fun i field hi => ?_
    have hf := List.mem_of_getElem? hi
    unfold walkField enteredField
    cases hg : Element.governing? children field.1 with
    | none => rfl
    | some child =>
      refine (ih field hf child (path.push field.1.token) (heach field hf)).trans (List.filterMap_congr fun place _ => ?_)
      simp only [pruningAt?, Options.metaAt, Element.objectAt?_field hnames hf hg]
      rfl
  rw [walk_object, trail_walkObject, Trail.told_andThen_nil (told_noteUnlisted_nil children fields),
    Trail.told_andIfClean_nil (told_askAll_nil path (fun _ => rfl) (fun _ _ _ => rfl) _ _), entered_object]
  cases ho : ((s.dropMeta path fields).andThen (s.reportMissing path children fields)).halt with
  | some halt =>
    rw [Trail.andThen_of_some ho, hopening]
    rfl
  | none =>
    rw [Trail.told_andThen _ ho, hopening, hinside, ← List.filterMap_append]
    rfl

theorem told_prunings_contents {entries : List Value} (hd : ∀ v ∈ entries, v.Distinct)
    (ih : ∀ v ∈ entries, s.TellsPrunings v) (path : Pointer) (traits : Traits) (slots : List (Kind × Element))
    (ordered : List Element) (allowNull : Bool) (shape : ArrayShape) :
    (s.walkContents path slots ordered allowNull entries).trail.told Event.pruning? =
      (s.enteredContents path slots ordered allowNull entries).filterMap
        (s.pruningAt? path (.array traits slots ordered allowNull) (.array shape entries)) := by
  unfold walkContents enteredContents
  cases hm : ArrayMode.ofContents slots ordered with
  | any => exact told_anyEntries_nil path (fun _ => rfl) allowNull entries
  | typed | ordered =>
    refine Walk.told_each_entered fun i v hi => ?_
    have hv := List.mem_of_getElem? hi
    rw [Nat.zero_add]
    unfold walkEntry enteredEntry
    cases hdemand : Element.entryDemand slots ordered allowNull i v with
    | nothing => rfl
    | refused cause => exact told_found_nil _ (fun _ => rfl) cause
    | governed e =>
      refine (ih v hv e (path.entry i) (hd v hv)).trans (List.filterMap_congr fun place _ => ?_)
      simp only [pruningAt?, Options.metaAt,
        Element.objectAt?_entry hi (Element.entryDemand_eq_governed hdemand).2]
      rfl

/-- **A walk tells of the meta fields of every object that it enters**, in that order, and of no others. -/
theorem told_prunings (e : Element) (v : Value) : ∀ path, v.Distinct →
    (s.walk path e v).trail.told Event.pruning? = (s.entered path e v).filterMap (s.pruningAt? path e v) := by
  induction e, v using Element.induct with
  | null e =>
    intro path _
    rw [walk_null]
    exact told_nullField_nil path (fun _ => rfl) e
  | wrong e v hv ha =>
    intro path _
    rw [walk_wrong s path hv ha, s.entered_of_not_accepts path ha]
    exact told_found_nil path (fun _ => rfl) _
  | scalar e v hv ha =>
    intro path _
    rw [walk_scalar s path hv ha, s.entered_scalar path e hv,
      Trail.told_andIfClean_nil (told_askAll_nil path (fun _ => rfl) (fun _ _ _ => rfl) e v)]
    exact told_foundAll_nil path (fun _ => rfl) _
  | object traits children fields ih =>
    intro path hd
    exact told_prunings_object hd (fun field hf e path => ih field hf e path) path traits children
  | array traits slots ordered allowNull shape entries ih =>
    intro path hd
    by_cases hl : ordered = [] ∨ ordered.length = entries.length
    · rw [walk_array s path traits slots allowNull shape hl, trail_walkArray,
        Trail.told_andIfClean_nil (told_askAll_nil path (fun _ => rfl) (fun _ _ _ => rfl) _ _),
        s.entered_array path traits slots allowNull shape hl]
      exact told_prunings_contents hd.of_array (fun v hv e path => ih v hv e path) path traits slots ordered allowNull shape
    · rw [walk_array_of_length_ne s path traits slots allowNull shape hl,
        s.entered_array_of_length_ne path traits slots allowNull shape hl]
      exact told_found_nil path (fun _ => rfl) _

/-! ## Unlisted fields -/

/-- How many fields of the object at a place are noted. -/
def notedAt (s : Setting) (e : Element) (v : Value) (place : Place) : Nat :=
  if s.options.pruneUnlisted then s.unlistedAt e v place else 0

theorem noted_noteUnlisted (traits : Traits) (children : List (String × Element)) (fields : List (Key × Value)) :
    (s.noteUnlisted children fields).unlisted.map (·.keys.length) =
      ([[]].map (s.notedAt (.object traits children) (.object fields))).filter (0 < ·) := by
  have hcount : s.unlistedAt (.object traits children) (.object fields) [] = (s.unlistedKeys children fields).length := rfl
  rw [List.map_singleton, notedAt, hcount, noteUnlisted]
  cases s.options.pruneUnlisted with
  | false => rfl
  | true => cases s.unlistedKeys children fields <;> rfl

/-- The notes of clean walks of a value. -/
def NotesUnlisted (s : Setting) (v : Value) : Prop := ∀ e path, v.Distinct → (s.walk path e v).trail.Clean →
  ((s.walk path e v).trail.unlisted.map (·.keys.length)).Perm (((e.reached v).map (s.notedAt e v)).filter (0 < ·))

theorem noted_walkObject {fields : List (Key × Value)} (hd : (Value.object fields).Distinct)
    (ih : ∀ field ∈ fields, s.NotesUnlisted field.2) {path : Pointer} {traits : Traits}
    {children : List (String × Element)} (h : (s.walk path (.object traits children) (.object fields)).trail.Clean) :
    ((s.walk path (.object traits children) (.object fields)).trail.unlisted.map (·.keys.length)).Perm
      ((((Element.object traits children).reached (.object fields)).map
        (s.notedAt (.object traits children) (.object fields))).filter (0 < ·)) := by
  obtain ⟨hnames, heach⟩ := hd.of_object
  rw [walk_object] at h ⊢
  have hi := (s.clean_walkObject.1 h).2.1
  have hinside := Walk.noted_each (fun _ field => .field field.1) (fun _ => Element.reachedField children)
    (s.notedAt (.object traits children) (.object fields)) hi.halt fun i field hget => by
      have hf := List.mem_of_getElem? hget
      have hc := Walk.clean_each.1 hi i field hget
      unfold walkField Element.reachedField at *
      cases hg : Element.governing? children field.1 with
      | none => exact .nil
      | some child =>
        simp only [hg, Walk.trail_under, Walk.trail_map, Trail.clean_under] at hc
        simp only [Walk.trail_under, Walk.trail_map, Trail.under, List.map_map]
        simp only [notedAt, unlistedAt, Element.objectAt?_field hnames hf hg]
        exact ih field hf child _ (heach field hf) hc
  have hheld : Walk.held (fun _ field => .field field.1) (fun _ => Element.reachedField children) 0 fields =
      fields.map fun field => (.field field.1, Element.reachedField children field) := Walk.mapIdx_const _ _
  rw [hheld] at hinside
  rw [s.unlisted_walkObject h, List.map_append, noted_noteUnlisted traits children, Element.reached_object]
  -- the object's own note comes last, but the object is reached first
  refine (hinside.append_right _).trans (List.perm_append_comm.trans (.of_eq ?_))
  rw [← List.filter_append, ← List.map_append]
  rfl

theorem noted_walkContents {entries : List Value} (hd : ∀ v ∈ entries, v.Distinct)
    (ih : ∀ v ∈ entries, s.NotesUnlisted v) {path : Pointer} (traits : Traits) {slots : List (Kind × Element)}
    {ordered : List Element} {allowNull : Bool} (shape : ArrayShape)
    (h : (s.walkContents path slots ordered allowNull entries).trail.Clean) :
    ((s.walkContents path slots ordered allowNull entries).trail.unlisted.map (·.keys.length)).Perm
      (((Place.gather (entries.mapIdx fun i v => (.entry i, Element.reachedEntry slots ordered i v))).map
        (s.notedAt (.array traits slots ordered allowNull) (.array shape entries))).filter (0 < ·)) := by
  unfold walkContents at *
  cases hm : ArrayMode.ofContents slots ordered with
  | any =>
    have hnone : Place.gather (entries.mapIdx fun i v => (.entry i, Element.reachedEntry slots ordered i v)) = [] := by
      refine Place.gather_eq_nil fun part hp => ?_
      obtain ⟨i, hi, rfl⟩ := List.mem_mapIdx.1 hp
      simp only [Element.reachedEntry, Element.entry?, hm]
    simp only [hnone, anyEntries]
    split <;> exact .nil
  | typed | ordered =>
    simp only [hm] at h
    have hinside := Walk.noted_each (fun index _ => .entry index) (Element.reachedEntry slots ordered)
      (s.notedAt (.array traits slots ordered allowNull) (.array shape entries)) h.halt fun i v hget => by
        have hv := List.mem_of_getElem? hget
        have hc := Walk.clean_each.1 h i v hget
        rw [Nat.zero_add] at hc ⊢
        unfold walkEntry Element.reachedEntry at *
        cases hdemand : Element.entryDemand slots ordered allowNull i v with
        | nothing =>
          rw [(Element.entryDemand_eq_nothing hdemand).1]
          cases Element.entry? slots ordered i .null <;> exact .nil
        | refused cause =>
          rw [hdemand] at hc
          exact absurd hc (s.not_clean_found _ cause)
        | governed e =>
          have he := (Element.entryDemand_eq_governed hdemand).2
          simp only [hdemand, Walk.trail_under, Trail.clean_under] at hc
          simp only [he, Walk.trail_under, Trail.under, List.map_map]
          simp only [notedAt, unlistedAt, Element.objectAt?_entry hget he]
          exact ih v hv e _ (hd v hv) hc
    simpa only [Walk.held, Nat.zero_add] using hinside

/-- **A clean walk notes the unlisted fields of every object that has any**, once each. -/
theorem noted_walk (e : Element) (v : Value) : ∀ path, v.Distinct → (s.walk path e v).trail.Clean →
    ((s.walk path e v).trail.unlisted.map (·.keys.length)).Perm
      (((e.reached v).map (s.notedAt e v)).filter (0 < ·)) := by
  induction e, v using Element.induct with
  | null e =>
    intro path _ _
    rw [walk_null]
    unfold nullField
    split <;> exact .nil
  | wrong e v hv ha =>
    intro path _ h
    rw [walk_wrong s path hv ha] at h
    exact absurd h (s.clean_wrongKind path e v)
  | scalar e v hv ha =>
    intro path _ h
    rw [walk_scalar s path hv ha] at h ⊢
    obtain ⟨hc, -⟩ := Trail.clean_andIfClean.1 h
    rw [Trail.andIfClean_of_nil hc.violations, Trail.unlisted_andThen hc.halt, unlisted_foundAll, unlisted_askAll,
      Element.reached_scalar e hv]
    exact .nil
  | object traits children fields ih =>
    intro path hd h
    exact noted_walkObject hd (fun field hf e path => ih field hf e path) h
  | array traits slots ordered allowNull shape entries ih =>
    intro path hd h
    by_cases hl : ordered = [] ∨ ordered.length = entries.length
    · rw [walk_array s path traits slots allowNull shape hl] at h ⊢
      rw [s.unlisted_walkArray h, Element.reached_array traits slots allowNull shape hl]
      exact noted_walkContents hd.of_array (fun v hv e path => ih v hv e path) traits shape (s.clean_walkArray.1 h).1
    · rw [walk_array_of_length_ne s path traits slots allowNull shape hl] at h
      exact absurd h (s.not_clean_found path _)

end Setting
end ConfigSchema
