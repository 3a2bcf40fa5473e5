import ConfigSchema.Proofs.Descent
/-!
# Reached — the objects of a document that a schema looks into

A walk that goes through enters every object that an object element governs, an object before those inside it, in the
order of the document (`Element.reached`).  `Options.shed` says what is left of a value if the objects at some places lose
their meta fields and nothing else changes.
-/
namespace ConfigSchema

/-- Places in parts of a value, seen from one step further out. -/
def Place.gather (parts : List (Step × List Place)) : List Place := parts.flatMap fun part => part.2.map (part.1 :: ·)

/-- Parts that two steps, if they are the same, lead to without any place in them. -/
def Place.Apart (parts : List (Step × List Place)) : Prop := parts.Pairwise fun a b => a.1 = b.1 → a.2 = [] ∧ b.2 = []

namespace Place

variable {step : Step} {place : Place} {places : List Place} {parts : List (Step × List Place)}

theorem gather_cons (step : Step) (places : List Place) (parts : List (Step × List Place)) :
    gather ((step, places) :: parts) = places.map (step :: ·) ++ gather parts := List.flatMap_cons ..

theorem gather_eq_nil (h : ∀ part ∈ parts, part.2 = []) : gather parts = [] :=
  List.flatMap_eq_nil_iff.2 fun part hp => by rw [h part hp]; rfl

theorem mem_gather : step :: place ∈ gather parts ↔ ∃ places, (step, places) ∈ parts ∧ place ∈ places := by
  rw [gather, List.mem_flatMap]
  constructor
  · rintro ⟨⟨step', places⟩, hp, hm⟩
    obtain ⟨place', hplace, heq⟩ := List.mem_map.1 hm
    cases heq
    exact ⟨places, hp, hplace⟩
  · rintro ⟨places, hp, hm⟩
    exact ⟨(step, places), hp, List.mem_map_of_mem hm⟩

theorem nil_not_mem_gather : [] ∉ gather parts := by
  intro h
  obtain ⟨part, -, hm⟩ := List.mem_flatMap.1 h
  obtain ⟨place, -, heq⟩ := List.mem_map.1 hm
  cases heq

theorem cons_mem_map {step' : Step} : step' :: place ∈ places.map (step :: ·) ↔ step' = step ∧ place ∈ places := by
  rw [List.mem_map]
  constructor
  · rintro ⟨place', hp, heq⟩
    cases heq
    exact ⟨rfl, hp⟩
  · rintro ⟨rfl, hp⟩
    exact ⟨place, hp, rfl⟩

theorem Apart.not_mem_gather (h : Apart ((step, places) :: parts)) : step :: place ∉ gather parts := by
  intro hm
  obtain ⟨places', hp', hplace⟩ := mem_gather.1 hm
  have hnil : places' = [] := ((List.pairwise_cons.1 h).1 _ hp' rfl).2
  rw [hnil] at hplace
  cases hplace

theorem Apart.not_mem_map {step' : Step} {places' : List Place} (h : Apart ((step, places) :: parts))
    (hp : (step', places') ∈ parts) : step' :: place ∉ places.map (step :: ·) := by
  intro hm
  obtain ⟨hstep, hplace⟩ := cons_mem_map.1 hm
  have hnil : places = [] := ((List.pairwise_cons.1 h).1 _ hp hstep.symm).1
  rw [hnil] at hplace
  cases hplace

end Place

namespace Element

mutual

/-- The places of the objects that an object element governs, an object before those inside it. -/
def reached (e : Element) : Value → List Place
  | .object fields =>
    match e with
    | .object _ children => [] :: reachedFields children fields
    | _ => []
  | .array _ entries =>
    match e with
    | .array _ slots ordered _ =>
      if ordered = [] ∨ ordered.length = entries.length then reachedEntries slots ordered 0 entries else []
    | _ => []
  | _ => []

def reachedFields (children : List (String × Element)) : List (Key × Value) → List Place
  | [] => []
  | (key, v) :: rest =>
    match governing? children key with
    | some child => (reached child v).map (.field key :: ·) ++ reachedFields children rest
    | none => reachedFields children rest

def reachedEntries (slots : List (Kind × Element)) (ordered : List Element) (index : Nat) : List Value → List Place
  | [] => []
  | v :: rest =>
    match entry? slots ordered index v with
    | some e => (reached e v).map (.entry index :: ·) ++ reachedEntries slots ordered (index + 1) rest
    | none => reachedEntries slots ordered (index + 1) rest

end

def reachedField (children : List (String × Element)) (field : Key × Value) : List Place :=
  match governing? children field.1 with
  | some child => child.reached field.2
  | none => []

def reachedEntry (slots : List (Kind × Element)) (ordered : List Element) (index : Nat) (v : Value) : List Place :=
  match entry? slots ordered index v with
  | some e => e.reached v
  | none => []

theorem reachedFields_eq_gather (children : List (String × Element)) : ∀ (fields : List (Key × Value)),
    reachedFields children fields =
      Place.gather (fields.map fun field => (.field field.1, reachedField children field))
  | [] => rfl
  | (key, v) :: rest => by
    rw [reachedFields, reachedFields_eq_gather children rest, List.map_cons, Place.gather_cons, reachedField]
    cases governing? children key <;> rfl

theorem reachedEntries_eq_gather (slots : List (Kind × Element)) (ordered : List Element) :
    ∀ (index : Nat) (entries : List Value), reachedEntries slots ordered index entries =
      Place.gather (entries.mapIdx fun i v => (.entry (index + i), reachedEntry slots ordered (index + i) v))
  | _, [] => rfl
  | index, v :: rest => by
    rw [reachedEntries, reachedEntries_eq_gather slots ordered (index + 1) rest, List.mapIdx_cons, Place.gather_cons,
      reachedEntry]
    simp only [Nat.add_zero, Nat.add_assoc, Nat.add_comm 1]
    cases entry? slots ordered index v <;> rfl

theorem reached_object (traits : Traits) (children : List (String × Element)) (fields : List (Key × Value)) :
    (Element.object traits children).reached (.object fields) =
      [] :: Place.gather (fields.map fun field => (.field field.1, reachedField children field)) := by
  rw [reached, reachedFields_eq_gather]

theorem reached_array (traits : Traits) (slots : List (Kind × Element)) {ordered : List Element} (allowNull : Bool)
    (shape : ArrayShape) {entries : List Value} (h : ordered = [] ∨ ordered.length = entries.length) :
    (Element.array traits slots ordered allowNull).reached (.array shape entries) =
      Place.gather (entries.mapIdx fun i v => (.entry i, reachedEntry slots ordered i v)) := by
  rw [reached, if_pos h, reachedEntries_eq_gather]
  simp only [Nat.zero_add]

theorem reached_array_of_length_ne (traits : Traits) (slots : List (Kind × Element)) {ordered : List Element}
    (allowNull : Bool) (shape : ArrayShape) {entries : List Value}
    (h : ¬ (ordered = [] ∨ ordered.length = entries.length)) :
    (Element.array traits slots ordered allowNull).reached (.array shape entries) = [] := by
  rw [reached, if_neg h]

theorem reached_of_not_accepts {e : Element} {v : Value} (h : e.accepts v = false) : e.reached v = [] := by
  cases v with
  | object fields =>
    cases e with
    | object => cases h
    | array | string | number | boolean => rfl
  | array shape entries =>
    cases e with
    | array => cases h
    | object | string | number | boolean => rfl
  | null | boolean | number | string | foreign => rfl

theorem reached_scalar (e : Element) {v : Value} (h : v.isScalar = true) : e.reached v = [] := by
  cases v with
  | null | array | object => cases h
  | boolean | number | string | foreign => rfl

theorem apart_reachedFields (children : List (String × Element)) {fields : List (Key × Value)}
    (h : (fields.filterMap (·.1.name?)).Nodup) :
    Place.Apart (fields.map fun field => (.field field.1, reachedField children field)) := by
  -- two fields of one key have no name, and only a name is ever declared
  refine List.pairwise_map.2 ((List.pairwise_filterMap.1 h).imp ?_)
  intro a b hne hstep
  have hkey : a.1 = b.1 := Step.field.inj hstep
  unfold reachedField
  rw [← hkey]
  cases hk : a.1 with
  | name text => exact absurd rfl (hne text (by rw [hk]; rfl) text (by rw [← hkey, hk]; rfl))
  | number | null => exact ⟨rfl, rfl⟩

theorem apart_reachedEntries (places : Nat → Value → List Place) (entries : List Value) :
    Place.Apart (entries.mapIdx fun i v => (.entry i, places i v)) := by
  refine List.pairwise_iff_getElem.2 fun i j hi hj hlt hstep => ?_
  simp only [List.getElem_mapIdx, Step.entry.injEq] at hstep
  exact absurd hstep (Nat.ne_of_lt hlt)

end Element

namespace Options

variable (o : Options)

mutual

/-- What is left of a value if the objects at the places that are `entered` lose their meta fields. -/
def shed (entered : Place → Bool) : Value → Value
  | .object fields => .object (shedFields entered fields)
  | .array shape entries => .array shape (shedEntries entered 0 entries)
  | v => v

def shedFields (entered : Place → Bool) : List (Key × Value) → List (Key × Value)
  | [] => []
  | (key, v) :: rest =>
    if entered [] && o.drops key then shedFields entered rest
    else (key, shed (fun place => entered (.field key :: place)) v) :: shedFields entered rest

def shedEntries (entered : Place → Bool) (index : Nat) : List Value → List Value
  | [] => []
  | v :: rest => shed (fun place => entered (.entry index :: place)) v :: shedEntries entered (index + 1) rest

end

def shedField (entered : Place → Bool) (field : Key × Value) : Key × Value := (field.1, o.shed entered field.2)

theorem shedFields_eq (entered : Place → Bool) : ∀ (fields : List (Key × Value)), o.shedFields entered fields =
    (fields.map fun field => o.shedField (fun place => entered (.field field.1 :: place)) field).filter
      fun field => !(entered [] && o.drops field.1)
  | [] => rfl
  | (key, v) :: rest => by
    rw [shedFields, shedFields_eq entered rest, List.map_cons, List.filter_cons, shedField]
    cases entered [] && o.drops key <;> rfl

theorem shedEntries_eq (entered : Place → Bool) : ∀ (index : Nat) (entries : List Value),
    o.shedEntries entered index entries =
      entries.mapIdx fun i v => o.shed (fun place => entered (.entry (index + i) :: place)) v
  | _, [] => rfl
  | index, v :: rest => by
    rw [shedEntries, shedEntries_eq entered (index + 1) rest, List.mapIdx_cons]
    simp only [Nat.add_zero, Nat.add_assoc, Nat.add_comm 1]

theorem shed_object (entered : Place → Bool) (fields : List (Key × Value)) : o.shed entered (.object fields) =
    .object ((fields.map fun field => o.shedField (fun place => entered (.field field.1 :: place)) field).filter
      fun field => !(entered [] && o.drops field.1)) := by
  rw [shed, shedFields_eq]

theorem shed_array (entered : Place → Bool) (shape : ArrayShape) (entries : List Value) :
    o.shed entered (.array shape entries) =
      .array shape (entries.mapIdx fun i v => o.shed (fun place => entered (.entry i :: place)) v) := by
  rw [shed, shedEntries_eq]
  simp only [Nat.zero_add]

theorem shed_scalar (entered : Place → Bool) {v : Value} (h : v.isScalar = true) : o.shed entered v = v := by
  cases v with
  | null | array | object => cases h
  | boolean | number | string | foreign => rfl

/-- **Nothing changes where no object loses a field**: none is entered, or the options leave meta fields alone. -/
theorem shed_eq_self (v : Value) : ∀ {entered : Place → Bool}, (∀ place key, entered place = true → o.drops key = false) →
    o.shed entered v = v := by
  induction v using Value.induct with
  | null => exact fun _ => rfl
  | scalar v h => exact fun _ => o.shed_scalar _ h
  | array shape entries ih =>
    intro entered h
    rw [shed_array]
    congr 1
    refine List.mapIdx_eq_iff.2 fun i => ?_
    cases hv : entries[i]? with
    | none => rfl
    | some v => rw [Option.map_some, ih v (List.mem_of_getElem? hv) fun place key => h _ key]
  | object fields ih =>
    intro entered h
    have hkeep : ∀ field : Key × Value, (!(entered [] && o.drops field.1)) = true := by
      intro field
      cases hroot : entered [] with
      | false => rfl
      | true => rw [h [] field.1 hroot]; rfl
    have hfields : (fields.map fun field => o.shedField (fun place => entered (.field field.1 :: place)) field) = fields := by
      refine (List.map_congr_left fun field hf => ?_).trans (List.map_id fields)
      rw [shedField, ih field hf fun place key => h _ key]
      rfl
    rw [shed_object, hfields, List.filter_eq_self.2 fun field _ => hkeep field]

theorem shed_none (v : Value) : o.shed (fun _ => false) v = v := o.shed_eq_self v fun _ _ h => by cases h

/-- **Only meta fields go**: whichever objects lost theirs, without all meta fields the value is the same. -/
theorem shed_shed (v : Value) : ∀ (entered : Place → Bool),
    o.shed (fun _ => true) (o.shed entered v) = o.shed (fun _ => true) v := by
  induction v using Value.induct with
  | null => exact fun _ => rfl
  | scalar v h => exact fun _ => by rw [o.shed_scalar _ h]
  | array shape entries ih =>
    intro entered
    rw [shed_array, shed_array, shed_array, List.mapIdx_mapIdx]
    congr 1
    exact List.mapIdx_eq_mapIdx_iff.2 fun i hi => ih _ (List.getElem_mem hi) _
  | object fields ih =>
    intro entered
    -- what the first shedding takes out the second one would have taken out as well
    have hkept : ∀ field : Key × Value,
        (!o.drops field.1 && !(entered [] && o.drops field.1)) = !o.drops field.1 := by
      intro field
      cases entered [] <;> cases o.drops field.1 <;> rfl
    have hfield : ∀ field ∈ fields, o.shedField (fun _ => true)
        (o.shedField (fun place => entered (.field field.1 :: place)) field) = o.shedField (fun _ => true) field :=
      fun field hf => congrArg (field.1, ·) (ih field hf _)
    rw [shed_object, shed_object, shed_object, List.filter_map, List.filter_filter]
    simp only [Function.comp_def, shedField, Bool.true_and, hkept]
    rw [List.filter_map, List.map_map, List.filter_map]
    congr 1
    exact List.map_congr_left fun field hf => hfield field (List.mem_filter.1 hf).1

end Options
end ConfigSchema
