import ConfigSchema.Proofs.Distinct
import ConfigSchema.Proofs.Endpoint
import ConfigSchema.Proofs.Entrances
import ConfigSchema.Proofs.Runs
/-!
# Interrupted — what a run that ends early has taken out

A run that ends early, at its first violation or by a validator that fails, has entered the first of the objects that a
complete run enters, among them all that stand around the value at which it ends.  Just these have lost their meta fields,
and nothing else is gone (`document_run_of_error`).
-/
namespace ConfigSchema

/-- Of the places that a walk comes to, those that it has `entered` by its end: the first ones, all if it goes through, and
in any case those on the way to the place where it ends. -/
structure Trail.Entered (t : Trail) (places : List Place) (ends : Place) (entered : List Place) : Prop where
  first : entered <+: places
  all : t.halt = none → entered = places
  around : ∀ place ∈ places, place <+: ends → place ∈ entered

theorem Trail.entered_nil (t : Trail) (ends : Place) : t.Entered [] ends [] := ⟨List.prefix_rfl, fun _ => rfl, fun _ h _ => h⟩

namespace Walk

variable {α : Type} {f : Nat → α → Walk α} {step : Nat → α → Step} {places entered : Nat → α → List Place}
  {ends : Nat → α → Place} {shed : (Place → Bool) → α → α} {index : Nat} {a : α} {rest : List α}

/-- The parts of a list from one index on, each with the step to it and the places that it holds. -/
def held (step : Nat → α → Step) (places : Nat → α → List Place) (index : Nat) (parts : List α) :
    List (Step × List Place) := parts.mapIdx fun i a => (step (index + i) a, places (index + i) a)

theorem held_cons : held step places index (a :: rest) =
    (step index a, places index a) :: held step places (index + 1) rest := by
  rw [held, List.mapIdx_cons, held]
  simp only [Nat.add_zero, Nat.add_assoc, Nat.add_comm 1]

theorem mem_held {i : Nat} (hi : i < rest.length) :
    (step (index + i) rest[i], places (index + i) rest[i]) ∈ held step places index rest := List.mem_mapIdx.2 ⟨i, hi, rfl⟩

/-- What is left of each part if the places that are `entered` lie in the parts. -/
def shedEach (step : Nat → α → Step) (shed : (Place → Bool) → α → α) (entered : List Place) (index : Nat) (parts : List α) :
    List α := parts.mapIdx fun i a => shed (fun place => entered.contains (step (index + i) a :: place)) a

theorem shedEach_cons (entered : List Place) : shedEach step shed entered index (a :: rest) =
    shed (fun place => entered.contains (step index a :: place)) a :: shedEach step shed entered (index + 1) rest := by
  rw [shedEach, List.mapIdx_cons, shedEach]
  simp only [Nat.add_zero, Nat.add_assoc, Nat.add_comm 1]

/-- A walk that ends in the first part has entered only places in it. -/
theorem entered_cons_of_some (hid : ∀ a, shed (fun _ => false) a = a)
    (hapart : Place.Apart (held step places index (a :: rest))) {halt : Halt} (hh : (f index a).trail.halt = some halt)
    {entered : List Place} (h : (f index a).trail.Entered (places index a) (ends index a) entered)
    (hleft : (f index a).left = shed entered.contains a) :
    (each f index (a :: rest)).trail.Entered (Place.gather (held step places index (a :: rest)))
        (endIn f step ends index (a :: rest)) (entered.map (step index a :: ·)) ∧
      (each f index (a :: rest)).left = shedEach step shed (entered.map (step index a :: ·)) index (a :: rest) := by
  rw [held_cons] at hapart ⊢
  rw [Place.gather_cons, endIn, hh, Option.isSome_some, if_pos rfl, each, trail_cons, Trail.andThen_of_some hh]
  refine ⟨⟨(h.first.map _).trans (List.prefix_append _ _), fun hn => ?_, ?_⟩, ?_⟩
  · rw [hh] at hn
    cases hn
  · intro place hm hp
    cases place with
    | nil =>
      rcases List.mem_append.1 hm with hm | hm
      · obtain ⟨_, -, heq⟩ := List.mem_map.1 hm
        cases heq
      · exact absurd hm Place.nil_not_mem_gather
    | cons step' place =>
      obtain ⟨rfl, hinside⟩ := List.cons_prefix_cons.1 hp
      rcases List.mem_append.1 hm with hm | hm
      · exact List.mem_map_of_mem (h.around place (Place.cons_mem_map.1 hm).2 hinside)
      · exact absurd hm hapart.not_mem_gather
  · have hhead : (fun place => (entered.map (step index a :: ·)).contains (step index a :: place)) = entered.contains := by
      funext place
      rw [Bool.eq_iff_iff, List.contains_iff_mem, List.contains_iff_mem, Place.cons_mem_map]
      exact and_iff_right rfl
    -- the steps to the other parts are not those to the first, so they stay as they were
    have hrest : shedEach step shed (entered.map (step index a :: ·)) (index + 1) rest = rest := by
      refine List.mapIdx_eq_iff.2 fun i => ?_
      cases hb : rest[i]? with
      | none => rfl
      | some b =>
        obtain ⟨hi, rfl⟩ := List.getElem?_eq_some_iff.1 hb
        have hnone : (fun place => (entered.map (step index a :: ·)).contains (step (index + 1 + i) rest[i] :: place)) =
            fun _ => false := by
          funext place
          rw [Bool.eq_false_iff, ne_eq, List.contains_iff_mem]
          exact fun hm => hapart.not_mem_map (mem_held hi) ((h.first.map _).subset hm)
        rw [Option.map_some, hnone, hid]
    rw [shedEach_cons, hhead, hrest, ← hleft]
    simp only [cons, hh]

/-- A walk that goes through the first part has entered all places in it, and then what it enters in the others. -/
theorem entered_cons_of_none (hapart : Place.Apart (held step places index (a :: rest)))
    (hh : (f index a).trail.halt = none) (hleft : (f index a).left = shed (places index a).contains a)
    {entered : List Place}
    (h : (each f (index + 1) rest).trail.Entered (Place.gather (held step places (index + 1) rest))
      (endIn f step ends (index + 1) rest) entered)
    (hrest : (each f (index + 1) rest).left = shedEach step shed entered (index + 1) rest) :
    (each f index (a :: rest)).trail.Entered (Place.gather (held step places index (a :: rest)))
        (endIn f step ends index (a :: rest)) ((places index a).map (step index a :: ·) ++ entered) ∧
      (each f index (a :: rest)).left =
        shedEach step shed ((places index a).map (step index a :: ·) ++ entered) index (a :: rest) := by
  rw [held_cons] at hapart ⊢
  rw [Place.gather_cons, endIn, hh, Option.isSome_none, if_neg Bool.false_ne_true, each, trail_cons]
  refine ⟨⟨(List.prefix_append_right_inj _).2 h.first, fun hn => ?_, ?_⟩, ?_⟩
  · rw [h.all (Trail.halt_andThen_eq_none.1 hn).2]
  · intro place hm hp
    rcases List.mem_append.1 hm with hm | hm
    · exact List.mem_append_left _ hm
    · exact List.mem_append_right _ (h.around place hm hp)
  · have hhead : (fun place => ((places index a).map (step index a :: ·) ++ entered).contains (step index a :: place)) =
        (places index a).contains := by
      funext place
      rw [Bool.eq_iff_iff, List.contains_iff_mem, List.contains_iff_mem, List.mem_append, Place.cons_mem_map,
        or_iff_left fun hm => hapart.not_mem_gather (h.first.subset hm)]
      exact and_iff_right rfl
    -- neither list of places has anything to say about the parts of the other
    have hlater : shedEach step shed ((places index a).map (step index a :: ·) ++ entered) (index + 1) rest =
        shedEach step shed entered (index + 1) rest := by
      refine List.mapIdx_eq_mapIdx_iff.2 fun i hi => ?_
      congr 1
      funext place
      rw [Bool.eq_iff_iff, List.contains_iff_mem, List.contains_iff_mem, List.mem_append,
        or_iff_right (hapart.not_mem_map (mem_held hi))]
    rw [shedEach_cons, hhead, hlater, ← hleft, ← hrest, left_cons hh]

/-- **A walk of a list enters the places of its parts from the first one on**, and leaves of each part what is left of it
without the meta fields of what was entered in it. -/
theorem entered_each (hid : ∀ a, shed (fun _ => false) a = a) : ∀ {index : Nat} {parts : List α},
    Place.Apart (held step places index parts) →
    (∀ i, ∀ a ∈ parts, (f i a).trail.Entered (places i a) (ends i a) (entered i a) ∧
      (f i a).left = shed (entered i a).contains a) →
    (each f index parts).trail.Entered (Place.gather (held step places index parts)) (endIn f step ends index parts)
        (enteredIn f step entered index parts) ∧
      (each f index parts).left = shedEach step shed (enteredIn f step entered index parts) index parts
  | _, [], _, _ => ⟨Trail.entered_nil _ _, rfl⟩
  | index, a :: rest, hapart, hparts => by
    obtain ⟨h, hleft⟩ := hparts index a List.mem_cons_self
    rw [enteredIn]
    cases hh : (f index a).trail.halt with
    | some halt =>
      rw [Option.isSome_some, if_pos rfl, List.append_nil]
      exact entered_cons_of_some hid hapart hh h hleft
    | none =>
      have hlater := hapart
      rw [held_cons] at hlater
      obtain ⟨h', hleft'⟩ :=
        entered_each hid (List.pairwise_cons.1 hlater).2 fun i b hb => hparts i b (List.mem_cons_of_mem a hb)
      rw [Option.isSome_none, if_neg Bool.false_ne_true, h.all hh]
      rw [h.all hh] at hleft
      exact entered_cons_of_none hapart hh hleft h' hleft'

end Walk

namespace Setting

variable {s : Setting}

/-- Walks of a value enter the places in it from the first one on, and leave the value without the meta fields of the
objects that they entered. -/
def Enters (s : Setting) (v : Value) : Prop := ∀ e path, v.Distinct →
  (s.walk path e v).trail.Entered (e.reached v) (s.endsAt path e v) (s.entered path e v) ∧
    (s.walk path e v).left = s.options.shed (s.entered path e v).contains v

theorem entered_walkField {field : Key × Value} (ih : s.Enters field.2) (hd : field.2.Distinct) (path : Pointer)
    (children : List (String × Element)) :
    (s.walkField path children field).trail.Entered (Element.reachedField children field)
        (s.endsAtField path children field) (s.enteredField path children field) ∧
      (s.walkField path children field).left =
        s.options.shedField (s.enteredField path children field).contains field := by
  unfold walkField Element.reachedField endsAtField enteredField
  cases Element.governing? children field.1 with
  | none => exact ⟨Trail.entered_nil _ _, congrArg (field.1, ·) (s.options.shed_none _).symm⟩
  | some child =>
    obtain ⟨h, hleft⟩ := ih child (path.push field.1.token) hd
    exact ⟨⟨h.first, h.all, h.around⟩, congrArg (field.1, ·) hleft⟩

theorem entered_walkEntry {v : Value} (ih : s.Enters v) (hd : v.Distinct) (path : Pointer) (slots : List (Kind × Element))
    (ordered : List Element) (allowNull : Bool) (index : Nat) :
    (s.walkEntry path slots ordered allowNull index v).trail.Entered (Element.reachedEntry slots ordered index v)
        (s.endsAtEntry path slots ordered allowNull index v) (s.enteredEntry path slots ordered allowNull index v) ∧
      (s.walkEntry path slots ordered allowNull index v).left =
        s.options.shed (s.enteredEntry path slots ordered allowNull index v).contains v := by
  unfold walkEntry Element.reachedEntry endsAtEntry enteredEntry Element.entryDemand
  cases hn : v.isNull with
  | true =>
    cases Value.isNull_iff.1 hn
    cases allowNull <;> cases Element.entry? slots ordered index .null <;> exact ⟨Trail.entered_nil _ _, rfl⟩
  | false =>
    simp only [Bool.false_eq_true, if_false]
    cases Element.entry? slots ordered index v with
    | none => exact ⟨Trail.entered_nil _ _, (s.options.shed_none _).symm⟩
    | some e =>
      obtain ⟨h, hleft⟩ := ih e (path.entry index) hd
      exact ⟨⟨h.first, h.all, h.around⟩, hleft⟩

theorem entered_walkFields {fields : List (Key × Value)} (hd : (Value.object fields).Distinct)
    (ih : ∀ field ∈ fields, s.Enters field.2) (path : Pointer) (children : List (String × Element)) :
      (Walk.each (fun _ => s.walkField path children) 0 fields).trail.Entered
        (Place.gather (fields.map fun field => (.field field.1, Element.reachedField children field)))
        (s.endsAtFields path children fields) (s.enteredFields path children fields) ∧
      (Walk.each (fun _ => s.walkField path children) 0 fields).left = fields.map fun field => s.options.shedField
        (fun place => (s.enteredFields path children fields).contains (.field field.1 :: place)) field := by
  rw [s.enteredFields_eq_enteredIn path children 0]
  obtain ⟨hnames, heach⟩ := hd.of_object
  have hheld : Walk.held (fun _ field => .field field.1) (fun _ => Element.reachedField children) 0 fields =
      fields.map fun field => (.field field.1, Element.reachedField children field) := Walk.mapIdx_const _ _
  have hwalk := Walk.entered_each (f := fun _ => s.walkField path children)
    (fun field => congrArg (field.1, ·) (s.options.shed_none field.2))
    (hheld ▸ Element.apart_reachedFields children hnames)
    fun _ field hf => entered_walkField (ih field hf) (heach field hf) path children
  obtain ⟨h, hleft⟩ := hwalk
  rw [hheld, ← endsAtFields_eq_endIn] at h
  refine ⟨h, ?_⟩
  rw [hleft, Walk.shedEach, Walk.mapIdx_const]

theorem entered_walkContents {entries : List Value} (hd : ∀ v ∈ entries, v.Distinct) (ih : ∀ v ∈ entries, s.Enters v)
    (path : Pointer) (slots : List (Kind × Element)) (ordered : List Element) (allowNull : Bool) :
      (s.walkContents path slots ordered allowNull entries).trail.Entered
        (Place.gather (entries.mapIdx fun i v => (.entry i, Element.reachedEntry slots ordered i v)))
        (s.endsAtContents path slots ordered allowNull entries) (s.enteredContents path slots ordered allowNull entries) ∧
      (s.walkContents path slots ordered allowNull entries).left = entries.mapIdx fun i v => s.options.shed
        (fun place => (s.enteredContents path slots ordered allowNull entries).contains (.entry i :: place)) v := by
  unfold walkContents endsAtContents enteredContents
  cases hm : ArrayMode.ofContents slots ordered with
  | any =>
    have hnone : Place.gather (entries.mapIdx fun i v => (.entry i, Element.reachedEntry slots ordered i v)) = [] := by
      refine Place.gather_eq_nil fun part hp => ?_
      obtain ⟨i, hi, rfl⟩ := List.mem_mapIdx.1 hp
      simp only [Element.reachedEntry, Element.entry?, hm]
    rw [hnone]
    refine ⟨Trail.entered_nil _ _, ?_⟩
    simp only [anyEntries, List.contains_nil, Options.shed_none]
    rw [Walk.mapIdx_const fun v => v, List.map_id']
  | typed | ordered =>
    have hheld : Walk.held (fun i _ => .entry i) (Element.reachedEntry slots ordered) 0 entries =
        entries.mapIdx fun i v => (.entry i, Element.reachedEntry slots ordered i v) := by
      simp only [Walk.held, Nat.zero_add]
    have hwalk := Walk.entered_each (f := s.walkEntry path slots ordered allowNull) s.options.shed_none
      (hheld ▸ Element.apart_reachedEntries (Element.reachedEntry slots ordered) entries)
      fun index v hv => entered_walkEntry (ih v hv) (hd v hv) path slots ordered allowNull index
    obtain ⟨h, hleft⟩ := hwalk
    rw [hheld, ← endsAtEntries_eq_endIn] at h
    refine ⟨h, ?_⟩
    simp only [hleft, Walk.shedEach, Nat.zero_add]

theorem entered_walkObject {fields : List (Key × Value)} (hd : (Value.object fields).Distinct)
    (ih : ∀ field ∈ fields, s.Enters field.2) (path : Pointer) (traits : Traits) (children : List (String × Element)) :
    (s.walk path (.object traits children) (.object fields)).trail.Entered
        ((Element.object traits children).reached (.object fields))
        (s.endsAt path (.object traits children) (.object fields))
        (s.entered path (.object traits children) (.object fields)) ∧
      (s.walk path (.object traits children) (.object fields)).left =
        s.options.shed (s.entered path (.object traits children) (.object fields)).contains (.object fields) := by
  rw [Element.reached_object, walk_object, endsAt, entered_object]
  cases ho : ((s.dropMeta path fields).andThen (s.reportMissing path children fields)).halt with
  | some halt =>
    -- the object itself is entered, and nothing in it
    refine ⟨⟨List.prefix_append [[]] _, fun hn => ?_, fun place _ hp => ?_⟩, ?_⟩
    · have hopen := (s.halt_walkObject hn).1
      rw [ho] at hopen
      cases hopen
    · exact List.mem_singleton.2 (List.prefix_nil.1 hp)
    · have hfields : (fields.map fun field =>
          s.options.shedField (fun place => [[]].contains (Step.field field.1 :: place)) field) = fields :=
        (List.map_congr_left fun field _ => congrArg (field.1, ·) (s.options.shed_none field.2)).trans (List.map_id fields)
      simp only [Option.isSome_some, if_true]
      rw [Options.shed_object, hfields]
      simp only [walkObject, Walk.after, ho]
      rfl
  | none =>
    obtain ⟨h, hleft⟩ := entered_walkFields hd ih path children
    simp only [Option.isSome_none, Bool.false_eq_true, if_false]
    refine ⟨⟨List.cons_prefix_cons.2 ⟨rfl, h.first⟩, fun hn => ?_, fun place hm hp => ?_⟩, ?_⟩
    · rw [h.all (s.halt_walkObject hn).2]
    · rcases List.mem_cons.1 hm with rfl | hm
      · exact List.mem_cons_self
      · exact List.mem_cons_of_mem _ (h.around place hm hp)
    · rw [s.left_walkObject ho, hleft, Options.shed_object]
      rfl

/-- **A walk enters the objects before it from the first one on**, all around the place where it ends among them, and they
lose their meta fields, but nothing else is gone. -/
theorem entered_walk (e : Element) (v : Value) : ∀ path, v.Distinct →
    (s.walk path e v).trail.Entered (e.reached v) (s.endsAt path e v) (s.entered path e v) ∧
      (s.walk path e v).left = s.options.shed (s.entered path e v).contains v := by
  induction e, v using Element.induct with
  | null e =>
    intro path _
    rw [walk_null]
    exact ⟨Trail.entered_nil _ _, rfl⟩
  | wrong e v hv ha =>
    intro path _
    rw [walk_wrong s path hv ha, Element.reached_of_not_accepts ha, s.entered_of_not_accepts path ha]
    exact ⟨Trail.entered_nil _ _, (s.options.shed_none _).symm⟩
  | scalar e v hv ha =>
    intro path _
    rw [walk_scalar s path hv ha, Element.reached_scalar e hv, s.entered_scalar path e hv]
    exact ⟨Trail.entered_nil _ _, (s.options.shed_none _).symm⟩
  | object traits children fields ih =>
    intro path hd
    exact entered_walkObject hd (fun field hf e path => ih field hf e path) path traits children
  | array traits slots ordered allowNull shape entries ih =>
    intro path hd
    by_cases hl : ordered = [] ∨ ordered.length = entries.length
    · obtain ⟨h, hleft⟩ :=
        entered_walkContents hd.of_array (fun v hv e path => ih v hv e path) path slots ordered allowNull
      rw [walk_array s path traits slots allowNull shape hl, Element.reached_array traits slots allowNull shape hl,
        s.endsAt_array path traits slots allowNull shape hl, s.entered_array path traits slots allowNull shape hl]
      refine ⟨⟨h.first, fun hn => h.all (Trail.halt_of_halt_andIfClean hn), h.around⟩, ?_⟩
      rw [left_walkArray, hleft, Options.shed_array]
    · rw [walk_array_of_length_ne s path traits slots allowNull shape hl,
        Element.reached_array_of_length_ne traits slots allowNull shape hl,
        s.entered_array_of_length_ne path traits slots allowNull shape hl]
      exact ⟨Trail.entered_nil _ _, (s.options.shed_none _).symm⟩

theorem reached_of_not_admits {root : Element} {document : Value} (h : root.admits document = false) :
    root.reached document = [] := by
  cases root with
  | object | array => exact Element.reached_of_not_accepts h
  | string | number | boolean => cases document <;> rfl

theorem endsAt_of_not_admits {root : Element} {document : Value} {path : Pointer} (h : root.admits document = false) :
    s.endsAt path root document = [] := by
  cases root with
  | object | array => exact endsAt_of_not_accepts path h
  | string | number | boolean => cases document <;> rfl

theorem entered_of_not_admits {root : Element} {document : Value} {path : Pointer} (h : root.admits document = false) :
    s.entered path root document = [] := by
  cases root with
  | object | array => exact s.entered_of_not_accepts path h
  | string | number | boolean => cases document <;> rfl

theorem entered_walkRoot (root : Element) {document : Value} (hd : document.Distinct) :
    (s.walkRoot root document).trail.Entered (root.reached document) (s.endsAt .root root document)
        (s.entered .root root document) ∧
      (s.walkRoot root document).left = s.options.shed (s.entered .root root document).contains document := by
  cases ha : root.admits document with
  | true =>
    rw [s.walkRoot_of_admits root document ha]
    exact s.entered_walk root document .root hd
  | false =>
    obtain ⟨fault, hw⟩ := s.walkRoot_of_not_admits root document ha
    rw [hw, reached_of_not_admits ha, entered_of_not_admits ha]
    exact ⟨Trail.entered_nil _ _, (s.options.shed_none _).symm⟩

theorem blames_walkRoot (root : Element) (document : Value) : (s.walkRoot root document).trail.EndsOn
    (Violation.Blames (Pointer.root.along (s.endsAt .root root document))) := by
  cases ha : root.admits document with
  | true =>
    rw [s.walkRoot_of_admits root document ha]
    exact s.blames_walk root document .root
  | false =>
    obtain ⟨fault, hw⟩ := s.walkRoot_of_not_admits root document ha
    rw [hw, endsAt_of_not_admits ha]
    exact endsOn_found (.inl rfl)

/-- The objects that are reached are those that a walk enters which goes through. -/
theorem left_walk_eq_shed {path : Pointer} {e : Element} {v : Value} (hd : v.Distinct)
    (h : (s.walk path e v).trail.halt = none) :
    (s.walk path e v).left = s.options.shed (e.reached v).contains v := by
  obtain ⟨hentered, hleft⟩ := s.entered_walk e v path hd
  rw [hleft, hentered.all h]

/-- **A run that ends early takes out nothing but the meta fields of the objects that it has entered**: the first ones of
those that are reached, and among them all around the value at which it ends, to which its violation belongs if a violation
ended it. -/
theorem document_run_of_error {root : Element} {document : Value} {halt : Halt} (hd : document.Distinct)
    (h : (s.run root document).outcome = .error halt) :
    (∃ entered, entered <+: root.reached document ∧
      (∀ place ∈ root.reached document, place <+: s.endsAt .root root document → place ∈ entered) ∧
      (s.run root document).document = s.options.shed entered.contains document) ∧
    (∀ x, halt = .firstViolation x → x.Blames (Pointer.root.along (s.endsAt .root root document))) ∧
    (s.options.pruneMeta = false → (s.run root document).document = document) ∧
    s.options.shed (fun _ => true) (s.run root document).document = s.options.shed (fun _ => true) document := by
  have hhalt : (s.walkRoot root document).trail.halt = some halt := by
    rw [← halt_run]
    unfold Run.outcome at h
    split at h <;> cases h
    assumption
  obtain ⟨hentered, hleft⟩ := entered_walkRoot root hd
  have hdocument : (s.run root document).document =
      s.options.shed (s.entered .root root document).contains document := by
    rw [s.run_of_some root document hhalt, hleft]
  refine ⟨⟨_, hentered.first, hentered.around, hdocument⟩, ?_, fun hp => ?_, ?_⟩
  · rintro x rfl
    exact s.blames_walkRoot root document x hhalt
  · rw [hdocument]
    exact s.options.shed_eq_self document fun _ key _ => by rw [Options.drops, hp, Bool.false_and]
  · rw [hdocument, Options.shed_shed]

/-- Text in place of a number ends a run in the first of two objects of a document, and the second keeps its meta field. -/
theorem document_run_of_error_inner :
    let s : Setting := ⟨{ stopOnFirst := true, pruneUnlisted := true }, fun _ _ _ => .accept⟩
    let root := Element.object {} [("a", .object {} [("x", .number {} {})]), ("b", .object {} [])]
    let document := Value.object [(.name "a", .object [(.name "$m", .null), (.name "x", .string "text")]),
      (.name "$m", .null), (.name "b", .object [(.name "$m", .null)]), (.name "c", .null)]
    (∃ entered, entered <+: [[], [.field (.name "a")], [.field (.name "b")]] ∧ [.field (.name "a")] ∈ entered ∧
      (s.run root document).document = s.options.shed entered.contains document) ∧
    (s.run root document).document = .object [(.name "a", .object [(.name "x", .string "text")]),
      (.name "b", .object [(.name "$m", .null)]), (.name "c", .null)] := by
  intro s root document
  have hmeta : (Value.object [(.name "$m", .null)]).Distinct := .object (by decide) (by simp [Value.Distinct.null])
  have ha : (Value.object [(.name "$m", .null), (.name "x", .string "text")]).Distinct := by
    refine .object (by decide) (List.forall_mem_cons.2 ⟨.null, List.forall_mem_singleton.2 (.scalar rfl)⟩)
  have hd : document.Distinct := by
    refine .object (by decide) ?_
    simp only [List.forall_mem_cons]
    exact ⟨ha, .null, hmeta, .null, fun _ hm => nomatch hm⟩
  have hend : (s.run root document).outcome = .error (.firstViolation ⟨.wrongType "string" "number", ⟨"/a/x"⟩⟩) := by
    unfold s root document
    rfl
  obtain ⟨⟨entered, hfirst, haround, hdocument⟩, -⟩ := document_run_of_error hd hend
  have hends : s.endsAt .root root document = [.field (.name "a"), .field (.name "x")] := by
    unfold s root document
    rfl
  refine ⟨⟨entered, hfirst, haround _ ?_ ?_, hdocument⟩, ?_⟩
  · exact List.mem_cons_of_mem _ List.mem_cons_self
  · exact hends ▸ List.prefix_append [_] [_]
  · unfold s root document
    rfl

end Setting
end ConfigSchema
