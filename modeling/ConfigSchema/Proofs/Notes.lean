import ConfigSchema.Proofs.Distinct
import ConfigSchema.Proofs.Pruning
/-!
# Notes — what the notes of a clean walk take out

A walk notes the unlisted fields of every object that it reaches, those below a meta field too that has left the document
by the end.  Carried out on what a clean walk leaves, the notes take out just the unlisted fields of what is still there
(`carryOutAll_walk`): each object's note finds the object unchanged but for notes further inside.  So a run that gives its
violations leaves what `prune` leaves.
-/
namespace ConfigSchema

namespace Setting

variable (s : Setting)

/-- The notes that the walk of a field makes, as they are seen from inside it. -/
def fieldNotes (path : Pointer) (children : List (String × Element)) (field : Key × Value) : List Removal :=
  match Element.governing? children field.1 with
  | some child => (s.walk (path.push field.1.token) child field.2).trail.unlisted
  | none => []

def entryNotes (path : Pointer) (slots : List (Kind × Element)) (ordered : List Element) (allowNull : Bool)
    (index : Nat) (v : Value) : List Removal :=
  match Element.entryDemand slots ordered allowNull index v with
  | .nothing | .refused _ => []
  | .governed e => (s.walk (path.entry index) e v).trail.unlisted

theorem unlisted_walkField (path : Pointer) (children : List (String × Element)) (field : Key × Value) :
    (s.walkField path children field).trail.unlisted =
      (s.fieldNotes path children field).map (·.under (.field field.1)) := by
  unfold walkField fieldNotes
  cases Element.governing? children field.1 <;> rfl

theorem unlisted_walkEntry (path : Pointer) (slots : List (Kind × Element)) (ordered : List Element) (allowNull : Bool)
    (index : Nat) (v : Value) : (s.walkEntry path slots ordered allowNull index v).trail.unlisted =
      (s.entryNotes path slots ordered allowNull index v).map (·.under (.entry index)) := by
  unfold walkEntry entryNotes
  cases Element.entryDemand slots ordered allowNull index v <;> rfl

theorem unlisted_walkObject {path : Pointer} {e : Element} {children : List (String × Element)}
    {fields : List (Key × Value)} {inside : Walk (List (Key × Value))}
    (h : (s.walkObject path e children fields inside).trail.Clean) :
    (s.walkObject path e children fields inside).trail.unlisted =
      inside.trail.unlisted ++ (s.noteUnlisted children fields).unlisted := by
  rw [trail_walkObject, Trail.clean_andThen, Trail.clean_andIfClean, Trail.clean_andThen, Trail.clean_andThen] at h
  obtain ⟨⟨⟨⟨hd, hm⟩, hi⟩, hv⟩, -⟩ := h
  have hopen := Trail.clean_andThen.2 ⟨hd, hm⟩
  have hwalked := Trail.clean_andThen.2 ⟨hopen, hi⟩
  rw [trail_walkObject, Trail.andIfClean_of_nil hwalked.violations,
    Trail.unlisted_andThen (Trail.clean_andThen.2 ⟨hwalked, hv⟩).halt, Trail.unlisted_andThen hwalked.halt,
    Trail.unlisted_andThen hopen.halt, Trail.unlisted_andThen hd.halt, unlisted_dropMeta, unlisted_reportMissing,
    unlisted_askAll, List.nil_append, List.nil_append, List.append_nil]

theorem unlisted_walkArray {path : Pointer} {e : Element} {shape : ArrayShape} {inside : Walk (List Value)}
    (h : (s.walkArray path e shape inside).trail.Clean) :
    (s.walkArray path e shape inside).trail.unlisted = inside.trail.unlisted := by
  obtain ⟨hi, -⟩ := s.clean_walkArray.1 h
  rw [trail_walkArray, Trail.andIfClean_of_nil hi.violations, Trail.unlisted_andThen hi.halt, unlisted_askAll,
    List.append_nil]

/-- The note of an object's own unlisted fields takes out just those. -/
theorem carryOutAll_noteUnlisted (children : List (String × Element)) (fields kept : List (Key × Value))
    (hk : ∀ field ∈ kept, field.1 ∈ fields.map Prod.fst) :
    Removal.carryOutAll (s.noteUnlisted children fields).unlisted (.object kept) =
      .object (kept.filter fun field => !(s.options.pruneUnlisted &&
        ((Element.governing? children field.1).isNone && !s.options.isMeta field.1))) := by
  have hmem : ∀ field ∈ kept, (s.unlistedKeys children fields).contains field.1 =
      ((Element.governing? children field.1).isNone && !s.options.isMeta field.1) := by
    intro field hf
    rw [unlistedKeys, Bool.eq_iff_iff, List.contains_iff_mem, List.mem_filter]
    exact ⟨fun h => h.2, fun h => ⟨hk field hf, h⟩⟩
  have hall : (kept.filter fun _ => true) = kept := List.filter_eq_self.2 fun _ _ => rfl
  have hnote : Removal.carryOutAll (s.noteUnlisted children fields).unlisted (.object kept) =
      .object (kept.filter fun field => !(s.options.pruneUnlisted &&
        (s.unlistedKeys children fields).contains field.1)) := by
    unfold noteUnlisted
    cases hu : s.options.pruneUnlisted with
    | false => simp only [Bool.false_and, Bool.not_false, hall]; rfl
    | true =>
      cases hs : s.unlistedKeys children fields with
      | nil => simp only [List.contains_nil, Bool.and_false, Bool.not_false, hall]; rfl
      | cons key keys => simp only [Bool.true_and]; rfl
  rw [hnote]
  congr 1
  exact List.filter_congr fun field hf => by rw [hmem field hf]

/-- The notes of clean walks of a value take the unlisted fields out of what is left of it. -/
def NotesPrune (v : Value) : Prop := ∀ e path, (s.walk path e v).trail.Clean →
  Removal.carryOutAll (s.walk path e v).trail.unlisted (s.options.prune false e v) =
    s.options.prune s.options.pruneUnlisted e v

theorem carryOutAll_fieldNotes {path : Pointer} {children : List (String × Element)} {field : Key × Value}
    (ih : s.NotesPrune field.2)
    (h : (s.walkField path children field).trail.Clean) :
    (field.1, Removal.carryOutAll (s.fieldNotes path children field) (s.options.pruneField false children field).2) =
      s.options.pruneField s.options.pruneUnlisted children field := by
  unfold walkField fieldNotes Options.pruneField at *
  cases hg : Element.governing? children field.1 with
  | none => rfl
  | some child =>
    simp only [hg, Walk.trail_under, Walk.trail_map, Trail.clean_under] at h
    simp only [ih child _ h]

theorem carryOutAll_entryNotes {path : Pointer} {slots : List (Kind × Element)} {ordered : List Element}
    {allowNull : Bool} {index : Nat} {v : Value}
    (ih : s.NotesPrune v)
    (h : (s.walkEntry path slots ordered allowNull index v).trail.Clean) :
    Removal.carryOutAll (s.entryNotes path slots ordered allowNull index v)
        (s.options.pruneEntry false slots ordered index v) =
      s.options.pruneEntry s.options.pruneUnlisted slots ordered index v := by
  unfold walkEntry entryNotes Options.pruneEntry Element.entryDemand at *
  cases hn : v.isNull with
  | true =>
    cases Value.isNull_iff.1 hn
    cases allowNull <;> cases Element.entry? slots ordered index .null <;> rfl
  | false =>
    simp only [hn, Bool.false_eq_true, if_false] at h ⊢
    cases he : Element.entry? slots ordered index v with
    | none => rfl
    | some e =>
      simp only [he, Walk.trail_under, Trail.clean_under] at h
      simp only [ih e _ h]

/-- Two fields that one step leads to have no name, and so no notes. -/
theorem pairwise_fieldNotes (path : Pointer) (children : List (String × Element)) {fields : List (Key × Value)}
    (h : (fields.filterMap (·.1.name?)).Nodup) :
    (fields.map fun field => (Step.field field.1, s.fieldNotes path children field)).Pairwise
      fun a b => a.1 = b.1 → a.2 = [] ∧ b.2 = [] := by
  refine List.pairwise_map.2 ((List.pairwise_filterMap.1 h).imp ?_)
  intro a b hne hstep
  have hkey : a.1 = b.1 := Step.field.inj hstep
  unfold fieldNotes
  rw [← hkey]
  cases hk : a.1 with
  | name text => exact absurd rfl (hne text (by rw [hk]; rfl) text (by rw [← hkey, hk]; rfl))
  | number | null => exact ⟨rfl, rfl⟩

/-- The notes from inside an object take the unlisted fields out of the values of its fields. -/
theorem carryOutAll_walkFields {path : Pointer} {children : List (String × Element)} {fields : List (Key × Value)}
    (hnames : (fields.filterMap (·.1.name?)).Nodup)
    (ih : ∀ field ∈ fields, s.NotesPrune field.2)
    (h : (Walk.each (fun _ => s.walkField path children) 0 fields).trail.Clean) (p : Key × Value → Bool) :
    Removal.carryOutAll (Walk.each (fun _ => s.walkField path children) 0 fields).trail.unlisted
        (.object ((fields.filter p).map (s.options.pruneField false children))) =
      .object ((fields.filter p).map (s.options.pruneField s.options.pruneUnlisted children)) := by
  have hnotes := Walk.unlisted_each (fun _ field => .field field.1) (fun _ field => s.fieldNotes path children field)
    (fun _ field => s.unlisted_walkField path children field) h.halt
  rw [hnotes, Walk.mapIdx_const (fun field => (Step.field field.1, s.fieldNotes path children field)),
    Removal.carryOutAll_object _ (Removal.place_gather_ne_nil _), List.map_map]
  congr 1
  apply List.map_congr_left
  intro field hf
  have hm := (List.mem_filter.1 hf).1
  obtain ⟨i, hi⟩ := List.getElem?_of_mem hm
  rw [← s.carryOutAll_fieldNotes (ih field hm) (Walk.clean_each.1 h i field hi)]
  exact congrArg (field.1, Removal.carryOutAll · _)
    (Removal.below_gather (s.pairwise_fieldNotes path children hnames) (List.mem_map.2 ⟨field, hm, rfl⟩))

theorem pairwise_entryNotes (notes : Nat → Value → List Removal) (entries : List Value) :
    (entries.mapIdx fun i v => (Step.entry i, notes i v)).Pairwise fun a b => a.1 = b.1 → a.2 = [] ∧ b.2 = [] := by
  refine List.pairwise_iff_getElem.2 fun i j hi hj hlt hstep => ?_
  simp only [List.getElem_mapIdx, Step.entry.injEq] at hstep
  exact absurd hstep (Nat.ne_of_lt hlt)

/-- The notes from inside an array take the unlisted fields out of its entries. -/
theorem carryOutAll_walkContents {path : Pointer} {slots : List (Kind × Element)} {ordered : List Element}
    {allowNull : Bool} {shape : ArrayShape} {entries : List Value}
    (ih : ∀ v ∈ entries, s.NotesPrune v)
    (h : (s.walkContents path slots ordered allowNull entries).trail.Clean) :
    Removal.carryOutAll (s.walkContents path slots ordered allowNull entries).trail.unlisted
        (.array shape (entries.mapIdx (s.options.pruneEntry false slots ordered))) =
      .array shape (entries.mapIdx (s.options.pruneEntry s.options.pruneUnlisted slots ordered)) := by
  unfold walkContents at *
  cases hm : ArrayMode.ofContents slots ordered with
  | any =>
    have hid : ∀ unlisted, s.options.pruneEntry unlisted slots ordered = fun _ v => v := by
      intro unlisted
      funext index v
      simp only [Options.pruneEntry, Element.entry?, hm]
    have hn : (s.anyEntries path allowNull entries).trail.unlisted = [] := by
      unfold anyEntries
      simp only
      split <;> rfl
    simp only [hn, hid, Removal.carryOutAll_nil]
  | typed | ordered =>
    simp only [hm] at h ⊢
    have hnotes := Walk.unlisted_each (fun index _ => .entry index) (s.entryNotes path slots ordered allowNull)
      (s.unlisted_walkEntry path slots ordered allowNull) h.halt
    simp only [Nat.zero_add] at hnotes
    rw [hnotes, Removal.carryOutAll_array _ (Removal.place_gather_ne_nil _), List.mapIdx_mapIdx]
    congr 1
    refine List.mapIdx_eq_mapIdx_iff.2 fun i hi => ?_
    have hc := Walk.clean_each.1 h i _ (List.getElem?_eq_getElem hi)
    rw [Nat.zero_add] at hc
    rw [← s.carryOutAll_entryNotes (ih _ (List.getElem_mem hi)) hc]
    exact congrArg (Removal.carryOutAll · _) (Removal.below_gather (pairwise_entryNotes _ entries)
      (List.mem_mapIdx.2 ⟨i, hi, rfl⟩))

/-- **The notes of a clean walk take the unlisted fields out of what it leaves.** -/
theorem carryOutAll_walk (e : Element) (v : Value) : ∀ path, v.Distinct → (s.walk path e v).trail.Clean →
    Removal.carryOutAll (s.walk path e v).trail.unlisted (s.options.prune false e v) =
      s.options.prune s.options.pruneUnlisted e v := by
  induction e, v using Element.induct with
  | null e =>
    intro path _ h
    rw [walk_null, clean_nullField] at h
    rw [walk_null, nullField, if_pos h]
    rfl
  | wrong e v hv ha =>
    intro path _ h
    rw [walk_wrong s path hv ha] at h
    exact absurd h (s.clean_wrongKind path e v)
  | scalar e v hv ha =>
    intro path _ h
    rw [walk_scalar s path hv ha] at h ⊢
    obtain ⟨hc, -⟩ := Trail.clean_andIfClean.1 h
    rw [Trail.andIfClean_of_nil hc.violations, Trail.unlisted_andThen hc.halt, unlisted_foundAll, unlisted_askAll,
      Options.prune_scalar _ _ _ hv, Options.prune_scalar _ _ _ hv]
    rfl
  | object traits children fields ih =>
    intro path hd h
    obtain ⟨hnames, heach⟩ := hd.of_object
    rw [walk_object] at h ⊢
    have hi := (s.clean_walkObject.1 h).2.1
    -- the notes from inside come first, and lead to fields that they leave in place; then the object's own
    rw [unlisted_walkObject s h, Removal.carryOutAll_append, Options.prune_object, Options.prune_object,
      s.carryOutAll_walkFields hnames (fun field hm child path => ih field hm child path (heach field hm)) hi,
      carryOutAll_noteUnlisted, List.filter_map, List.filter_filter]
    · congr 2
      exact List.filter_congr fun field _ => by
        rw [s.options.keeps_and s.options.pruneUnlisted, Bool.and_comm]
        rfl
    · intro field hf
      obtain ⟨field', hf', rfl⟩ := List.mem_map.1 hf
      exact List.mem_map.2 ⟨field', (List.mem_filter.1 hf').1, rfl⟩
  | array traits slots ordered allowNull shape entries ih =>
    intro path hd h
    by_cases hl : ordered = [] ∨ ordered.length = entries.length
    · rw [walk_array s path traits slots allowNull shape hl] at h ⊢
      have hi := (s.clean_walkArray.1 h).1
      rw [unlisted_walkArray s h, Options.prune_array _ _ _ _ _ _ hl, Options.prune_array _ _ _ _ _ _ hl,
        s.carryOutAll_walkContents (fun v hm e path => ih v hm e path (hd.of_array v hm)) hi]
    · rw [walk_array_of_length_ne s path traits slots allowNull shape hl] at h
      exact absurd h (s.not_clean_found path _)

/-- A run that goes inside its document and through it leaves what `prune` leaves of it. -/
theorem document_run_of_admits {s : Setting} {root : Element} {document : Value} (hd : document.Distinct)
    (ha : root.admits document = true) (h : (s.walkRoot root document).trail.halt = none) :
    (s.run root document).document =
      s.options.prune (s.options.pruneUnlisted && (s.run root document).violations.isEmpty) root document := by
  rw [s.document_run_of_none root document h, violations_run]
  rw [s.walkRoot_of_admits root document ha] at h ⊢
  rw [s.left_walk root document .root h]
  by_cases hv : (s.walk .root root document).trail.violations = []
  · have hclean : (s.walk .root root document).trail.Clean := ⟨h, hv⟩
    rw [if_pos hv, s.carryOutAll_walk root document .root hd hclean, hv, List.isEmpty_nil, Bool.and_true]
  · rw [if_neg hv, List.isEmpty_eq_false_iff.2 hv, Bool.and_false]

/-- **A run that gives its violations leaves what `prune` leaves of its document**: without the meta fields of all objects
that it reached, and without their unlisted fields if it found no violation. -/
theorem document_run {s : Setting} {root : Element} {document : Value} {vs : List Violation}
    (hd : document.Distinct) (h : (s.run root document).outcome = .ok vs) :
    (s.run root document).document = s.options.pruneRoot vs.isEmpty root document := by
  obtain ⟨hhalt, rfl⟩ := (s.outcome_run_eq_ok root document).1 h
  rw [Options.pruneRoot]
  cases ha : root.admits document with
  | false =>
    obtain ⟨fault, hw⟩ := s.walkRoot_of_not_admits root document ha
    rw [s.document_run_of_none root document hhalt, hw, violations_found, if_neg (List.cons_ne_nil _ _)]
    rfl
  | true => rw [document_run_of_admits hd ha hhalt, violations_run, if_pos rfl]

/-- A declared meta field, a field with no name and a field of an entry leave a document without violations. -/
theorem document_run_accepted :
    ((⟨{ pruneUnlisted := true }, fun _ _ _ => .accept⟩ : Setting).run
      (.object {} [("$note", .object {} []), ("list", .array {} [(.object, .object {} [])] [] false)])
      (.object [(.name "$note", .object [(.name "extra", .null)]), (.null, .boolean true),
        (.name "list", .array .list [.object [(.name "extra", .null)]])])).document =
    .object [(.name "list", .array .list [.object []])] := by
  have hextra : (Value.object [(.name "extra", .null)]).Distinct := .object (by decide) (by simp [Value.Distinct.null])
  have hlist : (Value.array .list [.object [(.name "extra", .null)]]).Distinct := .array (by simp [hextra])
  refine (document_run (.object (by decide) ?_) (show _ = Except.ok [] from rfl)).trans rfl
  intro field hf
  simp only [List.mem_cons, List.not_mem_nil, or_false] at hf
  obtain rfl | rfl | rfl := hf
  · exact hextra
  · exact .scalar rfl
  · exact hlist

end Setting
end ConfigSchema
