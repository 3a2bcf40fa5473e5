import ConfigSchema.Proofs.Descent
import ConfigSchema.Proofs.Removals
import ConfigSchema.Proofs.Runs
/-!
# Pruning — what a run leaves of its document

`Options.prune` says by plain recursion what is left of a value under its element: an object loses its meta fields if the
options want them out, and its unlisted ones if they are to go.  A walk that went through leaves what `prune` leaves of the
value with the unlisted fields still there (`left_walk`).
-/
namespace ConfigSchema

namespace Options

variable (o : Options)

/-- Whether a field stays in its object.  A meta field stays if the options leave meta fields alone; any other stays if it
is declared or if `unlisted` fields do not go. -/
def keeps (unlisted : Bool) (children : List (String × Element)) (key : Key) : Bool :=
  if o.isMeta key then !o.pruneMeta else (Element.governing? children key).isSome || !unlisted

mutual

/-- What is left of a value under its element, given whether `unlisted` fields go. -/
def prune (unlisted : Bool) (e : Element) : Value → Value
  | .object fields =>
    match e with
    | .object _ children => .object (pruneFields unlisted children fields)
    | _ => .object fields
  | .array shape entries =>
    match e with
    | .array _ slots ordered _ =>
      if ordered = [] ∨ ordered.length = entries.length then
        .array shape (pruneEntries unlisted slots ordered 0 entries)
      else .array shape entries
    | _ => .array shape entries
  | v => v

def pruneFields (unlisted : Bool) (children : List (String × Element)) : List (Key × Value) → List (Key × Value)
  | [] => []
  | (key, v) :: rest =>
    if o.keeps unlisted children key then
      match Element.governing? children key with
      | some child => (key, prune unlisted child v) :: pruneFields unlisted children rest
      | none => (key, v) :: pruneFields unlisted children rest
    else pruneFields unlisted children rest

def pruneEntries (unlisted : Bool) (slots : List (Kind × Element)) (ordered : List Element) (index : Nat) :
    List Value → List Value
  | [] => []
  | v :: rest =>
    match Element.entry? slots ordered index v with
    | some e => prune unlisted e v :: pruneEntries unlisted slots ordered (index + 1) rest
    | none => v :: pruneEntries unlisted slots ordered (index + 1) rest

end

/-- What is left of a document of a run.  Unlisted fields go from a `clean` run, if the options want them out. -/
def pruneRoot (clean : Bool) (root : Element) (document : Value) : Value :=
  if root.admits document then o.prune (o.pruneUnlisted && clean) root document else document

/-! ## The reference, part by part -/

def pruneField (unlisted : Bool) (children : List (String × Element)) (field : Key × Value) : Key × Value :=
  (field.1, match Element.governing? children field.1 with
    | some child => o.prune unlisted child field.2
    | none => field.2)

def pruneEntry (unlisted : Bool) (slots : List (Kind × Element)) (ordered : List Element) (index : Nat) (v : Value) :
    Value :=
  match Element.entry? slots ordered index v with
  | some e => o.prune unlisted e v
  | none => v

theorem pruneFields_eq (unlisted : Bool) (children : List (String × Element)) : ∀ (fields : List (Key × Value)),
    o.pruneFields unlisted children fields =
      (fields.filter (o.keeps unlisted children ·.1)).map (o.pruneField unlisted children)
  | [] => by rw [pruneFields]; rfl
  | (key, v) :: rest => by
    rw [pruneFields, pruneFields_eq unlisted children rest, List.filter_cons]
    cases o.keeps unlisted children key with
    | true => cases h : Element.governing? children key <;> simp [pruneField, h]
    | false => simp

theorem pruneEntries_eq (unlisted : Bool) (slots : List (Kind × Element)) (ordered : List Element) :
    ∀ (index : Nat) (entries : List Value), o.pruneEntries unlisted slots ordered index entries =
      entries.mapIdx fun i v => o.pruneEntry unlisted slots ordered (index + i) v
  | _, [] => by rw [pruneEntries]; rfl
  | index, v :: rest => by
    rw [pruneEntries, pruneEntries_eq unlisted slots ordered (index + 1) rest, List.mapIdx_cons]
    simp only [Nat.add_zero, Nat.add_assoc, Nat.add_comm 1, pruneEntry]
    cases Element.entry? slots ordered index v <;> rfl

theorem prune_object (unlisted : Bool) (traits : Traits) (children : List (String × Element))
    (fields : List (Key × Value)) : o.prune unlisted (.object traits children) (.object fields) =
      .object ((fields.filter (o.keeps unlisted children ·.1)).map (o.pruneField unlisted children)) := by
  rw [prune, pruneFields_eq]

theorem prune_array (unlisted : Bool) (traits : Traits) (slots : List (Kind × Element)) {ordered : List Element}
    (allowNull : Bool) (shape : ArrayShape) {entries : List Value} (h : ordered = [] ∨ ordered.length = entries.length) :
    o.prune unlisted (.array traits slots ordered allowNull) (.array shape entries) =
      .array shape (entries.mapIdx (o.pruneEntry unlisted slots ordered)) := by
  rw [prune, if_pos h, pruneEntries_eq]
  simp only [Nat.zero_add]

theorem prune_array_of_length_ne (unlisted : Bool) (traits : Traits) (slots : List (Kind × Element))
    {ordered : List Element} (allowNull : Bool) (shape : ArrayShape) {entries : List Value}
    (h : ¬ (ordered = [] ∨ ordered.length = entries.length)) :
    o.prune unlisted (.array traits slots ordered allowNull) (.array shape entries) = .array shape entries := by
  rw [prune, if_neg h]

theorem prune_of_not_accepts (unlisted : Bool) {e : Element} {v : Value} (h : e.accepts v = false) :
    o.prune unlisted e v = v := by
  cases v with
  | object fields =>
    cases e with
    | object => cases h
    | array | string | number | boolean => rfl
  | array shape entries =>
    cases e with
    | array => cases h
    | object | string | number | boolean => rfl
  | null | boolean | number | string | foreign => rfl

theorem prune_scalar (unlisted : Bool) (e : Element) {v : Value} (h : v.isScalar = true) : o.prune unlisted e v = v := by
  cases v with
  | null | array | object => cases h
  | boolean | number | string | foreign => rfl

theorem keeps_false (children : List (String × Element)) (key : Key) : o.keeps false children key = !o.drops key := by
  unfold keeps drops
  cases o.isMeta key <;> cases o.pruneMeta <;> simp

/-- A field stays although unlisted ones go if it stays otherwise and is not unlisted itself. -/
theorem keeps_and (unlisted : Bool) (children : List (String × Element)) (key : Key) :
    o.keeps unlisted children key = (o.keeps false children key &&
      !(unlisted && ((Element.governing? children key).isNone && !o.isMeta key))) := by
  unfold keeps
  cases o.isMeta key <;> cases unlisted <;> cases Element.governing? children key <;> simp

theorem prune_false_object (traits : Traits) (children : List (String × Element)) (fields : List (Key × Value)) :
    o.prune false (.object traits children) (.object fields) =
      .object ((fields.map (o.pruneField false children)).filter fun field => !o.drops field.1) := by
  rw [prune_object, List.filter_map]
  congr 2
  exact List.filter_congr fun field _ => o.keeps_false children field.1

end Options

namespace Setting

variable (s : Setting)

/-! ## What a walk leaves -/

/-- Walks of a value that go through leave it without its meta fields, unlisted fields still there. -/
def LeavesPruned (v : Value) : Prop :=
  ∀ e path, (s.walk path e v).trail.halt = none → (s.walk path e v).left = s.options.prune false e v

theorem left_walkField {path : Pointer} {children : List (String × Element)} {field : Key × Value}
    (ih : s.LeavesPruned field.2)
    (h : (s.walkField path children field).trail.halt = none) :
    (s.walkField path children field).left = s.options.pruneField false children field := by
  unfold walkField Options.pruneField at *
  cases hg : Element.governing? children field.1 with
  | none => rfl
  | some child =>
    simp only [hg, Walk.trail_under, Walk.trail_map, Trail.halt_under] at h
    simp only [Walk.left_under, Walk.left_map, ih child _ h]

theorem left_walkFields {path : Pointer} {children : List (String × Element)} {fields : List (Key × Value)}
    (ih : ∀ field ∈ fields, s.LeavesPruned field.2)
    (h : (Walk.each (fun _ => s.walkField path children) 0 fields).trail.halt = none) :
    (Walk.each (fun _ => s.walkField path children) 0 fields).left =
      fields.map (s.options.pruneField false children) := by
  rw [Walk.left_each (g := fun _ => s.options.pruneField false children)
    (fun _ field hm hh => s.left_walkField (ih field hm) hh) h, Walk.mapIdx_const]

theorem left_walkEntry {path : Pointer} {slots : List (Kind × Element)} {ordered : List Element} {allowNull : Bool}
    {index : Nat} {v : Value}
    (ih : s.LeavesPruned v)
    (h : (s.walkEntry path slots ordered allowNull index v).trail.halt = none) :
    (s.walkEntry path slots ordered allowNull index v).left = s.options.pruneEntry false slots ordered index v := by
  unfold walkEntry Options.pruneEntry Element.entryDemand at *
  cases hn : v.isNull with
  | true =>
    cases Value.isNull_iff.1 hn
    cases allowNull <;> cases Element.entry? slots ordered index .null <;> rfl
  | false =>
    simp only [hn, Bool.false_eq_true, if_false] at h ⊢
    cases he : Element.entry? slots ordered index v with
    | none => rfl
    | some e =>
      simp only [he, Walk.trail_under, Trail.halt_under] at h
      simp only [Walk.left_under, ih e _ h]

theorem left_walkContents {path : Pointer} {slots : List (Kind × Element)} {ordered : List Element} {allowNull : Bool}
    {entries : List Value}
    (ih : ∀ v ∈ entries, s.LeavesPruned v)
    (h : (s.walkContents path slots ordered allowNull entries).trail.halt = none) :
    (s.walkContents path slots ordered allowNull entries).left =
      entries.mapIdx (s.options.pruneEntry false slots ordered) := by
  unfold walkContents at *
  cases hm : ArrayMode.ofContents slots ordered with
  | any =>
    have hid : s.options.pruneEntry false slots ordered = fun _ v => v := by
      funext index v
      simp only [Options.pruneEntry, Element.entry?, hm]
    rw [hid, Walk.mapIdx_const]
    simp [anyEntries]
  | typed | ordered =>
    simp only [hm] at h ⊢
    rw [Walk.left_each (g := s.options.pruneEntry false slots ordered)
      (fun index v hv hh => s.left_walkEntry (ih v hv) hh) h]
    simp only [Nat.zero_add]

theorem left_walkObject_eq_prune {path : Pointer} {traits : Traits} {children : List (String × Element)}
    {fields : List (Key × Value)}
    (ih : ∀ field ∈ fields, s.LeavesPruned field.2)
    (ho : ((s.dropMeta path fields).andThen (s.reportMissing path children fields)).halt = none)
    (hi : (Walk.each (fun _ => s.walkField path children) 0 fields).trail.halt = none) :
    (s.walkObject path (.object traits children) children fields
      (.each (fun _ => s.walkField path children) 0 fields)).left =
        s.options.prune false (.object traits children) (.object fields) := by
  rw [s.left_walkObject ho, s.left_walkFields ih hi, Options.prune_false_object]

theorem left_walkArray_eq_prune {path : Pointer} {traits : Traits} {slots : List (Kind × Element)}
    {ordered : List Element} {allowNull : Bool} {shape : ArrayShape} {entries : List Value}
    (hl : ordered = [] ∨ ordered.length = entries.length)
    (ih : ∀ v ∈ entries, s.LeavesPruned v)
    (hi : (s.walkContents path slots ordered allowNull entries).trail.halt = none) :
    .array shape (s.walkContents path slots ordered allowNull entries).left =
      s.options.prune false (.array traits slots ordered allowNull) (.array shape entries) := by
  rw [s.left_walkContents ih hi, Options.prune_array _ _ _ _ _ _ hl]

/-- **A walk that went through leaves what `prune` leaves** of the value with its unlisted fields. -/
theorem left_walk (e : Element) (v : Value) : ∀ path, (s.walk path e v).trail.halt = none →
    (s.walk path e v).left = s.options.prune false e v := by
  induction e, v using Element.induct with
  | null e => exact fun path _ => by rw [walk_null]; rfl
  | wrong e v hv ha => exact fun path _ => by rw [walk_wrong s path hv ha, Options.prune_of_not_accepts _ _ ha]
  | scalar e v hv ha => exact fun path _ => by rw [walk_scalar s path hv ha, Options.prune_scalar _ _ _ hv]
  | object traits children fields ih =>
    intro path h
    rw [walk_object] at h ⊢
    obtain ⟨ho, hi⟩ := s.halt_walkObject h
    exact s.left_walkObject_eq_prune ih ho hi
  | array traits slots ordered allowNull shape entries ih =>
    intro path h
    by_cases hl : ordered = [] ∨ ordered.length = entries.length
    · rw [walk_array s path traits slots allowNull shape hl] at h ⊢
      rw [trail_walkArray] at h
      exact s.left_walkArray_eq_prune hl ih (Trail.halt_of_halt_andIfClean h)
    · rw [walk_array_of_length_ne s path traits slots allowNull shape hl,
        Options.prune_array_of_length_ne _ _ _ _ _ _ hl]

theorem leavesPruned (v : Value) : s.LeavesPruned v := fun e => s.left_walk e v

end Setting
end ConfigSchema
