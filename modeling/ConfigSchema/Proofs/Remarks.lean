import ConfigSchema.Proofs.Branches
import ConfigSchema.Proofs.Tallies
/-!
# Remarks — what a walk says on its way

Two sorts of events leave a line in the log while a document is walked: meta fields are taken out of an object, or a
violation is found (`log_walk`).  What is said of the meta fields of an object comes before all else that is said of the
object and of anything in it (`precedes_walk`).
-/
namespace ConfigSchema

/-- What a walk has to say. -/
inductive Remark where
  | pruned (count : Nat) (path : Pointer)
  | wrong (x : Violation)

namespace Remark

def path : Remark → Pointer
  | .pruned _ path => path
  | .wrong x => x.path

def text : Remark → String
  | .pruned count path => "Pruned " ++ toString count ++ " meta field(s) at " ++ path.shown
  | .wrong x => "Validation error: " ++ x.text

theorem text_pruned (count : Nat) (path : Pointer) :
    (pruned count path).text = "Pruned " ++ toString count ++ " meta field(s) at " ++ path.shown := rfl

theorem text_wrong (x : Violation) : (wrong x).text = "Validation error: " ++ x.text := rfl

def pruning? : Remark → Option (Nat × Pointer)
  | .pruned count path => some (count, path)
  | .wrong _ => none

def violation? : Remark → Option Violation
  | .pruned _ _ => none
  | .wrong x => some x

/-- One remark may be made before another: if the later one is of the meta fields of an object, the earlier one is neither
of this object nor of anything in it. -/
def Precedes (a b : Remark) : Prop := ∀ pruning ∈ b.pruning?, ¬ pruning.2.tokens <+: a.path.tokens

variable {a b : Remark}

theorem path_of_pruning? {pruning : Nat × Pointer} (h : pruning ∈ b.pruning?) : pruning.2 = b.path := by
  cases b with
  | pruned count path =>
    cases h
    rfl
  | wrong x => cases h

/-- Below two ways that part, either remark may come first. -/
theorem precedes_of_parting {path : List String} {s t : String} (hst : s ≠ t) (ha : path ++ [s] <+: a.path.tokens)
    (hb : path ++ [t] <+: b.path.tokens) : a.Precedes b := by
  intro pruning hp
  rw [path_of_pruning? hp]
  exact Violation.not_prefix_of_parting hst.symm hb ha

/-- A remark about a value may come before what is said of anything in it. -/
theorem precedes_of_below {path : List String} {t : String} (ha : a.path.tokens = path)
    (hb : path ++ [t] <+: b.path.tokens) : a.Precedes b := by
  intro pruning hp hprefix
  rw [path_of_pruning? hp, ha] at hprefix
  have hlength := (hb.trans hprefix).length_le
  rw [List.length_append, List.length_singleton] at hlength
  omega

end Remark

def Event.remark? : Event → Option Remark
  | .metaPruned count path => some (.pruned count path)
  | .found x => some (.wrong x)
  | _ => none

/-- An event that only a run as a whole tells of. -/
def Event.frame? : Event → Option Event
  | .metaPruned _ _ | .found _ | .judged _ _ _ => none
  | event => some event

namespace Trail

/-- What a trail leaves in the log, in order. -/
def remarks (t : Trail) : List Remark := t.told Event.remark?

variable {t u : Trail}

theorem prunings_remarks (t : Trail) : t.remarks.filterMap Remark.pruning? = t.told Event.pruning? := by
  rw [remarks, told, told, List.filterMap_filterMap]
  exact List.filterMap_congr fun event _ => by cases event <;> rfl

theorem violations_remarks (t : Trail) : t.remarks.filterMap Remark.violation? = t.violations := by
  rw [remarks, told, violations, Event.violations, List.filterMap_filterMap]
  exact List.filterMap_congr fun event _ => by cases event <;> rfl

/-- A remark of a trail is of meta fields that it tells of, or of a violation that it tells of. -/
theorem cases_of_mem_remarks {b : Remark} (hb : b ∈ t.remarks) :
    (∃ count path, (count, path) ∈ t.told Event.pruning? ∧ b = .pruned count path) ∨
      ∃ x ∈ t.violations, b = .wrong x := by
  rw [← prunings_remarks, ← violations_remarks]
  cases b with
  | pruned count path => exact .inl ⟨count, path, List.mem_filterMap.2 ⟨_, hb, rfl⟩, rfl⟩
  | wrong x => exact .inr ⟨x, List.mem_filterMap.2 ⟨_, hb, rfl⟩, rfl⟩

theorem mem_remarks_of_no_prunings (h : t.told Event.pruning? = []) {b : Remark} (hb : b ∈ t.remarks) :
    ∃ x ∈ t.violations, b = .wrong x := by
  rcases cases_of_mem_remarks hb with ⟨count, path, hp, -⟩ | hx
  · rw [h] at hp
    cases hp
  · exact hx

/-- Anything may come before a remark of a trail that takes out no meta fields. -/
theorem precedes_of_no_prunings (h : u.told Event.pruning? = []) (a : Remark) : ∀ b ∈ u.remarks, a.Precedes b := by
  intro b hb pruning hp
  obtain ⟨x, -, rfl⟩ := mem_remarks_of_no_prunings h hb
  cases hp

theorem pairwise_of_no_prunings (h : t.told Event.pruning? = []) : t.remarks.Pairwise Remark.Precedes :=
  List.pairwise_iff_getElem.2 fun _ _ _ _ _ => precedes_of_no_prunings h _ _ (List.getElem_mem _)

/-- **The log of a trail is its remarks**, if no event is told of that belongs to a run as a whole. -/
theorem log_eq_remarks (h : t.told Event.frame? = []) : Event.log t.events = t.remarks.map Remark.text := by
  rw [Event.log, remarks, told, List.map_filterMap]
  refine List.filterMap_congr fun event he => ?_
  have hinside := List.filterMap_eq_nil_iff.1 h event he
  cases event with
  | metaPruned | found | judged => rfl
  | began | unlistedPruned | finished => cases hinside

end Trail

namespace Setting

variable {s : Setting}

theorem log_walk (path : Pointer) (e : Element) (v : Value) :
    Event.log (s.walk path e v).trail.events = (s.walk path e v).trail.remarks.map Remark.text :=
  Trail.log_eq_remarks (told_walk_nil (fun _ _ => rfl) (fun _ => rfl) (fun _ _ _ => rfl) e v path)

/-! ## Where remarks point -/

theorem tokens_prefix_of_mem_prunings {path : Pointer} {e : Element} {v : Value} (hd : v.Distinct) :
    ∀ pruning ∈ (s.walk path e v).trail.told Event.pruning?, path.tokens <+: pruning.2.tokens := by
  intro pruning hp
  rw [told_prunings e v path hd] at hp
  obtain ⟨place, -, hplace⟩ := List.mem_filterMap.1 hp
  unfold pruningAt? at hplace
  split at hplace
  · cases hplace
    rw [Pointer.tokens_along]
    exact List.prefix_append _ _
  · cases hplace

theorem tokens_prefix_of_mem_remarks {path : Pointer} {e : Element} {v : Value} (hd : v.Distinct) :
    ∀ b ∈ (s.walk path e v).trail.remarks, path.tokens <+: b.path.tokens := by
  intro b hb
  rcases Trail.cases_of_mem_remarks hb with ⟨count, path', hp, rfl⟩ | ⟨x, hx, rfl⟩
  · have hprefix := tokens_prefix_of_mem_prunings hd _ hp
    exact hprefix
  · exact tokens_prefix_of_mem_walk hd x hx

theorem tokens_prefix_of_mem_fieldRemarks {path : Pointer} {children : List (String × Element)} {field : Key × Value}
    (hd : field.2.Distinct) {b : Remark} (hb : b ∈ (s.walkField path children field).trail.remarks) :
    ∃ name, field.1 = .name name ∧ path.tokens ++ [name] <+: b.path.tokens := by
  obtain ⟨key, v⟩ := field
  unfold walkField at hb
  cases key with
  | number | null => cases hb
  | name name =>
    refine ⟨name, rfl, ?_⟩
    rw [← Pointer.tokens_push]
    cases hg : Element.governing? children (.name name) with
    | none => simp only [hg] at hb; cases hb
    | some child =>
      simp only [hg] at hb
      exact tokens_prefix_of_mem_remarks hd b hb

theorem tokens_prefix_of_mem_entryRemarks {path : Pointer} {slots : List (Kind × Element)} {ordered : List Element}
    {allowNull : Bool} {index : Nat} {v : Value} (hd : v.Distinct) :
    ∀ b ∈ (s.walkEntry path slots ordered allowNull index v).trail.remarks,
      path.tokens ++ [toString index] <+: b.path.tokens := by
  intro b hb
  unfold walkEntry at hb
  rw [← Pointer.tokens_entry]
  cases hdemand : Element.entryDemand slots ordered allowNull index v with
  | nothing => rw [hdemand] at hb; cases hb
  | refused cause =>
    rw [hdemand] at hb
    obtain ⟨x, hx, rfl⟩ := Trail.mem_remarks_of_no_prunings (told_found_nil _ (fun _ => rfl) cause) hb
    rw [mem_violations_found.1 hx]
    exact List.prefix_rfl
  | governed e =>
    rw [hdemand] at hb
    exact tokens_prefix_of_mem_remarks hd b hb

theorem path_of_mem_dropRemarks {path : Pointer} {fields : List (Key × Value)} {b : Remark}
    (hb : b ∈ (s.dropMeta path fields).remarks) : b.path = path := by
  unfold dropMeta at hb
  simp only at hb
  split at hb
  · cases hb
  · cases List.mem_singleton.1 hb
    rfl

/-! ## The order of remarks -/

/-- The remarks of walks of a value may come in the order in which they do. -/
def RemarksInOrder (s : Setting) (v : Value) : Prop := ∀ e path, v.Distinct →
  (s.walk path e v).trail.remarks.Pairwise Remark.Precedes

theorem precedes_walkFields {path : Pointer} {children : List (String × Element)} {fields : List (Key × Value)}
    (ih : ∀ field ∈ fields, s.RemarksInOrder field.2) (hd : (Value.object fields).Distinct) :
    (Walk.each (fun _ => s.walkField path children) 0 fields).trail.remarks.Pairwise Remark.Precedes := by
  obtain ⟨hnames, heach⟩ := hd.of_object
  refine Walk.pairwise_told_each (fun i field hi => ?_) fun i j field field' hlt hi hj a ha b hb => ?_
  · have hf := List.mem_of_getElem? hi
    unfold walkField
    cases Element.governing? children field.1 with
    | none => exact .nil
    | some child => exact ih field hf child _ (heach field hf)
  · obtain ⟨name, hname, ha⟩ := tokens_prefix_of_mem_fieldRemarks (heach _ (List.mem_of_getElem? hi)) ha
    obtain ⟨name', hname', hb⟩ := tokens_prefix_of_mem_fieldRemarks (heach _ (List.mem_of_getElem? hj)) hb
    refine Remark.precedes_of_parting ?_ ha hb
    obtain ⟨hi', hfield⟩ := List.getElem?_eq_some_iff.1 hi
    obtain ⟨hj', hfield'⟩ := List.getElem?_eq_some_iff.1 hj
    refine List.pairwise_iff_getElem.1 (List.pairwise_filterMap.1 hnames) i j hi' hj' hlt name ?_ name' ?_
    · rw [hfield, hname]; rfl
    · rw [hfield', hname']; rfl

theorem precedes_walkContents {path : Pointer} {slots : List (Kind × Element)} {ordered : List Element}
    {allowNull : Bool} {entries : List Value} (ih : ∀ v ∈ entries, s.RemarksInOrder v) (hd : ∀ v ∈ entries, v.Distinct) :
    (s.walkContents path slots ordered allowNull entries).trail.remarks.Pairwise Remark.Precedes := by
  unfold walkContents
  cases ArrayMode.ofContents slots ordered with
  | any => exact Trail.pairwise_of_no_prunings (told_anyEntries_nil path (fun _ => rfl) allowNull entries)
  | typed | ordered =>
    refine Walk.pairwise_told_each (fun i v hi => ?_) fun i j v u hlt hi hj a ha b hb => ?_
    · have hv := List.mem_of_getElem? hi
      unfold walkEntry
      cases Element.entryDemand slots ordered allowNull (0 + i) v with
      | nothing => exact .nil
      | refused cause => exact List.pairwise_singleton ..
      | governed e => exact ih v hv e _ (hd v hv)
    · refine Remark.precedes_of_parting (fun heq => ?_)
        (tokens_prefix_of_mem_entryRemarks (hd v (List.mem_of_getElem? hi)) a ha)
        (tokens_prefix_of_mem_entryRemarks (hd u (List.mem_of_getElem? hj)) b hb)
      have hindex := congrArg Value.index? heq
      rw [Value.index?_toString, Value.index?_toString, Option.some.injEq] at hindex
      omega

theorem precedes_walkObject {path : Pointer} {traits : Traits} {children : List (String × Element)}
    {fields : List (Key × Value)} (ih : ∀ field ∈ fields, s.RemarksInOrder field.2) (hd : (Value.object fields).Distinct) :
    (s.walk path (.object traits children) (.object fields)).trail.remarks.Pairwise Remark.Precedes := by
  have hmissing := told_reportMissing_nil (s := s) (p := Event.pruning?) path (fun _ => rfl) children fields
  rw [walk_object, trail_walkObject]
  refine Trail.pairwise_told_andThen (Trail.pairwise_told_andIfClean (Trail.pairwise_told_andThen
      (Trail.pairwise_told_andThen ?_ (Trail.pairwise_of_no_prunings hmissing)
        fun a _ => Trail.precedes_of_no_prunings hmissing a)
      (precedes_walkFields ih hd) fun a ha b hb => ?_)
    (Trail.pairwise_of_no_prunings (told_askAll_nil path (fun _ => rfl) (fun _ _ _ => rfl) _ _))
    fun _ a _ => Trail.precedes_of_no_prunings (told_askAll_nil path (fun _ => rfl) (fun _ _ _ => rfl) _ _) a) ?_ ?_
  · unfold dropMeta
    simp only
    split
    · exact .nil
    · exact List.pairwise_singleton ..
  · -- what is said of the object itself comes before what is said of its fields
    obtain ⟨i, field, hi, hb⟩ := Walk.mem_told_each hb
    have hf := List.mem_of_getElem? hi
    obtain ⟨name, hname, hb⟩ := tokens_prefix_of_mem_fieldRemarks (hd.of_object.2 field hf) hb
    rcases Trail.mem_told_andThen ha with ha | ⟨-, ha⟩
    · exact Remark.precedes_of_below (congrArg Pointer.tokens (path_of_mem_dropRemarks ha)) hb
    · -- a name that is missing is the name of no field
      obtain ⟨x, hx, rfl⟩ := Trail.mem_remarks_of_no_prunings hmissing ha
      obtain ⟨name', hn, rfl⟩ := mem_violations_reportMissing hx
      refine Remark.precedes_of_parting (fun heq => ?_) (Violation.prefix_tokens_push path name') hb
      subst heq
      exact Element.not_mem_of_mem_missingNames hn (List.mem_map.2 ⟨field, hf, hname⟩)
  · rw [told_noteUnlisted_nil]
    exact .nil
  · intro a _ b hb
    rw [told_noteUnlisted_nil] at hb
    cases hb

/-- **What a walk says of the meta fields of an object it says before anything else of the object and of what is in it.** -/
theorem precedes_walk (e : Element) (v : Value) : ∀ path, v.Distinct →
    (s.walk path e v).trail.remarks.Pairwise Remark.Precedes := by
  induction e, v using Element.induct with
  | null e =>
    intro path _
    rw [walk_null]
    exact Trail.pairwise_of_no_prunings (told_nullField_nil path (fun _ => rfl) e)
  | wrong e v hv ha =>
    intro path _
    rw [walk_wrong s path hv ha]
    exact List.pairwise_singleton ..
  | scalar e v hv ha =>
    intro path _
    rw [walk_scalar s path hv ha]
    refine Trail.pairwise_of_no_prunings ?_
    rw [Trail.told_andIfClean_nil (told_askAll_nil path (fun _ => rfl) (fun _ _ _ => rfl) e v)]
    exact told_foundAll_nil path (fun _ => rfl) _
  | object traits children fields ih =>
    intro path hd
    exact precedes_walkObject (fun field hf e path => ih field hf e path) hd
  | array traits slots ordered allowNull shape entries ih =>
    intro path hd
    by_cases hl : ordered = [] ∨ ordered.length = entries.length
    · have hask := told_askAll_nil (s := s) (p := Event.pruning?) path (fun _ => rfl) (fun _ _ _ => rfl)
        (.array traits slots ordered allowNull) (.array shape (s.walkContents path slots ordered allowNull entries).left)
      rw [walk_array s path traits slots allowNull shape hl, trail_walkArray]
      exact Trail.pairwise_told_andIfClean (precedes_walkContents (fun v hv e path => ih v hv e path) hd.of_array)
        (Trail.pairwise_of_no_prunings hask) fun _ a _ => Trail.precedes_of_no_prunings hask a
    · rw [walk_array_of_length_ne s path traits slots allowNull shape hl]
      exact List.pairwise_singleton ..

end Setting
end ConfigSchema
