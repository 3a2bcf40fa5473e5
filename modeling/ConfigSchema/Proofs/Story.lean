import Mathlib
import ConfigSchema.Proofs.Remarks
import ConfigSchema.Validation.Engine
/-!
# Story — the log of a run, line by line

The log of a run begins with a line on the document and goes on with the remarks of the walk.  A run that ends early says
no more; any other one ends with how many violations it found, and before that, if there are none, with how many unlisted
fields it has taken out (`log_run`).
-/
namespace ConfigSchema

/-! ## Objects are reached once -/

namespace Place

/-- Places one after the other, none of them around one that came before it. -/
def InOrder (places : List Place) : Prop := places.Pairwise fun earlier later => ¬ later <+: earlier

theorem inOrder_gather : ∀ {parts : List (Step × List Place)}, Apart parts → (∀ part ∈ parts, InOrder part.2) →
    InOrder (gather parts)
  | [], _, _ => .nil
  | (step, places) :: parts, hapart, hparts => by
    have hrest := inOrder_gather (List.pairwise_cons.1 hapart).2 fun part hp => hparts part (List.mem_cons_of_mem _ hp)
    rw [gather_cons]
    refine List.pairwise_append.2 ⟨List.pairwise_map.2 ?_, hrest, fun earlier he later hl hprefix => ?_⟩
    · refine (hparts _ List.mem_cons_self).imp fun hnot hprefix => hnot ?_
      exact (List.cons_prefix_cons.1 hprefix).2
    · obtain ⟨place, hp, rfl⟩ := List.mem_map.1 he
      cases later with
      | nil => exact nil_not_mem_gather hl
      | cons step' place' =>
        obtain ⟨rfl, -⟩ := List.cons_prefix_cons.1 hprefix
        exact hapart.not_mem_gather hl

end Place

namespace Element

/-- **Objects are reached one after the other, each before those inside it**, and none of them twice. -/
theorem inOrder_reached (e : Element) (v : Value) : v.Distinct → Place.InOrder (e.reached v) := by
  induction e, v using Element.induct with
  | null e => exact fun _ => .nil
  | wrong e v hv ha =>
    rw [reached_of_not_accepts ha]
    exact fun _ => .nil
  | scalar e v hv ha =>
    rw [reached_scalar e hv]
    exact fun _ => .nil
  | object traits children fields ih =>
    intro hd
    rw [reached_object]
    refine List.pairwise_cons.2 ⟨fun place hp hprefix => ?_, ?_⟩
    · rw [List.prefix_nil.1 hprefix] at hp
      exact Place.nil_not_mem_gather hp
    · refine Place.inOrder_gather (apart_reachedFields children hd.of_object.1) fun part hp => ?_
      obtain ⟨field, hf, rfl⟩ := List.mem_map.1 hp
      simp only [reachedField]
      cases governing? children field.1 with
      | none => exact .nil
      | some child => exact ih field hf child (hd.of_object.2 field hf)
  | array traits slots ordered allowNull shape entries ih =>
    intro hd
    by_cases hl : ordered = [] ∨ ordered.length = entries.length
    · rw [reached_array traits slots allowNull shape hl]
      refine Place.inOrder_gather (apart_reachedEntries _ entries) fun part hp => ?_
      obtain ⟨i, hi, rfl⟩ := List.mem_mapIdx.1 hp
      have hv := List.getElem_mem hi
      simp only [reachedEntry]
      cases entry? slots ordered i entries[i] with
      | none => exact .nil
      | some e => exact ih _ hv e (hd.of_array _ hv)
    · rw [reached_array_of_length_ne traits slots allowNull shape hl]
      exact .nil

end Element

/-! ## Lines of the log -/

/-- Whether a line begins with a text. -/
def Begins (start line : String) : Bool := start.toList.isPrefixOf line.toList

theorem begins_append (start rest : String) : Begins start (start ++ rest) = true := by
  rw [Begins, String.toList_append, List.isPrefixOf_iff_prefix]
  exact List.prefix_append _ _

namespace Remark

/-- The lines of remarks that tell of a violation are those of the violations. -/
theorem filter_text : ∀ remarks : List Remark, (remarks.map text).filter (Begins "Validation error: ") =
    (remarks.filterMap violation?).map fun x => "Validation error: " ++ x.text
  | [] => rfl
  | .pruned count path :: remarks => by
    have hother : Begins "Validation error: " (pruned count path).text = false := by
      simp only [text_pruned, Begins, String.toList_append]
      rfl
    rw [List.map_cons, List.filter_cons, hother, if_neg Bool.false_ne_true, filter_text remarks]
    rfl
  | .wrong x :: remarks => by
    rw [List.map_cons, List.filter_cons, text_wrong, begins_append, if_pos rfl, filter_text remarks]
    rfl

theorem not_begins_finished (b : Remark) : Begins "Validation finished" b.text = false := by
  cases b with
  | pruned count path =>
    simp only [text_pruned, Begins, String.toList_append]
    rfl
  | wrong x =>
    simp only [text_wrong, Begins, String.toList_append]
    rfl

end Remark

namespace Setting

variable {s : Setting}

/-! ## The remarks of a whole walk -/

theorem log_walkRoot (s : Setting) (root : Element) (document : Value) :
    Event.log (s.walkRoot root document).trail.events = (s.walkRoot root document).trail.remarks.map Remark.text := by
  cases ha : root.admits document with
  | true =>
    rw [s.walkRoot_of_admits root document ha]
    exact log_walk .root root document
  | false =>
    obtain ⟨fault, hw⟩ := s.walkRoot_of_not_admits root document ha
    rw [hw]
    exact Trail.log_eq_remarks (told_found_nil _ (fun _ => rfl) _)

theorem prunings_walkRoot (s : Setting) (root : Element) {document : Value} (hd : document.Distinct) :
    (s.walkRoot root document).trail.told Event.pruning? =
      (s.entered .root root document).filterMap (s.pruningAt? .root root document) := by
  cases ha : root.admits document with
  | true =>
    rw [s.walkRoot_of_admits root document ha]
    exact told_prunings root document .root hd
  | false =>
    obtain ⟨fault, hw⟩ := s.walkRoot_of_not_admits root document ha
    rw [hw, entered_of_not_admits ha]
    exact told_found_nil _ (fun _ => rfl) _

theorem precedes_walkRoot (s : Setting) (root : Element) {document : Value} (hd : document.Distinct) :
    (s.walkRoot root document).trail.remarks.Pairwise Remark.Precedes := by
  cases ha : root.admits document with
  | true =>
    rw [s.walkRoot_of_admits root document ha]
    exact precedes_walk root document .root hd
  | false =>
    obtain ⟨fault, hw⟩ := s.walkRoot_of_not_admits root document ha
    rw [hw]
    exact List.pairwise_singleton ..

/-! ## The end of a run -/

theorem sum_filter_pos : ∀ counts : List Nat, (counts.filter (0 < ·)).sum = counts.sum
  | [] => rfl
  | count :: counts => by
    rw [List.filter_cons, List.sum_cons, ← sum_filter_pos counts]
    by_cases h : 0 < count
    · simp only [h, decide_true, if_true, List.sum_cons]
    · simp only [h, decide_false, Bool.false_eq_true, if_false]
      omega

/-- How many unlisted fields the objects hold that a run enters. -/
def unlistedIn (s : Setting) (root : Element) (document : Value) : Nat :=
  ((s.entered .root root document).map (s.unlistedAt root document)).sum

/-- A clean walk has as many fields to take out as the objects hold that are unlisted, if these are to go; and it has a note
only if there are any. -/
theorem count_walkRoot {root : Element} {document : Value} (hd : document.Distinct)
    (h : (s.walkRoot root document).trail.Clean) :
    Removal.count (s.walkRoot root document).trail.unlisted =
        (if s.options.pruneUnlisted then s.unlistedIn root document else 0) ∧
      ((s.walkRoot root document).trail.unlisted = [] ↔ Removal.count (s.walkRoot root document).trail.unlisted = 0) := by
  have hadmits : root.admits document = true := by
    by_contra hna
    obtain ⟨fault, hw⟩ := s.walkRoot_of_not_admits root document (Bool.eq_false_iff.2 hna)
    rw [hw] at h
    exact s.not_clean_found _ _ h
  have hentered := (s.entered_walkRoot root hd).1.all h.halt
  rw [s.walkRoot_of_admits root document hadmits] at h ⊢
  have hnoted := noted_walk root document .root hd h
  have hcount : Removal.count (s.walk .root root document).trail.unlisted =
      ((s.walk .root root document).trail.unlisted.map (·.keys.length)).sum := List.length_flatMap ..
  refine ⟨?_, fun hnil => by rw [hnil]; rfl, fun hzero => ?_⟩
  · rw [hcount, hnoted.sum_nat, sum_filter_pos, unlistedIn, hentered]
    cases hu : s.options.pruneUnlisted with
    | true =>
      have hall : s.notedAt root document = s.unlistedAt root document :=
        funext fun place => by rw [notedAt, hu, if_pos rfl]
      rw [hall, if_pos rfl]
    | false =>
      have hnone : s.notedAt root document = fun _ => 0 := funext fun place => by rw [notedAt, hu]; rfl
      simp [hnone]
  · -- a note names at least one field
    refine List.eq_nil_iff_forall_not_mem.2 fun r hr => ?_
    have hkeys := List.mem_map_of_mem (f := fun r : Removal => r.keys.length) hr
    have hpos : 0 < r.keys.length := of_decide_eq_true (List.mem_filter.1 (hnoted.subset hkeys)).2
    rw [hcount, List.sum_eq_zero_iff_forall_eq_nat] at hzero
    exact Nat.ne_of_gt hpos (hzero _ hkeys)

/-- What a run says at its end that found these violations, of a document with so many unlisted fields. -/
def closing (s : Setting) (errors : List Violation) (unlisted : Nat) : List String :=
  (if errors = [] ∧ s.options.pruneUnlisted = true ∧ 0 < unlisted then
    ["Pruned " ++ toString unlisted ++ " unlisted field(s)"] else []) ++
    ["Validation finished with " ++ toString errors.length ++ " error(s)"]

/-- The line with which a run begins. -/
def opening (root : Element) (document : Value) : String :=
  "Validating " ++ document.kindName ++ " value against " ++ root.kind.label ++ " root element"

theorem opening_eq (root : Element) (document : Value) : opening root document =
    "Validating " ++ document.kindName ++ " value against " ++ root.kind.label ++ " root element" := rfl

theorem log_run_of_some {root : Element} {document : Value} {halt : Halt}
    (h : (s.walkRoot root document).trail.halt = some halt) :
    (s.run root document).log = opening root document :: (s.walkRoot root document).trail.remarks.map Remark.text := by
  rw [run_of_some s root document h, Run.log, ← log_walkRoot]
  rfl

theorem log_run_of_none {root : Element} {document : Value} (hd : document.Distinct)
    (h : (s.walkRoot root document).trail.halt = none) :
    (s.run root document).log = opening root document :: ((s.walkRoot root document).trail.remarks.map Remark.text ++
      s.closing (s.walkRoot root document).trail.violations (s.unlistedIn root document)) := by
  rw [run_of_none s root document h, Run.log, ← log_walkRoot, closing]
  by_cases hv : (s.walkRoot root document).trail.violations = []
  · obtain ⟨hcount, hnil⟩ := count_walkRoot hd ⟨h, hv⟩
    by_cases hpruned : s.options.pruneUnlisted = true ∧ 0 < s.unlistedIn root document
    · rw [if_pos hpruned.1] at hcount
      have hnotes : (s.walkRoot root document).trail.unlisted ≠ [] := fun heq => by
        have hzero := hnil.1 heq
        omega
      simp [close, hv, hnotes, hpruned, hcount, Event.log, Event.message?, opening_eq]
    · have hzero : Removal.count (s.walkRoot root document).trail.unlisted = 0 := by
        rw [hcount]
        split
        · rename_i hu
          exact Nat.eq_zero_of_not_pos fun hpos => hpruned ⟨hu, hpos⟩
        · rfl
      simp [close, hv, hnil.2 hzero, hpruned, Event.log, Event.message?, opening_eq]
  · simp [close, hv, Event.log, Event.message?, opening_eq]

theorem begins_error_opening (root : Element) (document : Value) :
    Begins "Validation error: " (opening root document) = false := by
  simp only [opening_eq, Begins, String.toList_append]
  rfl

theorem filter_closing (s : Setting) (errors : List Violation) (unlisted : Nat) :
    (s.closing errors unlisted).filter (Begins "Validation error: ") = [] := by
  refine List.filter_eq_nil_iff.2 fun line hline => ?_
  rw [Bool.not_eq_true]
  rcases List.mem_append.1 hline with hline | hline
  · split at hline
    · cases List.mem_singleton.1 hline
      simp only [Begins, String.toList_append]
      rfl
    · cases hline
  · cases List.mem_singleton.1 hline
    simp only [Begins, String.toList_append]
    rfl

/-- **The lines on errors are those of the violations**, one for each. -/
theorem filter_log_run {root : Element} {document : Value} (hd : document.Distinct) :
    (s.run root document).log.filter (Begins "Validation error: ") =
      (s.run root document).violations.map fun x => "Validation error: " ++ x.text := by
  rw [violations_run, ← Trail.violations_remarks]
  cases h : (s.walkRoot root document).trail.halt with
  | some halt =>
    rw [log_run_of_some h, List.filter_cons, begins_error_opening, if_neg Bool.false_ne_true, Remark.filter_text]
  | none =>
    rw [log_run_of_none hd h, List.filter_cons, begins_error_opening, if_neg Bool.false_ne_true, List.filter_append,
      Remark.filter_text, filter_closing, List.append_nil]

end Setting

namespace Engine

/-- **What the log of a run tells**: remarks between the line with which it begins and those with which it ends.  The errors
are those that the engine shows afterwards. -/
structure Story (engine : Engine) (document : Value) (remarks : List Remark) (ending : List String) : Prop where
  log : (engine.run document).1.log = Setting.opening engine.root document :: (remarks.map Remark.text ++ ending)
  /-- Every error is told of when it is found. -/
  wrong : remarks.filterMap Remark.violation? = (engine.run document).2.violations
  errors : (engine.run document).1.log.filter (Begins "Validation error: ") =
    (engine.run document).2.violations.map fun x => "Validation error: " ++ x.text
  /-- Every object that is entered has one remark, if it has meta fields and these are to go; and there are no others. -/
  pruned : remarks.filterMap Remark.pruning? = (engine.setting.entered .root engine.root document).filterMap
    (engine.setting.pruningAt? .root engine.root document)
  /-- An object is entered before those inside it, and once. -/
  inOrder : Place.InOrder (engine.setting.entered .root engine.root document)
  /-- The remark on its meta fields comes before all others on the object and on what is in it. -/
  precedes : remarks.Pairwise Remark.Precedes
  /-- A run that ends early has entered the first of the objects that are reached, which have lost their meta fields, and
  says nothing at its end. -/
  raised : ∀ halt, (engine.run document).1.outcome = .error halt →
    engine.setting.entered .root engine.root document <+: engine.root.reached document ∧
      (engine.run document).1.document =
        engine.setting.options.shed (engine.setting.entered .root engine.root document).contains document ∧
      ending = [] ∧ ∀ line ∈ (engine.run document).1.log, Begins "Validation finished" line = false
  /-- Any other run has entered all of them. -/
  returned : ∀ errors, (engine.run document).1.outcome = .ok errors →
    engine.setting.entered .root engine.root document = engine.root.reached document ∧
      errors = (engine.run document).2.violations ∧
      ending = engine.setting.closing errors (engine.setting.unlistedIn engine.root document)

variable {engine : Engine} {document : Value}

/-- **The log of a run tells its story exactly**, however the run ends. -/
theorem log_run (engine : Engine) (hd : document.Distinct) : ∃ remarks ending, engine.Story document remarks ending := by
  obtain ⟨root, s, earlier⟩ := engine
  have hviolations := (s.walkRoot root document).trail.violations_remarks.trans (s.violations_run root document).symm
  have hprunings := (s.walkRoot root document).trail.prunings_remarks.trans (s.prunings_walkRoot root hd)
  obtain ⟨hentered, hleft⟩ := s.entered_walkRoot root hd
  have hinOrder : Place.InOrder (s.entered .root root document) :=
    (root.inOrder_reached document hd).sublist hentered.first.sublist
  cases h : (s.walkRoot root document).trail.halt with
  | some halt =>
    have hlog := s.log_run_of_some h
    rw [← List.append_nil (List.map _ _)] at hlog
    refine ⟨(s.walkRoot root document).trail.remarks, [], hlog, hviolations, Setting.filter_log_run hd, hprunings, hinOrder,
      s.precedes_walkRoot root hd, fun halt' hend => ⟨hentered.first, ?_, rfl, ?_⟩, fun errors hend => ?_⟩
    · rw [run, s.run_of_some root document h, hleft]
    · rw [run, hlog, List.append_nil]
      refine List.forall_mem_cons.2 ⟨?_, fun line hline => ?_⟩
      · simp only [Setting.opening_eq, Begins, String.toList_append]
        rfl
      · obtain ⟨b, -, rfl⟩ := List.mem_map.1 hline
        exact b.not_begins_finished
    · have hnone := ((s.outcome_run_eq_ok root document).1 hend).1
      rw [h] at hnone
      cases hnone
  | none =>
    have hlog := s.log_run_of_none hd h
    refine ⟨(s.walkRoot root document).trail.remarks, _, hlog, hviolations, Setting.filter_log_run hd, hprunings, hinOrder,
      s.precedes_walkRoot root hd, fun halt hend => ?_, fun errors hend => ?_⟩
    · have hok := (s.outcome_run_eq_ok root document).2 ⟨h, rfl⟩
      rw [run, hok] at hend
      cases hend
    · obtain ⟨-, rfl⟩ := (s.outcome_run_eq_ok root document).1 hend
      exact ⟨hentered.all h, (s.violations_run root document).symm, rfl⟩

/-- An object is entered below a declared meta field that is already out of the document, and its fields count. -/
theorem log_run_detached :
    let engine : Engine := ⟨.object {} [("$note", .object {} [("text", .string {} {})])],
      ⟨{ pruneUnlisted := true }, fun _ _ _ => .accept⟩, []⟩
    let document := Value.object [(.name "$note", .object [(.name "extra", .null), (.name "text", .string "t"),
      (.name "$m", .null)]), (.name "more", .null), (.name "$n", .null)]
    (∃ remarks ending, engine.Story document remarks ending) ∧ (engine.run document).1.log =
      ["Validating object value against object root element", "Pruned 2 meta field(s) at <root>",
        "Pruned 1 meta field(s) at /$note", "Pruned 2 unlisted field(s)", "Validation finished with 0 error(s)"] := by
  intro engine document
  have hnote : (Value.object [(.name "extra", .null), (.name "text", .string "t"), (.name "$m", .null)]).Distinct :=
    .object (by decide) (by simp [Value.Distinct.null, Value.Distinct.scalar (v := .string "t") rfl])
  have hd : document.Distinct := .object (by decide) (by simp [hnote, Value.Distinct.null])
  refine ⟨log_run engine hd, ?_⟩
  unfold engine document
  rfl

end Engine
end ConfigSchema
