import ConfigSchema.Proofs.Ledger
/-!
# Desk — a walk that works on what an engine keeps

An engine has one list of violations and one of notes, and a walk writes into both as it goes on.  Whether the validators
of a value are asked is told by the length of the list of violations, and a loop over fields or entries goes on unless the
run has ended early.  Whatever is on the desk before, and however the walk ends, it writes down there what it would find,
note and tell of by itself, and leaves of its value the same (`work_eq`).
-/
namespace ConfigSchema

/-- What an engine has on its desk: the violations of its run, the notes not carried out yet, each with the number of its
document, and all that has happened so far, in this run and before. -/
structure Desk where
  violations : List Violation := []
  pending : List (Nat × Removal) := []
  events : List Event := []
  /-- Why the run has ended early, if it has. -/
  halt : Option Halt := none

namespace Desk

/-- Writes down what a trail tells of, unless the run has ended early. -/
def write (d : Desk) (number : Nat) (place : Place) (t : Trail) : Desk :=
  match d.halt with
  | some _ => d
  | none =>
    { violations := d.violations ++ t.violations
      pending := d.pending ++ t.unlisted.map fun r => (number, r.inside place)
      events := d.events ++ t.events
      halt := t.halt }

end Desk

namespace Setting

variable (s : Setting) (number : Nat)

/-- The validators are asked only if no violation was written since there were `mark` of them. -/
def askSince (mark : Nat) (path : Pointer) (place : Place) (e : Element) (v : Value) (d : Desk) : Desk :=
  if d.violations.length = mark then d.write number place (s.askAll path e v) else d

def workScalar (path : Pointer) (place : Place) (e : Element) (v : Value) (d : Desk) : Desk :=
  if e.accepts v then
    s.askSince number d.violations.length path place e v (d.write number place (s.foundAll path (e.causes v)))
  else d.write number place (s.wrongKind path e v)

mutual

/-- Walks the value at a place of a document, and writes on the desk what there is to write. -/
def work (path : Pointer) (place : Place) (e : Element) (d : Desk) : Value → Value × Desk
  | .null => (.null, d.write number place (s.nullField path e))
  | .object fields =>
    match e with
    | .object _ children =>
      let opened := d.write number place ((s.dropMeta path fields).andThen (s.reportMissing path children fields))
      let inside := workFields path place children opened fields
      let left := Value.object (inside.1.filter fun field => !s.options.drops field.1)
      (left, (s.askSince number d.violations.length path place e left inside.2).write number place
        (s.noteUnlisted children fields))
    | _ => (.object fields, d.write number place (s.wrongKind path e (.object fields)))
  | .array shape entries =>
    match e with
    | .array _ slots ordered allowNull =>
      if ordered = [] ∨ ordered.length = entries.length then
        let inside := match ArrayMode.ofContents slots ordered with
          | .any => (entries, d.write number place (s.anyEntries path allowNull entries).trail)
          | .typed | .ordered => workEntries path place slots ordered allowNull 0 d entries
        let left := Value.array shape inside.1
        (left, s.askSince number d.violations.length path place e left inside.2)
      else
        (.array shape entries,
          d.write number place (s.found path (.arrayContents (.wrongLength entries.length ordered.length))))
    | _ => (.array shape entries, d.write number place (s.wrongKind path e (.array shape entries)))
  | .boolean b => (.boolean b, s.workScalar number path place e (.boolean b) d)
  | .number n => (.number n, s.workScalar number path place e (.number n) d)
  | .string text => (.string text, s.workScalar number path place e (.string text) d)
  | .foreign f => (.foreign f, s.workScalar number path place e (.foreign f) d)

/-- Walks the declared fields of an object, one after the other until the run ends early. -/
def workFields (path : Pointer) (place : Place) (children : List (String × Element)) (d : Desk) :
    List (Key × Value) → List (Key × Value) × Desk
  | [] => ([], d)
  | (key, v) :: rest =>
    match d.halt with
    | some _ => ((key, v) :: rest, d)
    | none =>
      let head := match Element.governing? children key with
        | some child => work (path.push key.token) (place ++ [Step.field key]) child d v
        | none => (v, d)
      let tail := workFields path place children head.2 rest
      ((key, head.1) :: tail.1, tail.2)

/-- Walks the entries of an array, one after the other until the run ends early. -/
def workEntries (path : Pointer) (place : Place) (slots : List (Kind × Element)) (ordered : List Element)
    (allowNull : Bool) (index : Nat) (d : Desk) : List Value → List Value × Desk
  | [] => ([], d)
  | v :: rest =>
    match d.halt with
    | some _ => (v :: rest, d)
    | none =>
      let head := match Element.entryDemand slots ordered allowNull index v with
        | .nothing => (v, d)
        | .refused cause => (v, d.write number place (s.found (path.entry index) cause))
        | .governed e => work (path.entry index) (place ++ [Step.entry index]) e d v
      let tail := workEntries path place slots ordered allowNull (index + 1) head.2 rest
      (head.1 :: tail.1, tail.2)

end

end Setting

/-! ## Writing down -/

namespace Desk

variable (d : Desk) (number : Nat) (place : Place)

theorem write_of_some {d : Desk} {halt : Halt} (h : d.halt = some halt) (t : Trail) : d.write number place t = d := by
  simp only [write, h]

theorem halt_write {d : Desk} (h : d.halt = none) (t : Trail) : (d.write number place t).halt = t.halt := by
  simp only [write, h]

/-- **Joined trails are written down one after the other**; nothing follows an early end here either. -/
theorem write_andThen (t u : Trail) :
    d.write number place (t.andThen u) = (d.write number place t).write number place u := by
  cases hd : d.halt with
  | some halt => simp only [write_of_some number place hd]
  | none =>
    cases ht : t.halt with
    | some halt => rw [Trail.andThen_of_some ht, write_of_some number place ((halt_write number place hd t).trans ht)]
    | none =>
      rw [Trail.andThen_of_none ht]
      simp [write, hd, ht, Trail.violations]

theorem write_empty : d.write number place .empty = d := by
  obtain ⟨violations, pending, events, halt⟩ := d
  cases halt <;> simp [write, Trail.empty, Trail.violations, Event.violations]

theorem write_under (step : Step) (t : Trail) :
    d.write number place (t.under step) = d.write number (place ++ [step]) t := by
  rw [write, write, Trail.violations_under]
  simp only [Trail.under, List.map_map, Function.comp_def, Removal.inside_under]

end Desk

namespace Walk

variable {α : Type}

/-- A walk of a list after a trail is the walk of its first part after it, and then of the others. -/
theorem left_after_cons {t : Trail} (h : t.halt = none) (head : Walk α) (first : α) (rest : List α)
    (tail : Walk (List α)) :
    ((head.cons rest tail).after t (first :: rest)).left = head.left :: (tail.after (t.andThen head.trail) rest).left := by
  rw [left_after h]
  cases hh : head.trail.halt with
  | some halt => simp only [cons, after, Trail.andThen_of_none h, hh]
  | none => simp only [cons, after, Trail.andThen_of_none h, hh]

end Walk

namespace Setting

variable {s : Setting} {number : Nat}

/-- **The length of the list says whether the trail since then tells of no violation.** -/
theorem askSince_write (path : Pointer) (place : Place) (e : Element) (v : Value) (d : Desk) (t : Trail) :
    s.askSince number d.violations.length path place e v (d.write number place t) =
      d.write number place (t.andIfClean (s.askAll path e v)) := by
  unfold askSince
  cases hd : d.halt with
  | some halt => simp only [Desk.write_of_some number place hd, if_true]
  | none =>
    have hlength : (d.write number place t).violations.length = d.violations.length ↔ t.violations = [] := by
      simp only [Desk.write, hd, List.length_append, Nat.add_eq_left, List.length_eq_zero_iff]
    by_cases hv : t.violations = []
    · rw [if_pos (hlength.2 hv), Trail.andIfClean_of_nil hv, Desk.write_andThen]
    · rw [if_neg (mt hlength.1 hv), Trail.andIfClean_of_ne_nil hv]

/-- The walk of a value writes its trail on any desk on which a run goes on. -/
def Works (s : Setting) (number : Nat) (v : Value) : Prop := ∀ e path place d, d.halt = none →
  s.work number path place e d v = ((s.walk path e v).left, d.write number place (s.walk path e v).trail)

theorem work_wrong (path : Pointer) (place : Place) (d : Desk) {e : Element} {v : Value} (hv : v.isNull = false)
    (h : e.accepts v = false) :
    s.work number path place e d v = (v, d.write number place (s.wrongKind path e v)) := by
  cases v with
  | null => cases hv
  | object fields =>
    cases e with
    | object => cases h
    | array | string | number | boolean => simp only [work]
  | array shape entries =>
    cases e with
    | array => cases h
    | object | string | number | boolean => simp only [work]
  | boolean | number | string | foreign => simp [work, workScalar, h]

theorem work_scalar (path : Pointer) (place : Place) (d : Desk) {e : Element} {v : Value} (hv : v.isScalar = true)
    (h : e.accepts v = true) : s.work number path place e d v =
      (v, s.askSince number d.violations.length path place e v
        (d.write number place (s.foundAll path (e.causes v)))) := by
  cases v with
  | null | object | array => cases hv
  | boolean | number | string | foreign => simp [work, workScalar, h]

/-- **The loop over fields takes up where a trail has ended**, if that was not early. -/
theorem workFields_eq (path : Pointer) (place : Place) (children : List (String × Element)) {d : Desk}
    (hd : d.halt = none) : ∀ (index : Nat) (fields : List (Key × Value)) (t : Trail),
      (∀ field ∈ fields, s.Works number field.2) →
      s.workFields number path place children (d.write number place t) fields =
        (((Walk.each (fun _ => s.walkField path children) index fields).after t fields).left,
          d.write number place (t.andThen (Walk.each (fun _ => s.walkField path children) index fields).trail))
  | _, [], t, _ => by
    cases ht : t.halt <;> simp [workFields, Walk.each, Walk.after, ht]
  | index, (key, v) :: rest, t, ih => by
    have hhalt := (Desk.halt_write number place hd t)
    rw [workFields]
    cases ht : t.halt with
    | some halt => simp only [hhalt, ht, Walk.after, Trail.andThen_of_some ht]
    | none =>
      have hhead : (match Element.governing? children key with
          | some child => s.work number (path.push key.token) (place ++ [Step.field key]) child
            (d.write number place t) v
          | none => (v, d.write number place t)) = ((s.walkField path children (key, v)).left.2,
            d.write number place (t.andThen (s.walkField path children (key, v)).trail)) := by
        unfold walkField
        cases Element.governing? children key with
        | none => simp only [Trail.andThen_empty]
        | some child =>
          simp only [ih _ List.mem_cons_self child _ _ _ (hhalt.trans ht), Walk.left_under, Walk.left_map,
            Walk.trail_under, Walk.trail_map, Desk.write_andThen, Desk.write_under]
      have hkey : (s.walkField path children (key, v)).left.1 = key := by
        unfold walkField
        cases Element.governing? children key <;> rfl
      simp only [hhalt, ht, hhead]
      rw [workFields_eq path place children hd (index + 1) rest _ fun field hf => ih field (List.mem_cons_of_mem _ hf),
        Walk.each, Walk.left_after_cons ht, Walk.trail_cons, Trail.andThen_assoc]
      exact Prod.ext (congrArg (· :: _) (Prod.ext hkey.symm rfl)) rfl

/-- **The loop over entries takes up where a trail has ended**, if that was not early. -/
theorem workEntries_eq (path : Pointer) (place : Place) (slots : List (Kind × Element)) (ordered : List Element)
    (allowNull : Bool) {d : Desk} (hd : d.halt = none) : ∀ (index : Nat) (entries : List Value) (t : Trail),
      (∀ v ∈ entries, s.Works number v) →
      s.workEntries number path place slots ordered allowNull index (d.write number place t) entries =
        (((Walk.each (s.walkEntry path slots ordered allowNull) index entries).after t entries).left,
          d.write number place (t.andThen (Walk.each (s.walkEntry path slots ordered allowNull) index entries).trail))
  | _, [], t, _ => by
    cases ht : t.halt <;> simp [workEntries, Walk.each, Walk.after, ht]
  | index, v :: rest, t, ih => by
    have hhalt := (Desk.halt_write number place hd t)
    rw [workEntries]
    cases ht : t.halt with
    | some halt => simp only [hhalt, ht, Walk.after, Trail.andThen_of_some ht]
    | none =>
      have hhead : (match Element.entryDemand slots ordered allowNull index v with
          | .nothing => (v, d.write number place t)
          | .refused cause => (v, (d.write number place t).write number place (s.found (path.entry index) cause))
          | .governed e => s.work number (path.entry index) (place ++ [Step.entry index]) e (d.write number place t) v) =
          ((s.walkEntry path slots ordered allowNull index v).left,
            d.write number place (t.andThen (s.walkEntry path slots ordered allowNull index v).trail)) := by
        unfold walkEntry
        cases Element.entryDemand slots ordered allowNull index v with
        | nothing => simp only [Trail.andThen_empty]
        | refused cause => simp only [Desk.write_andThen]
        | governed e =>
          simp only [ih v List.mem_cons_self e _ _ _ (hhalt.trans ht), Walk.left_under, Walk.trail_under,
            Desk.write_andThen, Desk.write_under]
      simp only [hhalt, ht, hhead]
      rw [workEntries_eq path place slots ordered allowNull hd (index + 1) rest _
        fun u hu => ih u (List.mem_cons_of_mem _ hu), Walk.each, Walk.left_after_cons ht, Walk.trail_cons,
        Trail.andThen_assoc]

theorem workContents_eq (path : Pointer) (place : Place) (slots : List (Kind × Element)) (ordered : List Element)
    (allowNull : Bool) (entries : List Value) {d : Desk} (hd : d.halt = none)
    (ih : ∀ v ∈ entries, s.Works number v) : (match ArrayMode.ofContents slots ordered with
      | .any => (entries, d.write number place (s.anyEntries path allowNull entries).trail)
      | .typed | .ordered => s.workEntries number path place slots ordered allowNull 0 d entries) =
      ((s.walkContents path slots ordered allowNull entries).left,
        d.write number place (s.walkContents path slots ordered allowNull entries).trail) := by
  have hentries := workEntries_eq path place slots ordered allowNull hd 0 entries .empty ih
  rw [Desk.write_empty, Trail.empty_andThen, Walk.left_after rfl] at hentries
  unfold walkContents
  cases ArrayMode.ofContents slots ordered with
  | any => rfl
  | typed | ordered => exact hentries

/-- **A walk writes on any desk what it finds, notes and tells of by itself**, however it ends. -/
theorem work_eq (e : Element) (v : Value) : ∀ path place d, d.halt = none →
    s.work number path place e d v = ((s.walk path e v).left, d.write number place (s.walk path e v).trail) := by
  induction e, v using Element.induct with
  | null e =>
    intro path place d _
    rw [work, walk_null]
  | wrong e v hv ha =>
    intro path place d _
    rw [work_wrong path place d hv ha, walk_wrong s path hv ha]
  | scalar e v hv ha =>
    intro path place d _
    rw [work_scalar path place d hv ha, walk_scalar s path hv ha, askSince_write]
  | object traits children fields ih =>
    intro path place d hd
    have hfields := workFields_eq path place children hd 0 fields
      ((s.dropMeta path fields).andThen (s.reportMissing path children fields)) ih
    -- the mark is the length of the list before the opening, behind which the fields are written
    rw [walk_object, trail_walkObject, Desk.write_andThen, ← askSince_write, work]
    simp only [hfields, walkObject]
  | array traits slots ordered allowNull shape entries ih =>
    intro path place d hd
    by_cases hl : ordered = [] ∨ ordered.length = entries.length
    · rw [work, if_pos hl, walk_array s path traits slots allowNull shape hl, trail_walkArray, left_walkArray,
        ← askSince_write]
      simp only [workContents_eq path place slots ordered allowNull entries hd ih]
    · rw [work, if_neg hl, walk_array_of_length_ne s path traits slots allowNull shape hl]

end Setting
end ConfigSchema
