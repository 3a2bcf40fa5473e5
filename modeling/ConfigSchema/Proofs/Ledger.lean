import ConfigSchema.Proofs.Collected
/-!
# Ledger — a walk that writes into what is there already

The same walk can be told in one ledger that is handed from value to value: each violation and each note is written behind
those that are there, and the validators of a value are asked if no violation was written since the value was opened.
Whatever the ledger holds before, the walk adds to it what it would find and note by itself (`record_eq`).
-/
namespace ConfigSchema

/-- What was found so far, and what is noted so far, each note with the place of its object in the document. -/
structure Ledger where
  violations : List Violation := []
  unlisted : List Removal := []

namespace Ledger

def found (l : Ledger) (path : Pointer) (cause : Cause) : Ledger :=
  { l with violations := l.violations ++ [⟨cause, path⟩] }

def foundAll (l : Ledger) (path : Pointer) (causes : List Cause) : Ledger := causes.foldl (·.found path ·) l

def missing (l : Ledger) (path : Pointer) (names : List String) : Ledger :=
  names.foldl (fun l name => l.found (path.push name) (.missingField name)) l

def note (l : Ledger) (r : Removal) : Ledger := { l with unlisted := l.unlisted ++ [r] }

end Ledger

namespace Setting

variable (s : Setting)

/-- All validators of an element are asked; one that rejects is written down. -/
def consult (path : Pointer) (e : Element) (v : Value) (l : Ledger) : Ledger :=
  e.validators.foldl (fun l w => match s.judge w e v with
    | .reject => l.found path (.badValue (.rejectedBy w.label))
    | .accept | .fail _ => l) l

/-- The validators are asked only if no violation was written since there were `mark` of them. -/
def consultSince (mark : Nat) (path : Pointer) (e : Element) (v : Value) (l : Ledger) : Ledger :=
  if l.violations.length = mark then s.consult path e v l else l

def recordScalar (path : Pointer) (e : Element) (v : Value) (l : Ledger) : Ledger :=
  if e.accepts v then s.consultSince l.violations.length path e v (l.foundAll path (e.causes v))
  else l.found path (.wrongType v.kindName e.kind.label)

mutual

/-- Walks the value at a place of the document, and writes into a ledger what is wrong with it. -/
def record (path : Pointer) (place : Place) (e : Element) (l : Ledger) : Value → Value × Ledger
  | .null => (.null, if e.traits.nullable then l else l.found path (.nullValue e.name?))
  | .object fields =>
    match e with
    | .object _ children =>
      -- whatever is written from here on keeps the validators from being asked
      let inside := recordFields path place children (l.missing path (Element.missingNames children fields)) fields
      let left := Value.object (inside.1.filter fun field => !s.options.drops field.1)
      let consulted := s.consultSince l.violations.length path e left inside.2
      let keys := s.unlistedKeys children fields
      (left, if s.options.pruneUnlisted && !keys.isEmpty then consulted.note ⟨place, keys⟩ else consulted)
    | _ => (.object fields, l.found path (.wrongType (Value.object fields).kindName e.kind.label))
  | .array shape entries =>
    match e with
    | .array _ slots ordered allowNull =>
      if ordered = [] ∨ ordered.length = entries.length then
        let inside := match ArrayMode.ofContents slots ordered with
          | .any => (entries, if !allowNull && entries.any (·.isNull) then l.found path .nullEntry else l)
          | .typed | .ordered => recordEntries path place slots ordered allowNull 0 l entries
        let left := Value.array shape inside.1
        (left, s.consultSince l.violations.length path e left inside.2)
      else (.array shape entries, l.found path (.arrayContents (.wrongLength entries.length ordered.length)))
    | _ => (.array shape entries, l.found path (.wrongType (Value.array shape entries).kindName e.kind.label))
  | .boolean b => (.boolean b, s.recordScalar path e (.boolean b) l)
  | .number n => (.number n, s.recordScalar path e (.number n) l)
  | .string text => (.string text, s.recordScalar path e (.string text) l)
  | .foreign f => (.foreign f, s.recordScalar path e (.foreign f) l)

def recordFields (path : Pointer) (place : Place) (children : List (String × Element)) (l : Ledger) :
    List (Key × Value) → List (Key × Value) × Ledger
  | [] => ([], l)
  | (key, v) :: rest =>
    match Element.governing? children key with
    | some child =>
      let head := record (path.push key.token) (place ++ [Step.field key]) child l v
      let tail := recordFields path place children head.2 rest
      ((key, head.1) :: tail.1, tail.2)
    | none =>
      let tail := recordFields path place children l rest
      ((key, v) :: tail.1, tail.2)

def recordEntries (path : Pointer) (place : Place) (slots : List (Kind × Element)) (ordered : List Element)
    (allowNull : Bool) (index : Nat) (l : Ledger) : List Value → List Value × Ledger
  | [] => ([], l)
  | v :: rest =>
    let head := match Element.entryDemand slots ordered allowNull index v with
      | .nothing => (v, l)
      | .refused cause => (v, l.found (path.entry index) cause)
      | .governed e => record (path.entry index) (place ++ [Step.entry index]) e l v
    let tail := recordEntries path place slots ordered allowNull (index + 1) head.2 rest
    (head.1 :: tail.1, tail.2)

end

end Setting

/-- A note, seen from where the document begins. -/
def Removal.inside (place : Place) (r : Removal) : Removal := { r with place := place ++ r.place }

theorem Removal.inside_under (place : Place) (step : Step) (r : Removal) :
    (r.under step).inside place = r.inside (place ++ [step]) := by
  simp [under, inside]

namespace Ledger

/-- What the trail of a value at a place adds to a ledger. -/
def add (l : Ledger) (place : Place) (t : Trail) : Ledger :=
  ⟨l.violations ++ t.violations, l.unlisted ++ t.unlisted.map (.inside place)⟩

variable (l : Ledger) (place : Place) (path : Pointer)

theorem add_andThen {t : Trail} (h : t.halt = none) (u : Trail) :
    l.add place (t.andThen u) = (l.add place t).add place u := by
  simp only [add, Trail.violations_andThen h, Trail.unlisted_andThen h, List.map_append, List.append_assoc]

theorem add_empty : l.add place .empty = l := by
  simp [add, Trail.empty, Trail.violations, Event.violations]

theorem add_under (step : Step) (t : Trail) : l.add place (t.under step) = l.add (place ++ [step]) t := by
  rw [add, add, Trail.violations_under]
  simp only [Trail.under, List.map_map, Function.comp_def, Removal.inside_under]

theorem add_found (s : Setting) (cause : Cause) : l.add place (s.found path cause) = l.found path cause := by
  simp [add, found, Setting.found, Trail.violations, Event.violations, Event.violation?]

theorem foundAll_eq (causes : List Cause) :
    l.foundAll path causes = { l with violations := l.violations ++ causes.map (⟨·, path⟩) } := by
  induction causes generalizing l with
  | nil => simp [foundAll]
  | cons cause causes ih =>
    have hrest : l.foundAll path (cause :: causes) = (l.found path cause).foundAll path causes := rfl
    rw [hrest, ih, found, List.append_assoc]
    rfl

theorem missing_eq (names : List String) : l.missing path names =
    { l with violations := l.violations ++ names.map fun name => ⟨.missingField name, path.push name⟩ } := by
  induction names generalizing l with
  | nil => simp [missing]
  | cons name names ih =>
    have hrest : l.missing path (name :: names) = (l.found (path.push name) (.missingField name)).missing path names := rfl
    rw [hrest, ih, found, List.append_assoc]
    rfl

end Ledger

namespace Setting

variable {s : Setting}

theorem consult_eq (path : Pointer) (e : Element) (v : Value) (l : Ledger) :
    s.consult path e v l = { l with violations := l.violations ++ s.rejections path e v } := by
  unfold consult rejections
  induction e.validators generalizing l with
  | nil => simp
  | cons w ws ih =>
    rw [List.foldl_cons, ih, List.filter_cons]
    cases s.judge w e v <;> simp [Ledger.found]

theorem Collects.add_opening (hs : s.Collects) (path : Pointer) (place : Place) (children : List (String × Element))
    (fields : List (Key × Value)) (l : Ledger) :
    l.missing path (Element.missingNames children fields) =
      l.add place ((s.dropMeta path fields).andThen (s.reportMissing path children fields)) := by
  have hd := s.clean_dropMeta path fields
  rw [Ledger.missing_eq, Ledger.add, hs.violations_opening, Trail.unlisted_andThen hd.halt, unlisted_dropMeta,
    unlisted_reportMissing]
  simp

theorem Collects.add_askAll (hs : s.Collects) (path : Pointer) (place : Place) (e : Element) (v : Value) (l : Ledger) :
    s.consult path e v l = l.add place (s.askAll path e v) := by
  rw [consult_eq, Ledger.add, hs.violations_askAll, unlisted_askAll, List.map_nil, List.append_nil]

/-- **The mark in the ledger says whether the trail since then is clean.** -/
theorem Collects.consultSince_add (hs : s.Collects) (path : Pointer) (place : Place) (e : Element) (v : Value)
    (l : Ledger) {t : Trail} (h : t.halt = none) :
    s.consultSince l.violations.length path e v (l.add place t) = l.add place (t.andIfClean (s.askAll path e v)) := by
  have hlength : (l.add place t).violations.length = l.violations.length ↔ t.violations = [] := by
    rw [Ledger.add, List.length_append, Nat.add_eq_left, List.length_eq_zero_iff]
  unfold consultSince
  by_cases hv : t.violations = []
  · rw [if_pos (hlength.2 hv), Trail.andIfClean_of_nil hv, Ledger.add_andThen l place h, hs.add_askAll]
  · rw [if_neg (mt hlength.1 hv), Trail.andIfClean_of_ne_nil hv]

theorem add_noteUnlisted (children : List (String × Element)) (fields : List (Key × Value)) (place : Place)
    (l : Ledger) : l.add place (s.noteUnlisted children fields) =
      if s.options.pruneUnlisted && !(s.unlistedKeys children fields).isEmpty then
        l.note ⟨place, s.unlistedKeys children fields⟩
      else l := by
  unfold noteUnlisted
  simp only
  split
  · simp [Ledger.add, Ledger.note, Trail.note, Removal.inside, Trail.violations, Event.violations]
  · exact Ledger.add_empty l place

/-- The walk of a value adds its trail to any ledger. -/
def Records (s : Setting) (v : Value) : Prop := ∀ e path place l,
  s.record path place e l v = ((s.walk path e v).left, l.add place (s.walk path e v).trail)

theorem record_wrong (path : Pointer) (place : Place) (l : Ledger) {e : Element} {v : Value} (hv : v.isNull = false)
    (h : e.accepts v = false) :
    s.record path place e l v = (v, l.found path (.wrongType v.kindName e.kind.label)) := by
  cases v with
  | null => cases hv
  | object fields =>
    cases e with
    | object => cases h
    | array | string | number | boolean => simp only [record]
  | array shape entries =>
    cases e with
    | array => cases h
    | object | string | number | boolean => simp only [record]
  | boolean | number | string | foreign => simp [record, recordScalar, h]

theorem record_scalar (path : Pointer) (place : Place) (l : Ledger) {e : Element} {v : Value} (hv : v.isScalar = true)
    (h : e.accepts v = true) : s.record path place e l v =
      (v, s.consultSince l.violations.length path e v (l.foundAll path (e.causes v))) := by
  cases v with
  | null | object | array => cases hv
  | boolean | number | string | foreign => simp [record, recordScalar, h]

theorem Collects.recordFields_eq (hs : s.Collects) (path : Pointer) (place : Place) (children : List (String × Element)) :
    ∀ (index : Nat) (fields : List (Key × Value)) (l : Ledger), (∀ field ∈ fields, s.Records field.2) →
      s.recordFields path place children l fields =
        ((Walk.each (fun _ => s.walkField path children) index fields).left,
          l.add place (Walk.each (fun _ => s.walkField path children) index fields).trail)
  | _, [], l, _ => by rw [recordFields, Walk.each, Ledger.add_empty]
  | index, (key, v) :: rest, l, ih => by
    have hhead := hs.halt_walkField path children (key, v)
    have hrest := fun l => hs.recordFields_eq path place children (index + 1) rest l
      fun field hf => ih field (List.mem_cons_of_mem _ hf)
    rw [recordFields, Walk.each, Walk.left_cons hhead, Walk.trail_cons, Ledger.add_andThen l place hhead]
    cases hg : Element.governing? children key with
    | none =>
      have hw : s.walkField path children (key, v) = ⟨(key, v), .empty⟩ := by simp only [walkField, hg]
      simp only [hrest, hw, Ledger.add_empty]
    | some child =>
      have hw : s.walkField path children (key, v) =
          ((s.walk (path.push key.token) child v).map (key, ·)).under (.field key) := by simp only [walkField, hg]
      simp only [hrest, hw, ih _ List.mem_cons_self child, Walk.left_under, Walk.left_map, Walk.trail_under,
        Walk.trail_map, Ledger.add_under]

theorem Collects.recordEntries_eq (hs : s.Collects) (path : Pointer) (place : Place) (slots : List (Kind × Element))
    (ordered : List Element) (allowNull : Bool) :
    ∀ (index : Nat) (entries : List Value) (l : Ledger), (∀ v ∈ entries, s.Records v) →
      s.recordEntries path place slots ordered allowNull index l entries =
        ((Walk.each (s.walkEntry path slots ordered allowNull) index entries).left,
          l.add place (Walk.each (s.walkEntry path slots ordered allowNull) index entries).trail)
  | _, [], l, _ => by rw [recordEntries, Walk.each, Ledger.add_empty]
  | index, v :: rest, l, ih => by
    have hhead := hs.halt_walkEntry path slots ordered allowNull index v
    have hrest := fun l => hs.recordEntries_eq path place slots ordered allowNull (index + 1) rest l
      fun u hu => ih u (List.mem_cons_of_mem _ hu)
    have hentry : (match Element.entryDemand slots ordered allowNull index v with
        | .nothing => (v, l)
        | .refused cause => (v, l.found (path.entry index) cause)
        | .governed e => s.record (path.entry index) (place ++ [Step.entry index]) e l v) =
        ((s.walkEntry path slots ordered allowNull index v).left,
          l.add place (s.walkEntry path slots ordered allowNull index v).trail) := by
      unfold walkEntry
      cases Element.entryDemand slots ordered allowNull index v with
      | nothing => simp only [Ledger.add_empty]
      | refused cause => simp only [Ledger.add_found]
      | governed e => simp only [ih v List.mem_cons_self e, Walk.left_under, Walk.trail_under, Ledger.add_under]
    rw [recordEntries, Walk.each, Walk.left_cons hhead, Walk.trail_cons, Ledger.add_andThen l place hhead]
    simp only [hentry, hrest]

theorem Collects.recordContents_eq (hs : s.Collects) (path : Pointer) (place : Place) (slots : List (Kind × Element))
    (ordered : List Element) (allowNull : Bool) (entries : List Value) (l : Ledger)
    (ih : ∀ v ∈ entries, s.Records v) : (match ArrayMode.ofContents slots ordered with
      | .any => (entries, if !allowNull && entries.any (·.isNull) then l.found path .nullEntry else l)
      | .typed | .ordered => s.recordEntries path place slots ordered allowNull 0 l entries) =
      ((s.walkContents path slots ordered allowNull entries).left,
        l.add place (s.walkContents path slots ordered allowNull entries).trail) := by
  unfold walkContents
  cases ArrayMode.ofContents slots ordered with
  | any =>
    simp only [anyEntries]
    split
    · rw [Ledger.add_found]
    · rw [Ledger.add_empty]
  | typed | ordered => exact hs.recordEntries_eq path place slots ordered allowNull 0 entries l ih

/-- **A walk adds to any ledger what it finds and notes by itself.** -/
theorem Collects.record_eq (hs : s.Collects) (e : Element) (v : Value) : ∀ path place l,
    s.record path place e l v = ((s.walk path e v).left, l.add place (s.walk path e v).trail) := by
  induction e, v using Element.induct with
  | null e =>
    intro path place l
    rw [record, walk_null]
    unfold nullField
    split
    · rw [Ledger.add_empty]
    · rw [Ledger.add_found]
  | wrong e v hv ha =>
    intro path place l
    rw [record_wrong path place l hv ha, walk_wrong s path hv ha, wrongKind, Ledger.add_found]
  | scalar e v hv ha =>
    intro path place l
    have hcauses : l.foundAll path (e.causes v) = l.add place (s.foundAll path (e.causes v)) := by
      rw [Ledger.foundAll_eq, Ledger.add, hs.violations_foundAll, unlisted_foundAll, List.map_nil, List.append_nil]
    rw [record_scalar path place l hv ha, walk_scalar s path hv ha, hcauses,
      hs.consultSince_add path place e v l (hs.halt_foundAll path _)]
  | object traits children fields ih =>
    intro path place l
    have hopen := hs.halt_opening path children fields
    have hfields := hs.recordFields_eq path place children 0 fields (l.missing path (Element.missingNames children fields))
      ih
    have hwalked := Trail.halt_andThen_eq_none.2 ⟨hopen, hs.halt_walkFields path children 0 fields⟩
    -- the fields are written behind the opening, and the mark is the length of the ledger before both
    rw [hs.add_opening path place, ← Ledger.add_andThen l place hopen] at hfields
    rw [walk_object, trail_walkObject,
      Ledger.add_andThen l place (Trail.halt_andIfClean hwalked (hs.halt_askAll _ _ _)), add_noteUnlisted,
      s.left_walkObject hopen, ← hs.consultSince_add path place _ _ l hwalked, record]
    simp only [hs.add_opening path place, hfields]
  | array traits slots ordered allowNull shape entries ih =>
    intro path place l
    by_cases hl : ordered = [] ∨ ordered.length = entries.length
    · have hinside := hs.halt_walkContents path slots ordered allowNull entries
      rw [record, if_pos hl, walk_array s path traits slots allowNull shape hl, trail_walkArray, left_walkArray,
        ← hs.consultSince_add path place _ _ l hinside]
      simp only [hs.recordContents_eq path place slots ordered allowNull entries l ih]
    · rw [record, if_neg hl, walk_array_of_length_ne s path traits slots allowNull shape hl, Ledger.add_found]

end Setting
end ConfigSchema
