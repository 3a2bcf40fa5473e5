import ConfigSchema.Proofs.Conformance
import ConfigSchema.Proofs.Endings
import ConfigSchema.Proofs.Told
/-!
# Collected — what a walk finds that goes on to the end

A setting collects if it neither stops at a violation nor has a validator that fails.  Its walks all go through, and what
they find is put together from what the walks of the parts find: the missing children, the fields in the order of the
document, or the entries by index, and the validators of the whole only if all of that is empty (`findings_object`,
`findings_array`).
-/
namespace ConfigSchema

namespace Trail

variable {t u : Trail}

theorem halt_andIfClean (ht : t.halt = none) (hu : u.halt = none) : (t.andIfClean u).halt = none := by
  by_cases hv : t.violations = []
  · rw [andIfClean_of_nil hv, halt_andThen_eq_none]
    exact ⟨ht, hu⟩
  · rwa [andIfClean_of_ne_nil hv]

theorem violations_andIfClean (ht : t.halt = none) (u : Trail) :
    (t.andIfClean u).violations = if t.violations = [] then u.violations else t.violations := by
  by_cases hv : t.violations = []
  · rw [if_pos hv, andIfClean_of_nil hv, violations_andThen ht, hv, List.nil_append]
  · rw [if_neg hv, andIfClean_of_ne_nil hv]

theorem violations_sequence {ts : List Trail} (h : ∀ t ∈ ts, t.halt = none) :
    (sequence ts).violations = ts.flatMap (·.violations) :=
  told_sequence Event.violation? h

end Trail

namespace Walk

variable {α : Type} {f : Nat → α → Walk α} {index : Nat} {parts : List α}

theorem halt_each (h : ∀ i, ∀ a ∈ parts, (f i a).trail.halt = none) : (each f index parts).trail.halt = none := by
  rw [trail_each, Trail.halt_sequence_eq_none]
  intro t ht
  obtain ⟨i, hi, rfl⟩ := List.mem_mapIdx.1 ht
  exact h _ _ (List.getElem_mem hi)

theorem violations_each (h : ∀ i, ∀ a ∈ parts, (f i a).trail.halt = none) :
    (each f index parts).trail.violations = (parts.mapIdx fun i a => (f (index + i) a).trail.violations).flatten :=
  told_each Event.violation? h

end Walk

namespace Setting

/-- A setting whose runs go on to the end. -/
structure Collects (s : Setting) : Prop where
  goesOn : s.options.stopOnFirst = false
  decides : ∀ w e v f, s.judge w e v ≠ .fail f

variable {s : Setting}

/-- Nothing that happens asks for an end, so whatever would end with the first such event goes through. -/
theorem Collects.halt (hs : s.Collects) {t : Trail} (h : t.Prompt s) : t.halt = none :=
  h.halt_eq_none fun event => Option.eq_none_iff_forall_ne_some.2 fun halt hend => by
    obtain ⟨x, -, hstop, -⟩ | ⟨w, e, v, f, -, hj, -⟩ := ending?_eq_some.1 hend
    · rw [hs.goesOn] at hstop
      cases hstop
    · exact hs.decides w e v f hj

theorem Collects.halt_found (hs : s.Collects) (path : Pointer) (cause : Cause) : (s.found path cause).halt = none :=
  hs.halt (s.prompt_found path cause)

theorem Collects.halt_foundAll (hs : s.Collects) (path : Pointer) (causes : List Cause) :
    (s.foundAll path causes).halt = none :=
  hs.halt (s.prompt_foundAll path causes)

theorem Collects.halt_ask (hs : s.Collects) (path : Pointer) (e : Element) (v : Value) (w : Validator) :
    (s.ask path e v w).halt = none :=
  hs.halt (s.prompt_ask path e v w)

theorem Collects.halt_askAll (hs : s.Collects) (path : Pointer) (e : Element) (v : Value) :
    (s.askAll path e v).halt = none :=
  hs.halt (s.prompt_askAll path e v)

theorem Collects.halt_opening (hs : s.Collects) (path : Pointer) (children : List (String × Element))
    (fields : List (Key × Value)) :
    ((s.dropMeta path fields).andThen (s.reportMissing path children fields)).halt = none :=
  hs.halt (s.prompt_opening path children fields)

/-- **A walk of a setting that collects goes through**, and so does each part of it. -/
theorem Collects.halt_walk (hs : s.Collects) (e : Element) (v : Value) (path : Pointer) :
    (s.walk path e v).trail.halt = none :=
  hs.halt (s.prompt_walk e v path)

theorem Collects.halt_walkField (hs : s.Collects) (path : Pointer) (children : List (String × Element))
    (field : Key × Value) : (s.walkField path children field).trail.halt = none :=
  hs.halt (s.prompt_walkField fun child path => s.prompt_walk child field.2 path)

theorem Collects.halt_walkFields (hs : s.Collects) (path : Pointer) (children : List (String × Element)) (index : Nat)
    (fields : List (Key × Value)) : (Walk.each (fun _ => s.walkField path children) index fields).trail.halt = none :=
  Walk.halt_each fun _ field _ => hs.halt_walkField path children field

theorem Collects.halt_walkEntry (hs : s.Collects) (path : Pointer) (slots : List (Kind × Element))
    (ordered : List Element) (allowNull : Bool) (index : Nat) (v : Value) :
    (s.walkEntry path slots ordered allowNull index v).trail.halt = none :=
  hs.halt (s.prompt_walkEntry fun e path => s.prompt_walk e v path)

theorem Collects.halt_walkContents (hs : s.Collects) (path : Pointer) (slots : List (Kind × Element))
    (ordered : List Element) (allowNull : Bool) (entries : List Value) :
    (s.walkContents path slots ordered allowNull entries).trail.halt = none :=
  hs.halt (s.prompt_walkContents fun v _ e path => s.prompt_walk e v path)

/-! ## What is found, part by part -/

/-- What the walk of a value finds. -/
def findings (s : Setting) (path : Pointer) (e : Element) (v : Value) : List Violation :=
  (s.walk path e v).trail.violations

/-- What the validators of an element say of a value: one violation for each that rejects it, in their order. -/
def rejections (s : Setting) (path : Pointer) (e : Element) (v : Value) : List Violation :=
  (e.validators.filter fun w => s.judge w e v matches .reject).map fun w => ⟨.badValue (.rejectedBy w.label), path⟩

/-- What is found in an object or array, given what is found `inside` it.  Only if that is nothing are its validators
heard, about the value without its meta fields. -/
def orRejections (s : Setting) (path : Pointer) (e : Element) (v : Value) (inside : List Violation) : List Violation :=
  if inside = [] then s.rejections path e (s.options.prune false e v) else inside

/-- What is found in a field: nothing unless it is declared. -/
def fieldFindings (s : Setting) (path : Pointer) (children : List (String × Element)) (field : Key × Value) :
    List Violation :=
  match Element.governing? children field.1 with
  | some child => s.findings (path.push field.1.token) child field.2
  | none => []

/-- What is found in an entry: what the array refuses in it, or what is found under the element that governs it. -/
def entryFindings (s : Setting) (path : Pointer) (slots : List (Kind × Element)) (ordered : List Element)
    (allowNull : Bool) (index : Nat) (v : Value) : List Violation :=
  match Element.entryDemand slots ordered allowNull index v with
  | .nothing => []
  | .refused cause => [⟨cause, path.entry index⟩]
  | .governed e => s.findings (path.entry index) e v

theorem violations_ask (path : Pointer) (e : Element) (v : Value) (w : Validator) : (s.ask path e v w).violations =
    if s.judge w e v matches .reject then [⟨.badValue (.rejectedBy w.label), path⟩] else [] := by
  rw [ask, Trail.violations_andThen rfl]
  cases s.judge w e v <;> rfl

theorem Collects.violations_askAll (hs : s.Collects) (path : Pointer) (e : Element) (v : Value) :
    (s.askAll path e v).violations = s.rejections path e v := by
  have hhalt : ∀ t ∈ e.validators.map (s.ask path e v), t.halt = none := by
    intro t ht
    obtain ⟨w, -, rfl⟩ := List.mem_map.1 ht
    exact hs.halt_ask path e v w
  rw [askAll, Trail.violations_sequence hhalt, List.flatMap_map, rejections]
  induction e.validators with
  | nil => rfl
  | cons w ws ih =>
    rw [List.flatMap_cons, ih, violations_ask, List.filter_cons]
    split
    · rfl
    · rfl

theorem Collects.violations_foundAll (hs : s.Collects) (path : Pointer) (causes : List Cause) :
    (s.foundAll path causes).violations = causes.map (⟨·, path⟩) := by
  rw [foundAll, Trail.violations_sequence, List.flatMap_map]
  · exact List.map_eq_flatMap.symm
  · intro t ht
    obtain ⟨cause, -, rfl⟩ := List.mem_map.1 ht
    exact hs.halt_found path cause

theorem Collects.violations_opening (hs : s.Collects) (path : Pointer) (children : List (String × Element))
    (fields : List (Key × Value)) :
    ((s.dropMeta path fields).andThen (s.reportMissing path children fields)).violations =
      (Element.missingNames children fields).map fun name => ⟨.missingField name, path.push name⟩ := by
  have hd := s.clean_dropMeta path fields
  rw [Trail.violations_andThen hd.halt, hd.violations, List.nil_append, reportMissing, Trail.violations_sequence,
    List.flatMap_map]
  · exact List.map_eq_flatMap.symm
  · intro t ht
    obtain ⟨name, -, rfl⟩ := List.mem_map.1 ht
    exact hs.halt_found _ _

theorem violations_walkField (path : Pointer) (children : List (String × Element)) (field : Key × Value) :
    (s.walkField path children field).trail.violations = s.fieldFindings path children field := by
  unfold walkField fieldFindings
  cases Element.governing? children field.1 <;> rfl

theorem violations_walkEntry (path : Pointer) (slots : List (Kind × Element)) (ordered : List Element)
    (allowNull : Bool) (index : Nat) (v : Value) :
    (s.walkEntry path slots ordered allowNull index v).trail.violations =
      s.entryFindings path slots ordered allowNull index v := by
  unfold walkEntry entryFindings
  cases Element.entryDemand slots ordered allowNull index v <;> rfl

theorem findings_null (path : Pointer) (e : Element) :
    s.findings path e .null = if e.traits.nullable then [] else [⟨.nullValue e.name?, path⟩] := by
  rw [findings, walk_null]
  unfold nullField
  split <;> rfl

theorem findings_wrong (path : Pointer) {e : Element} {v : Value} (hv : v.isNull = false) (h : e.accepts v = false) :
    s.findings path e v = [⟨.wrongType v.kindName e.kind.label, path⟩] := by
  rw [findings, walk_wrong s path hv h]
  rfl

theorem Collects.findings_scalar (hs : s.Collects) (path : Pointer) {e : Element} {v : Value} (hv : v.isScalar = true)
    (h : e.accepts v = true) : s.findings path e v =
      if e.causes v = [] then s.rejections path e v else (e.causes v).map (⟨·, path⟩) := by
  rw [findings, walk_scalar s path hv h, Trail.violations_andIfClean (hs.halt_foundAll _ _), hs.violations_foundAll,
    hs.violations_askAll]
  simp only [List.map_eq_nil_iff]

/-- What is found inside an object: its missing children in the order of declaration, then what is found in its fields in
the order of the document. -/
def fieldsFindings (s : Setting) (path : Pointer) (children : List (String × Element)) (fields : List (Key × Value)) :
    List Violation :=
  ((Element.missingNames children fields).map fun name => ⟨.missingField name, path.push name⟩) ++
    fields.flatMap (s.fieldFindings path children)

theorem Collects.violations_walkFields (hs : s.Collects) (path : Pointer) (children : List (String × Element))
    (fields : List (Key × Value)) :
    (((s.dropMeta path fields).andThen (s.reportMissing path children fields)).andThen
      (Walk.each (fun _ => s.walkField path children) 0 fields).trail).violations =
        s.fieldsFindings path children fields := by
  rw [Trail.violations_andThen (hs.halt_opening path children fields), hs.violations_opening,
    Walk.violations_each fun _ field _ => hs.halt_walkField path children field]
  simp only [violations_walkField, Walk.mapIdx_const, List.flatMap_def, fieldsFindings]

/-- **What is found in an object**: its missing children in the order of declaration, then what is found in its fields in
the order of the document, and what its validators say only if that is all empty. -/
theorem Collects.findings_object (hs : s.Collects) (path : Pointer) (traits : Traits)
    (children : List (String × Element)) (fields : List (Key × Value)) :
    s.findings path (.object traits children) (.object fields) =
      s.orRejections path (.object traits children) (.object fields)
        (((Element.missingNames children fields).map fun name => ⟨.missingField name, path.push name⟩) ++
          fields.flatMap (s.fieldFindings path children)) := by
  have hopen := hs.halt_opening path children fields
  have hinside := hs.halt_walkFields path children 0 fields
  have hnote := s.clean_noteUnlisted children fields
  have hwalked := Trail.halt_andThen_eq_none.2 ⟨hopen, hinside⟩
  -- all of it goes through, so each join is an append, and the validators see what `prune` leaves
  rw [findings, walk_object, trail_walkObject, Trail.violations_andThen
    (Trail.halt_andIfClean hwalked (hs.halt_askAll _ _ _)), hnote.violations, List.append_nil,
    Trail.violations_andIfClean hwalked, hs.violations_walkFields, hs.violations_askAll,
    s.left_walkObject_eq_prune (fun field _ => s.leavesPruned field.2) hopen hinside]
  rfl

/-- What is found inside an array whose length is as it should be. -/
def contentsFindings (s : Setting) (path : Pointer) (slots : List (Kind × Element)) (ordered : List Element)
    (allowNull : Bool) (entries : List Value) : List Violation :=
  match ArrayMode.ofContents slots ordered with
  | .any => if !allowNull && entries.any (·.isNull) then [⟨.nullEntry, path⟩] else []
  | .typed | .ordered => (entries.mapIdx (s.entryFindings path slots ordered allowNull)).flatten

theorem Collects.violations_walkContents (hs : s.Collects) (path : Pointer) (slots : List (Kind × Element))
    (ordered : List Element) (allowNull : Bool) (entries : List Value) :
    (s.walkContents path slots ordered allowNull entries).trail.violations =
      s.contentsFindings path slots ordered allowNull entries := by
  unfold walkContents contentsFindings
  cases ArrayMode.ofContents slots ordered with
  | any =>
    simp only [anyEntries]
    split <;> rfl
  | typed | ordered =>
    simp only
    rw [Walk.violations_each fun i v _ => hs.halt_walkEntry path slots ordered allowNull i v]
    simp only [violations_walkEntry, Nat.zero_add]

/-- **What is found in an array**: what is found inside it, and what its validators say only if that is empty. -/
theorem Collects.findings_array (hs : s.Collects) (path : Pointer) (traits : Traits) (slots : List (Kind × Element))
    {ordered : List Element} (allowNull : Bool) (shape : ArrayShape) {entries : List Value}
    (hl : ordered = [] ∨ ordered.length = entries.length) :
    s.findings path (.array traits slots ordered allowNull) (.array shape entries) =
      s.orRejections path (.array traits slots ordered allowNull) (.array shape entries)
        (s.contentsFindings path slots ordered allowNull entries) := by
  have hinside := hs.halt_walkContents path slots ordered allowNull entries
  rw [findings, walk_array s path traits slots allowNull shape hl, trail_walkArray, Trail.violations_andIfClean hinside,
    hs.violations_walkContents, hs.violations_askAll, s.left_walkArray_eq_prune hl (fun v _ => s.leavesPruned v) hinside,
    orRejections]

theorem findings_array_of_length_ne (path : Pointer) (traits : Traits) (slots : List (Kind × Element))
    {ordered : List Element} (allowNull : Bool) (shape : ArrayShape) {entries : List Value}
    (hl : ¬ (ordered = [] ∨ ordered.length = entries.length)) :
    s.findings path (.array traits slots ordered allowNull) (.array shape entries) =
      [⟨.arrayContents (.wrongLength entries.length ordered.length), path⟩] := by
  rw [findings, walk_array_of_length_ne s path traits slots allowNull shape hl]
  rfl

end Setting
end ConfigSchema
