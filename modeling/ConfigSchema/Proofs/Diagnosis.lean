import ConfigSchema.Proofs.Runs
import ConfigSchema.Proofs.Settled
/-!
# Diagnosis — what a run says of its document, whatever it takes out of it

The diagnosis of a trail is what it tells of violations and of an early end; meta fields taken out, notes and the asking of
validators are no part of it.  Joins carry diagnoses over (`diagnosis_andThen`, `diagnosis_andIfClean`), so two walks come
to the same diagnosis if their parts do.  That is so whatever the options take out (`diagnosis_run`): of an object or
array it changes only what the validators get to see.
-/
namespace ConfigSchema

namespace Trail

variable {t u : Trail}

/-- The violations that a trail tells of and its early end, and nothing else. -/
def diagnosis (t : Trail) : Trail := { events := t.violations.map .found, halt := t.halt }

@[simp] theorem violations_diagnosis (t : Trail) : t.diagnosis.violations = t.violations := by
  simp only [violations, diagnosis, Event.violations, List.filterMap_map]
  exact List.filterMap_some

theorem diagnosis_eq_iff : t.diagnosis = u.diagnosis ↔ t.violations = u.violations ∧ t.halt = u.halt := by
  constructor
  · intro h
    refine ⟨by rw [← violations_diagnosis, h, violations_diagnosis], ?_⟩
    show t.diagnosis.halt = u.diagnosis.halt
    rw [h]
  · rintro ⟨hv, hh⟩
    rw [diagnosis, diagnosis, hv, hh]

@[simp] theorem diagnosis_empty : empty.diagnosis = empty := rfl

/-- **The diagnosis of a join is the join of the diagnoses.** -/
theorem diagnosis_andThen (t u : Trail) : (t.andThen u).diagnosis = t.diagnosis.andThen u.diagnosis := by
  cases h : t.halt with
  | some halt =>
    have hd : t.diagnosis.halt = some halt := h
    rw [andThen_of_some h, andThen_of_some hd]
  | none =>
    have hd : t.diagnosis.halt = none := h
    rw [andThen_of_none hd, diagnosis, violations_andThen h, List.map_append, andThen_of_none h]
    rfl

theorem diagnosis_andIfClean (t u : Trail) : (t.andIfClean u).diagnosis = t.diagnosis.andIfClean u.diagnosis := by
  rw [andIfClean, andIfClean, violations_diagnosis, apply_ite diagnosis, diagnosis_andThen]

theorem diagnosis_sequence : ∀ (ts : List Trail), (sequence ts).diagnosis = sequence (ts.map diagnosis)
  | [] => rfl
  | t :: ts => by rw [sequence, diagnosis_andThen, diagnosis_sequence ts, List.map_cons, sequence]

/-- A clean trail says nothing. -/
theorem Clean.diagnosis (h : t.Clean) : t.diagnosis = empty := by
  rw [Trail.diagnosis, h.violations, h.halt]
  rfl

end Trail

/-- A walk comes to the same diagnosis as another one, and leaves the same where that is `asked`. -/
structure Walk.Echo {α : Type} (asked : Prop) (w w' : Walk α) : Prop where
  diagnosis : w'.trail.diagnosis = w.trail.diagnosis
  left : asked → w'.left = w.left

namespace Walk

variable {α β : Type} {asked : Prop} {w w' : Walk α}

theorem Echo.refl (w : Walk α) : Echo asked w w := ⟨rfl, fun _ => rfl⟩

theorem Echo.halt (h : Echo asked w w') : w'.trail.halt = w.trail.halt := (Trail.diagnosis_eq_iff.1 h.diagnosis).2

theorem Echo.map (h : Echo asked w w') (f : α → β) : Echo asked (w.map f) (w'.map f) :=
  ⟨h.diagnosis, fun ha => congrArg f (h.left ha)⟩

theorem Echo.under (h : Echo asked w w') (step : Step) : Echo asked (w.under step) (w'.under step) :=
  ⟨h.diagnosis, h.left⟩

theorem Echo.after {t t' : Trail} (ht : t'.diagnosis = t.diagnosis) (h : Echo asked w w') (untouched : α) :
    Echo asked (w.after t untouched) (w'.after t' untouched) := by
  refine ⟨?_, fun ha => ?_⟩
  · rw [trail_after, trail_after, Trail.diagnosis_andThen, Trail.diagnosis_andThen, ht, h.diagnosis]
  · unfold Walk.after
    rw [(Trail.diagnosis_eq_iff.1 ht).2]
    cases t.halt with
    | some halt => rfl
    | none => exact h.left ha

theorem Echo.cons (h : Echo asked w w') (untouched : List α) {tail tail' : Walk (List α)} (ht : Echo asked tail tail') :
    Echo asked (w.cons untouched tail) (w'.cons untouched tail') := by
  refine ⟨?_, fun ha => ?_⟩
  · rw [trail_cons, trail_cons, Trail.diagnosis_andThen, Trail.diagnosis_andThen, h.diagnosis, ht.diagnosis]
  · unfold Walk.cons
    rw [h.halt, h.left ha]
    cases w.trail.halt with
    | some halt => rfl
    | none => rw [ht.left ha]

/-- **A walk of a list echoes another one if the walk of each part does.** -/
theorem Echo.each {f g : Nat → α → Walk α} : ∀ {index : Nat} {parts : List α},
    (∀ i, ∀ a ∈ parts, Echo asked (f i a) (g i a)) → Echo asked (each f index parts) (each g index parts)
  | _, [], _ => .refl _
  | index, a :: rest, h =>
    (h index a List.mem_cons_self).cons rest (Echo.each fun i b hb => h i b (List.mem_cons_of_mem a hb))

end Walk

/-! ## Validators of objects and arrays -/

namespace Element

/-- No object or array element of a schema has validators. -/
def Unguarded (root : Element) : Prop := ∀ e, root.Holds e → e.kind.isContainer = true → e.validators = []

theorem Unguarded.of_holds {root e : Element} (h : root.Unguarded) (he : root.Holds e) : e.Unguarded :=
  fun e' he' => h e' (he.trans he')

theorem unguarded_iff {root : Element} :
    root.Unguarded ↔ (root.kind.isContainer = true → root.validators = []) ∧ ∀ part ∈ root.parts, part.Unguarded :=
  forall_holds_iff

theorem unguarded_of_scalar {e : Element} (h : e.kind.isContainer = false) : e.Unguarded := by
  refine unguarded_iff.2 ⟨fun hc => ?_, ?_⟩
  · rw [h] at hc
    cases hc
  · cases e with
    | object | array => cases h
    | string | number | boolean => exact List.forall_mem_nil _

end Element

/-- Two settings by which runs go on after the same violations and ask the same validators. -/
structure Setting.Alike (s s' : Setting) : Prop where
  judge : s'.judge = s.judge
  stopOnFirst : s'.options.stopOnFirst = s.options.stopOnFirst

/-- Two settings by which the same fields leave their objects as soon as they are reached. -/
def Setting.DropAlike (s s' : Setting) : Prop := ∀ key, s'.options.drops key = s.options.drops key

namespace Setting

variable {s s' : Setting} (path : Pointer)

/-! ## What is said, part by part -/

theorem diagnosis_dropMeta (s : Setting) (fields : List (Key × Value)) : (s.dropMeta path fields).diagnosis = .empty :=
  (s.clean_dropMeta path fields).diagnosis

theorem diagnosis_noteUnlisted (s : Setting) (children : List (String × Element)) (fields : List (Key × Value)) :
    (s.noteUnlisted children fields).diagnosis = .empty :=
  (s.clean_noteUnlisted children fields).diagnosis

/-- **What is said of an object**: its missing children, its fields, and what its validators say if all of that is clean. -/
theorem diagnosis_walkObject (s : Setting) (e : Element) (children : List (String × Element))
    (fields : List (Key × Value)) (inside : Walk (List (Key × Value))) :
    (s.walkObject path e children fields inside).trail.diagnosis =
      ((s.reportMissing path children fields).diagnosis.andThen inside.trail.diagnosis).andIfClean
        (s.askAll path e (s.walkObject path e children fields inside).left).diagnosis := by
  rw [trail_walkObject]
  simp only [Trail.diagnosis_andThen, Trail.diagnosis_andIfClean, diagnosis_dropMeta, diagnosis_noteUnlisted,
    Trail.empty_andThen, Trail.andThen_empty]

theorem askAll_of_nil (s : Setting) {e : Element} (h : e.validators = []) (v : Value) : s.askAll path e v = .empty := by
  rw [askAll, h]
  rfl

theorem Alike.found (h : s.Alike s') : s'.found path = s.found path := by
  funext cause
  rw [Setting.found, Setting.found, h.stopOnFirst]

theorem Alike.foundAll (h : s.Alike s') (causes : List Cause) : s'.foundAll path causes = s.foundAll path causes := by
  rw [Setting.foundAll, Setting.foundAll, h.found]

theorem Alike.askAll (h : s.Alike s') (e : Element) (v : Value) : s'.askAll path e v = s.askAll path e v := by
  have hask : s'.ask path e v = s.ask path e v := by
    funext w
    rw [ask, ask, h.judge]
    cases s.judge w e v <;> simp only [heed, h.found]
  rw [Setting.askAll, Setting.askAll, hask]

theorem Alike.nullField (h : s.Alike s') (e : Element) : s'.nullField path e = s.nullField path e := by
  rw [Setting.nullField, Setting.nullField, h.found]

theorem Alike.wrongKind (h : s.Alike s') (e : Element) (v : Value) : s'.wrongKind path e v = s.wrongKind path e v := by
  rw [Setting.wrongKind, Setting.wrongKind, h.found]

theorem Alike.reportMissing (h : s.Alike s') (children : List (String × Element)) (fields : List (Key × Value)) :
    s'.reportMissing path children fields = s.reportMissing path children fields := by
  simp only [Setting.reportMissing, h.found]

variable {path}

/-- Validators of an object or array say the same if there are none, or if they see the same. -/
theorem Alike.askAll_left (h : s.Alike s') {e : Element} {v v' : Value}
    (hseen : s.DropAlike s' ∨ e.validators = []) (hleft : s.DropAlike s' → v' = v) :
    s'.askAll path e v' = s.askAll path e v := by
  rcases hseen with hdrops | hnone
  · rw [hleft hdrops, h.askAll]
  · rw [s.askAll_of_nil path hnone, s'.askAll_of_nil path hnone]

theorem Alike.echo_walkObject (h : s.Alike s') {e : Element} {children : List (String × Element)}
    {fields : List (Key × Value)} {inside inside' : Walk (List (Key × Value))}
    (hinside : inside.Echo (s.DropAlike s') inside') (hseen : s.DropAlike s' ∨ e.validators = []) :
    (s.walkObject path e children fields inside).Echo (s.DropAlike s')
      (s'.walkObject path e children fields inside') := by
  have hopen : ((s'.dropMeta path fields).andThen (s'.reportMissing path children fields)).diagnosis =
      ((s.dropMeta path fields).andThen (s.reportMissing path children fields)).diagnosis := by
    rw [Trail.diagnosis_andThen, Trail.diagnosis_andThen, diagnosis_dropMeta, diagnosis_dropMeta, h.reportMissing]
  have hleft : s.DropAlike s' → (s'.walkObject path e children fields inside').left =
      (s.walkObject path e children fields inside).left := by
    intro hdrops
    have hkept : (fun field : Key × Value => !s'.options.drops field.1) = fun field => !s.options.drops field.1 :=
      funext fun field => congrArg not (hdrops field.1)
    rw [walkObject, walkObject, (hinside.after hopen fields).left hdrops, hkept]
  refine ⟨?_, hleft⟩
  rw [diagnosis_walkObject, diagnosis_walkObject, h.reportMissing, hinside.diagnosis, h.askAll_left hseen hleft]

theorem Alike.echo_walkArray (h : s.Alike s') {e : Element} (shape : ArrayShape) {inside inside' : Walk (List Value)}
    (hinside : inside.Echo (s.DropAlike s') inside') (hseen : s.DropAlike s' ∨ e.validators = []) :
    (s.walkArray path e shape inside).Echo (s.DropAlike s') (s'.walkArray path e shape inside') := by
  have hleft : s.DropAlike s' → Value.array shape inside'.left = .array shape inside.left :=
    fun hdrops => congrArg (Value.array shape) (hinside.left hdrops)
  refine ⟨?_, hleft⟩
  rw [trail_walkArray, trail_walkArray, Trail.diagnosis_andIfClean, Trail.diagnosis_andIfClean, hinside.diagnosis,
    h.askAll_left hseen hleft]

/-- The walks of a value by settings that are alike echo one another, unless validators see that they take out different
fields. -/
def Echoes (s s' : Setting) (v : Value) : Prop := ∀ e path, s.DropAlike s' ∨ e.Unguarded →
  (s.walk path e v).Echo (s.DropAlike s') (s'.walk path e v)

theorem echo_walkField {traits : Traits} {children : List (String × Element)} {field : Key × Value}
    (ih : s.Echoes s' field.2) (hseen : s.DropAlike s' ∨ (Element.object traits children).Unguarded) :
    (s.walkField path children field).Echo (s.DropAlike s') (s'.walkField path children field) := by
  unfold walkField
  cases hg : Element.governing? children field.1 with
  | none => exact .refl _
  | some child =>
    have hchild := hseen.imp_right fun hu => hu.of_holds (Element.holds_of_governing? hg)
    exact ((ih child _ hchild).map _).under _

theorem Alike.echo_walkEntry (h : s.Alike s') {traits : Traits} {slots : List (Kind × Element)} {ordered : List Element}
    {allowNull : Bool} {index : Nat} {v : Value} (ih : s.Echoes s' v)
    (hseen : s.DropAlike s' ∨ (Element.array traits slots ordered allowNull).Unguarded) :
    (s.walkEntry path slots ordered allowNull index v).Echo (s.DropAlike s')
      (s'.walkEntry path slots ordered allowNull index v) := by
  unfold walkEntry
  cases hdemand : Element.entryDemand slots ordered allowNull index v with
  | nothing => exact .refl _
  | refused cause =>
    simp only [h.found]
    exact .refl _
  | governed e =>
    have hentry := hseen.imp_right fun hu => hu.of_holds <|
      Element.holds_of_entry? (Element.entryDemand_eq_governed hdemand).2
    exact (ih e _ hentry).under _

theorem Alike.echo_walkContents (h : s.Alike s') {traits : Traits} {slots : List (Kind × Element)}
    {ordered : List Element} {allowNull : Bool} {entries : List Value} (ih : ∀ v ∈ entries, s.Echoes s' v)
    (hseen : s.DropAlike s' ∨ (Element.array traits slots ordered allowNull).Unguarded) :
    (s.walkContents path slots ordered allowNull entries).Echo (s.DropAlike s')
      (s'.walkContents path slots ordered allowNull entries) := by
  unfold walkContents
  cases ArrayMode.ofContents slots ordered with
  | any =>
    simp only [anyEntries, h.found]
    exact .refl _
  | typed | ordered => exact Walk.Echo.each fun _ v hv => h.echo_walkEntry (ih v hv) hseen

/-- **Walks of a value by settings that are alike come to the same diagnosis**, unless validators see that they take out
different fields. -/
theorem Alike.echo_walk (h : s.Alike s') (e : Element) (v : Value) : ∀ path, s.DropAlike s' ∨ e.Unguarded →
    (s.walk path e v).Echo (s.DropAlike s') (s'.walk path e v) := by
  induction e, v using Element.induct with
  | null e =>
    intro path _
    rw [walk_null, walk_null, h.nullField]
    exact .refl _
  | wrong e v hv ha =>
    intro path _
    rw [walk_wrong s path hv ha, walk_wrong s' path hv ha, h.wrongKind]
    exact .refl _
  | scalar e v hv ha =>
    intro path _
    rw [walk_scalar s path hv ha, walk_scalar s' path hv ha, h.foundAll, h.askAll]
    exact .refl _
  | object traits children fields ih =>
    intro path hseen
    rw [walk_object, walk_object]
    exact h.echo_walkObject (Walk.Echo.each fun _ field hf => echo_walkField (ih field hf) hseen)
      (hseen.imp_right fun hu => hu _ .root rfl)
  | array traits slots ordered allowNull shape entries ih =>
    intro path hseen
    by_cases hl : ordered = [] ∨ ordered.length = entries.length
    · rw [walk_array s path traits slots allowNull shape hl, walk_array s' path traits slots allowNull shape hl]
      exact h.echo_walkArray shape (h.echo_walkContents ih hseen) (hseen.imp_right fun hu => hu _ .root rfl)
    · rw [walk_array_of_length_ne s path traits slots allowNull shape hl,
        walk_array_of_length_ne s' path traits slots allowNull shape hl, h.found]
      exact .refl _

theorem Alike.diagnosis_walkRoot (h : s.Alike s') {root : Element} (document : Value)
    (hseen : s.DropAlike s' ∨ root.Unguarded) :
    (s'.walkRoot root document).trail.diagnosis = (s.walkRoot root document).trail.diagnosis := by
  unfold walkRoot
  rw [h.found]
  split
  · rfl
  · split
    · rfl
    · exact (h.echo_walk root document .root hseen).diagnosis

/-- Two runs give the same and find the same if their walks come to the same diagnosis. -/
theorem outcome_run_of_diagnosis {root : Element} {document document' : Value}
    (h : (s'.walkRoot root document').trail.diagnosis = (s.walkRoot root document).trail.diagnosis) :
    (s'.run root document').outcome = (s.run root document).outcome ∧
      (s'.run root document').violations = (s.run root document).violations := by
  obtain ⟨hviolations, hhalt⟩ := Trail.diagnosis_eq_iff.1 h
  rw [← violations_run, ← violations_run] at hviolations
  rw [← halt_run, ← halt_run] at hhalt
  exact ⟨by rw [Run.outcome, Run.outcome, hviolations, hhalt], hviolations⟩

/-- **What the options take out of a document has no influence on what a run says of it**: unlisted fields have none, and
neither have meta fields if no object or array has validators that could miss them. -/
theorem diagnosis_run (h : s.Alike s') {root : Element} (document : Value)
    (htaken : s'.options.pruneMeta = s.options.pruneMeta ∧ s'.options.metaPrefix = s.options.metaPrefix ∨
      root.Unguarded) : (s'.run root document).outcome = (s.run root document).outcome ∧
        (s'.run root document).violations = (s.run root document).violations := by
  refine outcome_run_of_diagnosis (h.diagnosis_walkRoot document (htaken.imp_left fun ⟨hmeta, hprefix⟩ key => ?_))
  rw [Options.drops, Options.drops, hmeta]
  cases key with
  | name text => rw [Options.isMeta, Options.isMeta, hprefix]
  | number | null => rfl

/-- A declared meta field of the wrong kind and an undeclared one, which one of two runs takes out and the other leaves in;
and an unlisted field of an object with a validator, which a run leaves in for its violation. -/
theorem diagnosis_run_meta :
    let judge : Judge := fun _ _ _ => .reject
    let root := Element.object {} [("$id", .number {} {}), ("x", .string { validators := [⟨"v", "v"⟩] } {})]
    let document := Value.object [(.name "$id", .string "a"), (.name "$note", .null), (.name "x", .string "b")]
    let guarded := Element.object { validators := [⟨"v", "v"⟩] } []
    let unlisted := Value.object [(.name "y", .null)]
    ((⟨{ pruneUnlisted := true, pruneMeta := false, metaPrefix := "x" }, judge⟩ : Setting).run root document).outcome =
        .ok [⟨.wrongType "string" "number", ⟨"/$id"⟩⟩, ⟨.badValue (.rejectedBy "v"), ⟨"/x"⟩⟩] ∧
      ((⟨{ pruneUnlisted := true }, judge⟩ : Setting).run guarded unlisted).outcome =
        .ok [⟨.badValue (.rejectedBy "v"), ⟨""⟩⟩] := by
  intro judge root document guarded unlisted
  have hroot : root.Unguarded := Element.unguarded_iff.2 ⟨fun _ => rfl, fun part hm => by
    simp only [root, Element.parts, List.map_cons, List.map_nil, List.mem_cons, List.not_mem_nil, or_false] at hm
    rcases hm with rfl | rfl
    · exact Element.unguarded_iff.2 ⟨nofun, nofun⟩
    · exact Element.unguarded_iff.2 ⟨nofun, nofun⟩⟩
  have hdeclared := diagnosis_run (s := ⟨{}, judge⟩)
    (show Alike _ ⟨{ pruneUnlisted := true, pruneMeta := false, metaPrefix := "x" }, judge⟩ from ⟨rfl, rfl⟩) document
    (.inr hroot)
  have hguarded := diagnosis_run (s := ⟨{}, judge⟩)
    (show Alike _ ⟨{ pruneUnlisted := true }, judge⟩ from ⟨rfl, rfl⟩) unlisted
    (.inl ⟨rfl, rfl⟩ : _ ∨ guarded.Unguarded)
  rw [hdeclared.1, hguarded.1]
  unfold judge root document guarded unlisted
  exact ⟨rfl, rfl⟩

end Setting
end ConfigSchema
