import ConfigSchema.Proofs.Descent
/-!
# Endpoint — the value at which a walk ends

A walk that does not go through ends while one value is being checked: the innermost one that had been begun
(`Setting.endsAt`).  If a violation ended it, the violation points at that value, or at a child that the value lacks
(`blames_walk`).
-/
namespace ConfigSchema

namespace Walk

variable {α : Type} {f : Nat → α → Walk α} {step : Nat → α → Step} {ends : Nat → α → Place}

/-- Where a walk of a list ends: in the first part whose walk ends. -/
def endIn (f : Nat → α → Walk α) (step : Nat → α → Step) (ends : Nat → α → Place) (index : Nat) : List α → Place
  | [] => []
  | a :: rest =>
    if (f index a).trail.halt.isSome then step index a :: ends index a else endIn f step ends (index + 1) rest

theorem endIn_eq_nil : ∀ {index : Nat} {parts : List α}, (each f index parts).trail.halt = none →
    endIn f step ends index parts = []
  | _, [], _ => rfl
  | index, a :: rest, h => by
    rw [each, trail_cons, Trail.halt_andThen_eq_none] at h
    rw [endIn, h.1, endIn_eq_nil h.2]
    rfl

theorem endIn_eq_cons (step : Nat → α → Step) (ends : Nat → α → Place) {halt : Halt} : ∀ {index : Nat} {parts : List α}, (each f index parts).trail.halt = some halt →
    ∃ i, ∃ a ∈ parts, (f i a).trail.halt = some halt ∧ endIn f step ends index parts = step i a :: ends i a
  | _, [], h => by cases h
  | index, a :: rest, h => by
    rw [each, trail_cons] at h
    cases ha : (f index a).trail.halt with
    | some halt' =>
      rw [Trail.andThen_of_some ha, ha] at h
      cases h
      exact ⟨index, a, List.mem_cons_self, ha, by rw [endIn, ha]; rfl⟩
    | none =>
      rw [Trail.andThen_of_none ha] at h
      obtain ⟨i, b, hb, hhalt, heq⟩ := endIn_eq_cons step ends h
      exact ⟨i, b, List.mem_cons_of_mem a hb, hhalt, by rw [endIn, ha, ← heq]; rfl⟩

end Walk

namespace Setting

variable (s : Setting)

mutual

/-- The place of the value at which a walk ends that does not go through: the innermost one that was being walked. -/
def endsAt (path : Pointer) (e : Element) : Value → Place
  | .object fields =>
    match e with
    | .object _ children =>
      if ((s.dropMeta path fields).andThen (s.reportMissing path children fields)).halt.isSome then []
      else endsAtFields path children fields
    | _ => []
  | .array _ entries =>
    match e with
    | .array _ slots ordered allowNull =>
      if ordered = [] ∨ ordered.length = entries.length then
        match ArrayMode.ofContents slots ordered with
        | .any => []
        | .typed | .ordered => endsAtEntries path slots ordered allowNull 0 entries
      else []
    | _ => []
  | _ => []

def endsAtFields (path : Pointer) (children : List (String × Element)) : List (Key × Value) → Place
  | [] => []
  | (key, v) :: rest =>
    match Element.governing? children key with
    | some child =>
      if (s.walk (path.push key.token) child v).trail.halt.isSome then
        .field key :: endsAt (path.push key.token) child v
      else endsAtFields path children rest
    | none => endsAtFields path children rest

def endsAtEntries (path : Pointer) (slots : List (Kind × Element)) (ordered : List Element) (allowNull : Bool)
    (index : Nat) : List Value → Place
  | [] => []
  | v :: rest =>
    match Element.entryDemand slots ordered allowNull index v with
    | .nothing => endsAtEntries path slots ordered allowNull (index + 1) rest
    | .refused cause =>
      if (s.found (path.entry index) cause).halt.isSome then [.entry index]
      else endsAtEntries path slots ordered allowNull (index + 1) rest
    | .governed e =>
      if (s.walk (path.entry index) e v).trail.halt.isSome then .entry index :: endsAt (path.entry index) e v
      else endsAtEntries path slots ordered allowNull (index + 1) rest

end

def endsAtField (path : Pointer) (children : List (String × Element)) (field : Key × Value) : Place :=
  match Element.governing? children field.1 with
  | some child => s.endsAt (path.push field.1.token) child field.2
  | none => []

def endsAtEntry (path : Pointer) (slots : List (Kind × Element)) (ordered : List Element) (allowNull : Bool) (index : Nat)
    (v : Value) : Place :=
  match Element.entryDemand slots ordered allowNull index v with
  | .nothing | .refused _ => []
  | .governed e => s.endsAt (path.entry index) e v

def endsAtContents (path : Pointer) (slots : List (Kind × Element)) (ordered : List Element) (allowNull : Bool)
    (entries : List Value) : Place :=
  match ArrayMode.ofContents slots ordered with
  | .any => []
  | .typed | .ordered => s.endsAtEntries path slots ordered allowNull 0 entries

theorem endsAt_array (path : Pointer) (traits : Traits) (slots : List (Kind × Element)) {ordered : List Element}
    (allowNull : Bool) (shape : ArrayShape) {entries : List Value} (h : ordered = [] ∨ ordered.length = entries.length) :
    s.endsAt path (.array traits slots ordered allowNull) (.array shape entries) =
      s.endsAtContents path slots ordered allowNull entries := by
  rw [endsAt, if_pos h, endsAtContents]

theorem endsAtFields_eq_endIn (path : Pointer) (children : List (String × Element)) :
    ∀ (index : Nat) (fields : List (Key × Value)), s.endsAtFields path children fields =
      Walk.endIn (fun _ => s.walkField path children) (fun _ field => .field field.1) (fun _ => s.endsAtField path children)
        index fields
  | _, [] => rfl
  | index, (key, v) :: rest => by
    rw [endsAtFields, Walk.endIn, endsAtFields_eq_endIn path children (index + 1) rest, walkField, endsAtField]
    cases Element.governing? children key <;> rfl

theorem endsAtEntries_eq_endIn (path : Pointer) (slots : List (Kind × Element)) (ordered : List Element)
    (allowNull : Bool) : ∀ (index : Nat) (entries : List Value),
      s.endsAtEntries path slots ordered allowNull index entries =
        Walk.endIn (s.walkEntry path slots ordered allowNull) (fun index _ => .entry index)
          (s.endsAtEntry path slots ordered allowNull) index entries
  | _, [] => rfl
  | index, v :: rest => by
    rw [endsAtEntries, Walk.endIn, endsAtEntries_eq_endIn path slots ordered allowNull (index + 1) rest, walkEntry,
      endsAtEntry]
    cases Element.entryDemand slots ordered allowNull index v <;> rfl

end Setting

/-- The text by which a step is written in a pointer. -/
def Step.token : Step → String
  | .field key => key.token
  | .entry index => toString index

/-- The pointer to the value at a place inside the value at `path`. -/
def Pointer.along (path : Pointer) (place : Place) : Pointer := place.foldl (fun path step => path.push step.token) path

/-- A violation of the value at `path`: it points at the value, or at a child that the value lacks. -/
def Violation.Blames (path : Pointer) (x : Violation) : Prop :=
  x.path = path ∨ ∃ name, x = ⟨.missingField name, path.push name⟩

namespace Trail

variable {P : Violation → Prop} {t u : Trail}

/-- If a violation ends the trail, it is one of those that `P` allows. -/
def EndsOn (P : Violation → Prop) (t : Trail) : Prop := ∀ x, t.halt = some (.firstViolation x) → P x

theorem EndsOn.andThen (ht : t.EndsOn P) (hu : t.halt = none → u.EndsOn P) : (t.andThen u).EndsOn P := by
  cases hh : t.halt with
  | some halt => rwa [andThen_of_some hh]
  | none =>
    rw [andThen_of_none hh]
    exact hu hh

theorem EndsOn.andIfClean (ht : t.EndsOn P) (hu : t.halt = none → u.EndsOn P) : (t.andIfClean u).EndsOn P := by
  by_cases hv : t.violations = []
  · rw [andIfClean_of_nil hv]
    exact ht.andThen hu
  · rwa [andIfClean_of_ne_nil hv]

theorem EndsOn.of_halt (h : t.halt = none) : t.EndsOn P := fun x hx => by rw [h] at hx; cases hx

theorem EndsOn.sequence : ∀ {ts : List Trail}, (∀ t ∈ ts, t.EndsOn P) → (sequence ts).EndsOn P
  | [], _ => .of_halt rfl
  | t :: _, h => (h t List.mem_cons_self).andThen fun _ => sequence fun u hu => h u (List.mem_cons_of_mem t hu)

end Trail

namespace Setting

variable {s : Setting}

theorem endsOn_found {P : Violation → Prop} {path : Pointer} {cause : Cause} (h : P ⟨cause, path⟩) :
    (s.found path cause).EndsOn P := by
  intro x hx
  unfold found at hx
  split at hx
  · cases hx
    exact h
  · cases hx

theorem endsOn_foundAll (path : Pointer) (causes : List Cause) :
    (s.foundAll path causes).EndsOn (·.path = path) := by
  refine .sequence fun t ht => ?_
  obtain ⟨cause, -, rfl⟩ := List.mem_map.1 ht
  exact endsOn_found rfl

theorem endsOn_askAll (path : Pointer) (e : Element) (v : Value) : (s.askAll path e v).EndsOn (·.path = path) := by
  refine .sequence fun t ht => ?_
  obtain ⟨w, -, rfl⟩ := List.mem_map.1 ht
  refine Trail.EndsOn.andThen (.of_halt rfl) fun _ => ?_
  cases s.judge w e v with
  | accept => exact .of_halt rfl
  | reject => exact endsOn_found rfl
  | fail f => exact fun x hx => by cases hx

theorem endsOn_reportMissing (path : Pointer) (children : List (String × Element)) (fields : List (Key × Value)) :
    (s.reportMissing path children fields).EndsOn fun x => ∃ name, x = ⟨.missingField name, path.push name⟩ := by
  refine .sequence fun t ht => ?_
  obtain ⟨name, -, rfl⟩ := List.mem_map.1 ht
  exact endsOn_found ⟨name, rfl⟩

def EndsOnBlame (s : Setting) (v : Value) : Prop := ∀ e path,
  (s.walk path e v).trail.EndsOn (Violation.Blames (path.along (s.endsAt path e v)))

theorem endsAt_of_not_accepts (path : Pointer) {e : Element} {v : Value} (h : e.accepts v = false) :
    s.endsAt path e v = [] := by
  cases v with
  | object fields =>
    cases e with
    | object => cases h
    | array | string | number | boolean => rfl
  | array shape entries =>
    cases e with
    | array => cases h
    | object | string | number | boolean => rfl
  | null | boolean | number | string | foreign => rfl

theorem endsAt_scalar (path : Pointer) (e : Element) {v : Value} (h : v.isScalar = true) : s.endsAt path e v = [] := by
  cases v with
  | null | array | object => cases h
  | boolean | number | string | foreign => rfl

theorem endsOn_walkField {field : Key × Value} (ih : s.EndsOnBlame field.2) (path : Pointer)
    (children : List (String × Element)) : (s.walkField path children field).trail.EndsOn
      (Violation.Blames ((path.push field.1.token).along (s.endsAtField path children field))) := by
  unfold walkField endsAtField
  cases Element.governing? children field.1 with
  | none => exact .of_halt rfl
  | some child => exact ih child _

theorem endsOn_walkEntry {v : Value} (ih : s.EndsOnBlame v) (path : Pointer) (slots : List (Kind × Element))
    (ordered : List Element) (allowNull : Bool) (index : Nat) :
    (s.walkEntry path slots ordered allowNull index v).trail.EndsOn
      (Violation.Blames ((path.entry index).along (s.endsAtEntry path slots ordered allowNull index v))) := by
  unfold walkEntry endsAtEntry
  cases Element.entryDemand slots ordered allowNull index v with
  | nothing => exact .of_halt rfl
  | refused cause => exact endsOn_found (.inl rfl)
  | governed e => exact ih e _

theorem endsOn_walkContents {entries : List Value} (ih : ∀ v ∈ entries, s.EndsOnBlame v) (path : Pointer)
    (slots : List (Kind × Element)) (ordered : List Element) (allowNull : Bool) :
    (s.walkContents path slots ordered allowNull entries).trail.EndsOn
      (Violation.Blames (path.along (s.endsAtContents path slots ordered allowNull entries))) := by
  unfold walkContents endsAtContents
  cases ArrayMode.ofContents slots ordered with
  | any =>
    simp only [anyEntries]
    split
    · exact endsOn_found (.inl rfl)
    · exact .of_halt rfl
  | typed | ordered =>
    intro x hx
    obtain ⟨i, v, hv, hhalt, hends⟩ := Walk.endIn_eq_cons (fun index _ => .entry index)
      (s.endsAtEntry path slots ordered allowNull) hx
    simp only [endsAtEntries_eq_endIn, hends]
    exact endsOn_walkEntry (ih v hv) path slots ordered allowNull i x hhalt

theorem endsAtContents_eq_nil {path : Pointer} {slots : List (Kind × Element)} {ordered : List Element}
    {allowNull : Bool} {entries : List Value} (h : (s.walkContents path slots ordered allowNull entries).trail.halt = none) :
    s.endsAtContents path slots ordered allowNull entries = [] := by
  unfold walkContents at h
  unfold endsAtContents
  cases hm : ArrayMode.ofContents slots ordered with
  | any => rfl
  | typed | ordered =>
    simp only [hm] at h ⊢
    rw [endsAtEntries_eq_endIn, Walk.endIn_eq_nil h]

theorem endsOn_walkObject {fields : List (Key × Value)} (ih : ∀ field ∈ fields, s.EndsOnBlame field.2) (path : Pointer)
    (traits : Traits) (children : List (String × Element)) :
    (s.walk path (.object traits children) (.object fields)).trail.EndsOn
      (Violation.Blames (path.along (s.endsAt path (.object traits children) (.object fields)))) := by
  have hnote := s.clean_noteUnlisted children fields
  rw [walk_object, trail_walkObject, endsAt]
  refine Trail.EndsOn.andThen (Trail.EndsOn.andIfClean (Trail.EndsOn.andThen ?_ fun hopen => ?_) fun hwalked => ?_)
    fun _ => .of_halt hnote.halt
  · intro x hx
    have hdrop := (s.clean_dropMeta path fields).halt
    rw [hx]
    exact .inr (Trail.EndsOn.andThen (.of_halt hdrop) (fun _ => endsOn_reportMissing path children fields) x hx)
  · intro x hx
    obtain ⟨i, field, hf, hhalt, hends⟩ := Walk.endIn_eq_cons (fun _ field => .field field.1)
      (fun _ => s.endsAtField path children) hx
    rw [hopen, endsAtFields_eq_endIn s path children 0, hends]
    exact endsOn_walkField (ih field hf) path children x hhalt
  · -- the fields went through, so it is the object itself whose validators are asked
    obtain ⟨hopen, hinside⟩ := Trail.halt_andThen_eq_none.1 hwalked
    rw [hopen, endsAtFields_eq_endIn s path children 0, Walk.endIn_eq_nil hinside]
    exact fun x hx => .inl (endsOn_askAll path _ _ x hx)

/-- **A violation that ends a walk is one of the value at which the walk ends.** -/
theorem blames_walk (e : Element) (v : Value) : ∀ path,
    (s.walk path e v).trail.EndsOn (Violation.Blames (path.along (s.endsAt path e v))) := by
  induction e, v using Element.induct with
  | null e =>
    intro path
    rw [walk_null]
    unfold nullField
    split
    · exact .of_halt rfl
    · exact endsOn_found (.inl rfl)
  | wrong e v hv ha =>
    intro path
    rw [walk_wrong s path hv ha, endsAt_of_not_accepts path ha]
    exact endsOn_found (.inl rfl)
  | scalar e v hv ha =>
    intro path
    rw [walk_scalar s path hv ha, endsAt_scalar path e hv]
    exact Trail.EndsOn.andIfClean (fun x hx => .inl (endsOn_foundAll path _ x hx))
      fun _ x hx => .inl (endsOn_askAll path e v x hx)
  | object traits children fields ih =>
    exact fun path => endsOn_walkObject ih path traits children
  | array traits slots ordered allowNull shape entries ih =>
    intro path
    by_cases hl : ordered = [] ∨ ordered.length = entries.length
    · rw [walk_array s path traits slots allowNull shape hl, trail_walkArray,
        s.endsAt_array path traits slots allowNull shape hl]
      refine Trail.EndsOn.andIfClean (endsOn_walkContents ih path slots ordered allowNull) fun hinside => ?_
      rw [endsAtContents_eq_nil hinside]
      exact fun x hx => .inl (endsOn_askAll path _ _ x hx)
    · rw [walk_array_of_length_ne s path traits slots allowNull shape hl, endsAt, if_neg hl]
      exact endsOn_found (.inl rfl)

end Setting
end ConfigSchema
