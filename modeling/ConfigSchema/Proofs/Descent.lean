import ConfigSchema.Proofs.Removals
import ConfigSchema.Proofs.Trails
/-!
# Descent — a walk opened one level down

The parts of an object or array are walked one after the other, and the walk of the whole is put together from theirs.
This module opens a walk by that one level, for objects and arrays alike, so that what is true of whole walks can be shown
by induction on how an element and a value meet (`Element.induct`) without opening them again.
-/
namespace ConfigSchema

namespace Value

theorem isNull_iff {v : Value} : v.isNull = true ↔ v = .null := by cases v <;> simp [isNull]

/-- Whether a value is neither null nor made of further values. -/
def isScalar : Value → Bool
  | .boolean _ | .number _ | .string _ | .foreign _ => true
  | .null | .array _ _ | .object _ => false

@[elab_as_elim] theorem induct {motive : Value → Prop} (null : motive .null)
    (scalar : ∀ v, v.isScalar = true → motive v)
    (array : ∀ shape entries, (∀ v ∈ entries, motive v) → motive (.array shape entries))
    (object : ∀ fields, (∀ field ∈ fields, motive field.2) → motive (.object fields)) : ∀ v, motive v
  | .null => null
  | .boolean b => scalar (.boolean b) rfl
  | .number n => scalar (.number n) rfl
  | .string text => scalar (.string text) rfl
  | .foreign f => scalar (.foreign f) rfl
  | .array shape entries => array shape entries fun v _ => induct null scalar array object v
  | .object fields => object fields fun field _ => induct null scalar array object field.2
termination_by v => sizeOf v
decreasing_by
  · rename_i h
    have := List.sizeOf_lt_of_mem h
    simp only [Value.array.sizeOf_spec]
    omega
  · rename_i h
    have := List.sizeOf_lt_of_mem h
    rcases field with ⟨key, v⟩
    simp only [Value.object.sizeOf_spec, Prod.mk.sizeOf_spec] at this ⊢
    omega

end Value

namespace Element

/-- **How an element and a value can meet**: in null, in a value of another kind, in a scalar, or in an object or array,
of whose parts the same may be supposed. -/
@[elab_as_elim] theorem induct {motive : Element → Value → Prop} (null : ∀ e, motive e .null)
    (wrong : ∀ e v, v.isNull = false → e.accepts v = false → motive e v)
    (scalar : ∀ e v, v.isScalar = true → e.accepts v = true → motive e v)
    (object : ∀ traits children fields, (∀ field ∈ fields, ∀ child, motive child field.2) →
      motive (.object traits children) (.object fields))
    (array : ∀ traits slots ordered allowNull shape entries, (∀ v ∈ entries, ∀ e, motive e v) →
      motive (.array traits slots ordered allowNull) (.array shape entries)) (e : Element) (v : Value) : motive e v := by
  induction v using Value.induct generalizing e with
  | null => exact null e
  | scalar v h =>
    cases ha : e.accepts v with
    | true => exact scalar e v h ha
    | false => exact wrong e v (by cases v <;> first | rfl | cases h) ha
  | object fields ih =>
    cases e with
    | object traits children => exact object traits children fields ih
    | array | string | number | boolean => exact wrong _ _ rfl rfl
  | array shape entries ih =>
    cases e with
    | array traits slots ordered allowNull => exact array traits slots ordered allowNull shape entries ih
    | object => exact wrong _ _ rfl (object_accepts_array _ _ shape entries)
    | string | number | boolean => exact wrong _ _ rfl rfl

/-- What is wrong with a scalar of the element's kind, custom checks apart. -/
def causes (e : Element) (v : Value) : List Cause :=
  match e, v with
  | .string _ rules, .string text => rules.causes text
  | .number _ rules, .number n => rules.causes n
  | _, _ => []

/-- The element that an array asks of an entry accepts no null, for it is not asked about one. -/
theorem entryDemand_eq_governed {slots : List (Kind × Element)} {ordered : List Element} {allowNull : Bool} {index : Nat}
    {v : Value} {e : Element} (h : entryDemand slots ordered allowNull index v = .governed e) :
    v ≠ .null ∧ entry? slots ordered index v = some e := by
  unfold entryDemand at h
  cases hn : v.isNull with
  | true =>
    rw [hn] at h
    cases allowNull <;> cases h
  | false =>
    rw [hn] at h
    simp only [Bool.false_eq_true, if_false] at h
    have hv : v ≠ .null := by
      rintro rfl
      cases hn
    refine ⟨hv, ?_⟩
    cases he : entry? slots ordered index v with
    | none => rw [he] at h; cases h
    | some e' => rw [he] at h; cases h; rfl

theorem entryDemand_eq_nothing {slots : List (Kind × Element)} {ordered : List Element} {allowNull : Bool} {index : Nat}
    {v : Value} (h : entryDemand slots ordered allowNull index v = .nothing) : v = .null ∧ allowNull = true := by
  unfold entryDemand at h
  cases hn : v.isNull with
  | true =>
    rw [hn] at h
    cases allowNull with
    | true => exact ⟨Value.isNull_iff.1 hn, rfl⟩
    | false => cases h
  | false =>
    rw [hn] at h
    cases he : entry? slots ordered index v <;> rw [he] at h <;> cases h

/-- What an array refuses in an entry is null, or a kind for which it has no element. -/
theorem entryDemand_eq_refused {slots : List (Kind × Element)} {ordered : List Element} {allowNull : Bool} {index : Nat}
    {v : Value} {cause : Cause} (h : entryDemand slots ordered allowNull index v = .refused cause) :
    v = .null ∧ allowNull = false ∧ cause = .nullEntry ∨
      v ≠ .null ∧ entry? slots ordered index v = none ∧ cause = .entryType v.kindName := by
  unfold entryDemand at h
  cases hn : v.isNull with
  | true =>
    rw [hn] at h
    cases allowNull with
    | true => cases h
    | false => cases h; exact .inl ⟨Value.isNull_iff.1 hn, rfl, rfl⟩
  | false =>
    rw [hn] at h
    simp only [Bool.false_eq_true, if_false] at h
    have hv : v ≠ .null := by
      rintro rfl
      cases hn
    cases he : entry? slots ordered index v with
    | none => rw [he] at h; cases h; exact .inr ⟨hv, rfl, rfl⟩
    | some e' => rw [he] at h; cases h

end Element

namespace Walk

variable {α β : Type}

@[simp] theorem left_map (f : α → β) (w : Walk α) : (w.map f).left = f w.left := rfl

@[simp] theorem trail_map (f : α → β) (w : Walk α) : (w.map f).trail = w.trail := rfl

@[simp] theorem left_under (step : Step) (w : Walk α) : (w.under step).left = w.left := rfl

@[simp] theorem trail_under (step : Step) (w : Walk α) : (w.under step).trail = w.trail.under step := rfl

@[simp] theorem trail_after (t : Trail) (untouched : α) (w : Walk α) :
    (w.after t untouched).trail = t.andThen w.trail := by
  unfold after Trail.andThen
  cases t.halt <;> rfl

theorem left_after {t : Trail} (h : t.halt = none) (untouched : α) (w : Walk α) :
    (w.after t untouched).left = w.left := by
  simp only [after, h]

@[simp] theorem trail_cons (head : Walk α) (untouched : List α) (tail : Walk (List α)) :
    (head.cons untouched tail).trail = head.trail.andThen tail.trail := by
  unfold cons Trail.andThen
  cases head.trail.halt <;> rfl

theorem left_cons {head : Walk α} (h : head.trail.halt = none) (untouched : List α) (tail : Walk (List α)) :
    (head.cons untouched tail).left = head.left :: tail.left := by
  simp only [cons, h]

/-- Walks the parts of a list in turn; each walk is told the index of its part. -/
def each (f : Nat → α → Walk α) (index : Nat) : List α → Walk (List α)
  | [] => ⟨[], .empty⟩
  | a :: rest => (f index a).cons rest (each f (index + 1) rest)

/-- **The trail of a list is the trails of its parts, one after the other.** -/
theorem trail_each (f : Nat → α → Walk α) : ∀ (index : Nat) (parts : List α),
    (each f index parts).trail = .sequence (parts.mapIdx fun i a => (f (index + i) a).trail)
  | _, [] => rfl
  | index, a :: rest => by
    rw [each, trail_cons, trail_each f (index + 1) rest, List.mapIdx_cons, Trail.sequence]
    simp only [Nat.add_zero, Nat.add_assoc, Nat.add_comm 1]

/-- **A walk of a list that went through leaves of each part what the walk of the part leaves.** -/
theorem left_each {f : Nat → α → Walk α} {g : Nat → α → α} : ∀ {index : Nat} {parts : List α},
    (∀ i, ∀ a ∈ parts, (f i a).trail.halt = none → (f i a).left = g i a) →
      (each f index parts).trail.halt = none → (each f index parts).left = parts.mapIdx fun i a => g (index + i) a
  | _, [], _, _ => rfl
  | index, a :: rest, hg, h => by
    rw [each, trail_cons, Trail.halt_andThen_eq_none] at h
    have ih := left_each (fun i b hb => hg i b (List.mem_cons_of_mem a hb)) h.2
    rw [each, left_cons h.1, hg index a List.mem_cons_self h.1, ih, List.mapIdx_cons]
    simp only [Nat.add_zero, Nat.add_assoc, Nat.add_comm 1]

theorem mapIdx_const (g : α → β) (parts : List α) : (parts.mapIdx fun _ a => g a) = parts.map g :=
  List.mapIdx_eq_iff.2 fun i => by rw [List.getElem?_map]

/-- **A walk of a list is clean exactly when the walk of each part is.** -/
theorem clean_each {f : Nat → α → Walk α} {index : Nat} {parts : List α} :
    (each f index parts).trail.Clean ↔ ∀ i a, parts[i]? = some a → (f (index + i) a).trail.Clean := by
  rw [trail_each, Trail.clean_sequence]
  constructor
  · intro h i a ha
    obtain ⟨hi, rfl⟩ := List.getElem?_eq_some_iff.1 ha
    exact h _ (List.mem_mapIdx.2 ⟨i, hi, rfl⟩)
  · intro h t ht
    obtain ⟨i, hi, rfl⟩ := List.mem_mapIdx.1 ht
    exact h i _ (List.getElem?_eq_getElem hi)

/-- **The notes of a walk of a list are those of its parts, gathered.** -/
theorem unlisted_each {f : Nat → α → Walk α} (step : Nat → α → Step) (notes : Nat → α → List Removal)
    (hf : ∀ i a, (f i a).trail.unlisted = (notes i a).map (·.under (step i a))) :
    ∀ {index : Nat} {parts : List α}, (each f index parts).trail.halt = none → (each f index parts).trail.unlisted =
      Removal.gather (parts.mapIdx fun i a => (step (index + i) a, notes (index + i) a))
  | _, [], _ => rfl
  | index, a :: rest, h => by
    rw [each, trail_cons] at h ⊢
    obtain ⟨ha, hrest⟩ := Trail.halt_andThen_eq_none.1 h
    rw [Trail.unlisted_andThen ha, hf, unlisted_each step notes hf hrest, List.mapIdx_cons, Removal.gather_cons]
    simp only [Nat.add_zero, Nat.add_assoc, Nat.add_comm 1]

end Walk

namespace Setting

variable (s : Setting)

def walkField (path : Pointer) (children : List (String × Element)) (field : Key × Value) : Walk (Key × Value) :=
  match Element.governing? children field.1 with
  | some child => ((s.walk (path.push field.1.token) child field.2).map (field.1, ·)).under (.field field.1)
  | none => ⟨field, .empty⟩

def walkEntry (path : Pointer) (slots : List (Kind × Element)) (ordered : List Element) (allowNull : Bool)
    (index : Nat) (v : Value) : Walk Value :=
  match Element.entryDemand slots ordered allowNull index v with
  | .nothing => ⟨v, .empty⟩
  | .refused cause => ⟨v, s.found (path.entry index) cause⟩
  | .governed e => (s.walk (path.entry index) e v).under (.entry index)

theorem walkFields_eq_each (path : Pointer) (children : List (String × Element)) :
    ∀ (index : Nat) (fields : List (Key × Value)),
      s.walkFields path children fields = .each (fun _ => s.walkField path children) index fields
  | _, [] => by rw [walkFields, Walk.each]
  | index, (key, v) :: rest => by
    rw [walkFields, Walk.each, ← walkFields_eq_each path children (index + 1) rest, walkField]
    cases Element.governing? children key with
    | some child => rfl
    | none => simp [Walk.map, Walk.cons, Trail.empty, Trail.andThen]

theorem walkEntries_eq_each (path : Pointer) (slots : List (Kind × Element)) (ordered : List Element)
    (allowNull : Bool) : ∀ (index : Nat) (entries : List Value),
      s.walkEntries path slots ordered allowNull index entries =
        .each (s.walkEntry path slots ordered allowNull) index entries
  | _, [] => by rw [walkEntries, Walk.each]
  | index, v :: rest => by
    rw [walkEntries, Walk.each, ← walkEntries_eq_each path slots ordered allowNull (index + 1) rest]
    rfl

/-- **What the walk of an object tells of, in order**: the meta fields taken out, the missing children, the fields, the
validators if all of that was clean, and the note of the unlisted fields. -/
theorem trail_walkObject (path : Pointer) (e : Element) (children : List (String × Element))
    (fields : List (Key × Value)) (inside : Walk (List (Key × Value))) :
    (s.walkObject path e children fields inside).trail =
      ((((s.dropMeta path fields).andThen (s.reportMissing path children fields)).andThen inside.trail).andIfClean
        (s.askAll path e (s.walkObject path e children fields inside).left)).andThen
          (s.noteUnlisted children fields) := by
  rw [walkObject, Walk.trail_after]

theorem halt_walkObject {path : Pointer} {e : Element} {children : List (String × Element)}
    {fields : List (Key × Value)} {inside : Walk (List (Key × Value))}
    (h : (s.walkObject path e children fields inside).trail.halt = none) :
    ((s.dropMeta path fields).andThen (s.reportMissing path children fields)).halt = none ∧
      inside.trail.halt = none := by
  rw [trail_walkObject, Trail.halt_andThen_eq_none] at h
  exact Trail.halt_andThen_eq_none.1 (Trail.halt_of_halt_andIfClean h.1)

theorem left_walkObject {path : Pointer} {children : List (String × Element)} {fields : List (Key × Value)}
    (h : ((s.dropMeta path fields).andThen (s.reportMissing path children fields)).halt = none) (e : Element)
    (inside : Walk (List (Key × Value))) : (s.walkObject path e children fields inside).left =
      .object (inside.left.filter fun field => !s.options.drops field.1) := by
  rw [walkObject, Walk.left_after h]

/-- **The walk of an object is clean exactly when no child is missing, the fields are clean, and all validators accept
what is left.** -/
theorem clean_walkObject {path : Pointer} {e : Element} {children : List (String × Element)}
    {fields : List (Key × Value)} {inside : Walk (List (Key × Value))} :
    (s.walkObject path e children fields inside).trail.Clean ↔
      Element.missingNames children fields = [] ∧ inside.trail.Clean ∧
        ∀ w ∈ e.validators, s.judge w e (s.walkObject path e children fields inside).left = .accept := by
  rw [trail_walkObject]
  simp only [Trail.clean_andThen, Trail.clean_andIfClean, clean_dropMeta, clean_reportMissing, clean_noteUnlisted,
    clean_askAll, true_and, and_true, and_assoc]

theorem trail_walkArray (path : Pointer) (e : Element) (shape : ArrayShape) (inside : Walk (List Value)) :
    (s.walkArray path e shape inside).trail = inside.trail.andIfClean (s.askAll path e (.array shape inside.left)) := rfl

theorem clean_walkArray {path : Pointer} {e : Element} {shape : ArrayShape} {inside : Walk (List Value)} :
    (s.walkArray path e shape inside).trail.Clean ↔
      inside.trail.Clean ∧ ∀ w ∈ e.validators, s.judge w e (.array shape inside.left) = .accept := by
  rw [trail_walkArray, Trail.clean_andIfClean, clean_askAll]

theorem left_walkArray (path : Pointer) (e : Element) (shape : ArrayShape) (inside : Walk (List Value)) :
    (s.walkArray path e shape inside).left = .array shape inside.left := rfl

def walkContents (path : Pointer) (slots : List (Kind × Element)) (ordered : List Element) (allowNull : Bool)
    (entries : List Value) : Walk (List Value) :=
  match ArrayMode.ofContents slots ordered with
  | .any => s.anyEntries path allowNull entries
  | .typed | .ordered => .each (s.walkEntry path slots ordered allowNull) 0 entries

variable (path : Pointer)

theorem walk_null (e : Element) : s.walk path e .null = ⟨.null, s.nullField path e⟩ := by
  rw [walk]

theorem walk_wrong {e : Element} {v : Value} (hv : v.isNull = false) (h : e.accepts v = false) :
    s.walk path e v = ⟨v, s.wrongKind path e v⟩ := by
  cases v with
  | null => cases hv
  | object fields =>
    cases e with
    | object => cases h
    | array | string | number | boolean => simp only [walk]
  | array shape entries =>
    cases e with
    | array => cases h
    | object | string | number | boolean => simp only [walk]
  | boolean | number | string | foreign => cases e <;> first | rfl | cases h

theorem walk_scalar {e : Element} {v : Value} (hv : v.isScalar = true) (h : e.accepts v = true) :
    s.walk path e v = ⟨v, (s.foundAll path (e.causes v)).andIfClean (s.askAll path e v)⟩ := by
  cases v with
  | null | object | array => cases hv
  | foreign f => rw [e.accepts_foreign f] at h; cases h
  | boolean | number | string => cases e <;> first | rfl | cases h

theorem walk_object (traits : Traits) (children : List (String × Element)) (fields : List (Key × Value)) :
    s.walk path (.object traits children) (.object fields) =
      s.walkObject path (.object traits children) children fields
        (.each (fun _ => s.walkField path children) 0 fields) := by
  rw [walk, walkFields_eq_each]

theorem walk_array (traits : Traits) (slots : List (Kind × Element)) {ordered : List Element} (allowNull : Bool)
    (shape : ArrayShape) {entries : List Value} (h : ordered = [] ∨ ordered.length = entries.length) :
    s.walk path (.array traits slots ordered allowNull) (.array shape entries) =
      s.walkArray path (.array traits slots ordered allowNull) shape
        (s.walkContents path slots ordered allowNull entries) := by
  rw [walk, walkContents]
  cases hm : ArrayMode.ofContents slots ordered with
  | any => rfl
  | typed => simp only [walkEntries_eq_each]
  | ordered =>
    have hl : ordered.length = entries.length := h.resolve_left fun h0 => by
      subst h0
      cases slots <;> cases hm
    simp only [hl, if_true, walkEntries_eq_each]

theorem walk_array_of_length_ne (traits : Traits) (slots : List (Kind × Element)) {ordered : List Element}
    (allowNull : Bool) (shape : ArrayShape) {entries : List Value}
    (h : ¬ (ordered = [] ∨ ordered.length = entries.length)) :
    s.walk path (.array traits slots ordered allowNull) (.array shape entries) =
      ⟨.array shape entries, s.found path (.arrayContents (.wrongLength entries.length ordered.length))⟩ := by
  rw [not_or] at h
  have hm : ArrayMode.ofContents slots ordered = .ordered := by simp [ArrayMode.ofContents, h.1]
  rw [walk]
  simp only [hm, h.2, if_false]

end Setting
end ConfigSchema
