import ConfigSchema.Proofs.Conformance
import ConfigSchema.Proofs.Reached
import ConfigSchema.Proofs.Tokens
/-!
# Visits — the values of a document in the order in which they are done with

A run comes to the values of a document along the schema, and is done with a value only after those inside it: declared
fields in the order of the document, entries by index (`Element.visits`).  Its validators are due if the value fits the
element, custom checks and parts aside, and nothing was found wrong strictly inside it (`Visit.Due`).
-/
namespace ConfigSchema

/-! ## Values that fit -/

namespace Element

/-- A value passes the built-in checks of its element, those of its parts aside: it is of the element's kind, within the
bounds or among the listed values, has all required fields, or as many entries and of such kinds as the array takes. -/
def Fits : Element → Value → Prop
  | .object _ children, .object fields =>
    ∀ child ∈ children, child.2.traits.required = true → .name child.1 ∈ fields.map Prod.fst
  | .array _ slots ordered allowNull, .array _ entries =>
    (.null ∈ entries → allowNull = true) ∧ (ordered ≠ [] → ordered.length = entries.length) ∧
      (ordered = [] → slots ≠ [] → ∀ v ∈ entries, v ≠ .null → ∃ slot ∈ slots, v.isOf slot.1 = true)
  | .string _ rules, .string text => rules.Admit text
  | .number _ rules, .number n => n.Within rules.minValue rules.maxValue
  | .boolean _ _, .boolean _ => True
  | _, _ => False

/-- Whether a value fits, computed. -/
def fits : Element → Value → Bool
  | .object _ children, .object fields => (missingNames children fields).isEmpty
  | .array _ slots ordered allowNull, .array _ entries =>
    (allowNull || !entries.any (·.isNull)) && (ordered.isEmpty || ordered.length == entries.length) &&
      (!ordered.isEmpty || slots.isEmpty || entries.all fun v => v.isNull || slots.any fun slot => v.isOf slot.1)
  | .string _ rules, .string text => (rules.causes text).isEmpty
  | .number _ rules, .number n => (rules.causes n).isEmpty
  | .boolean _ _, .boolean _ => true
  | _, _ => false

theorem fits_array_iff {allowNull : Bool} {slots : List (Kind × Element)} {ordered : List Element} {traits : Traits}
    {shape : ArrayShape} {entries : List Value} :
    (Element.array traits slots ordered allowNull).fits (.array shape entries) = true ↔
      (Element.array traits slots ordered allowNull).Fits (.array shape entries) := by
  simp only [fits, Fits, Bool.and_eq_true, Bool.or_eq_true, Bool.not_eq_true', List.isEmpty_iff, beq_iff_eq,
    List.any_eq_true, List.any_eq_false, List.all_eq_true, List.isEmpty_eq_false_iff, Value.isNull_iff, and_assoc]
  refine and_congr ?_ (and_congr ?_ ?_)
  · cases allowNull with
    | true => simp
    | false => simpa using List.forall_mem_ne'
  · exact Decidable.or_iff_not_imp_left
  · grind

theorem fits_iff (e : Element) (v : Value) : e.fits v = true ↔ e.Fits v := by
  cases e with
  | object traits children =>
    cases v with
    | object fields => exact List.isEmpty_iff.trans missingNames_eq_nil
    | null | boolean | number | string | array | foreign => exact iff_of_false Bool.false_ne_true id
  | array traits slots ordered allowNull =>
    cases v with
    | array shape entries => exact fits_array_iff
    | null | boolean | number | string | object | foreign => exact iff_of_false Bool.false_ne_true id
  | string traits rules =>
    cases v with
    | string text => exact List.isEmpty_iff.trans (rules.causes_eq_nil text)
    | null | boolean | number | array | object | foreign => exact iff_of_false Bool.false_ne_true id
  | number traits rules =>
    cases v with
    | number n => exact List.isEmpty_iff.trans (Measure.outOfRange_eq_nil (.value n) _ _)
    | null | boolean | string | array | object | foreign => exact iff_of_false Bool.false_ne_true id
  | boolean traits default =>
    cases v with
    | boolean b => exact iff_of_true rfl trivial
    | null | number | string | array | object | foreign => exact iff_of_false Bool.false_ne_true id

instance (e : Element) (v : Value) : Decidable (e.Fits v) := decidable_of_iff _ (e.fits_iff v)

theorem Fits.accepts {e : Element} {v : Value} (h : e.Fits v) : e.accepts v = true := by
  cases e <;> cases v <;> first | rfl | exact h.elim

theorem fits_scalar {e : Element} {v : Value} (hv : v.isScalar = true) (ha : e.accepts v = true) :
    e.Fits v ↔ e.causes v = [] := by
  rw [← fits_iff]
  cases v with
  | null | array | object => cases hv
  | foreign f => rw [e.accepts_foreign f] at ha; cases ha
  | boolean b =>
    cases e with
    | boolean traits default => exact iff_of_true rfl rfl
    | object | array | string | number => cases ha
  | number n =>
    cases e with
    | number traits rules => exact List.isEmpty_iff
    | object | array | string | boolean => cases ha
  | string text =>
    cases e with
    | string traits rules => exact List.isEmpty_iff
    | object | array | number | boolean => cases ha

end Element

/-! ## The values that a run comes to -/

/-- A value of a document, with the element that governs it and its place. -/
structure Visit where
  path : Pointer
  element : Element
  value : Value

namespace Element

mutual

/-- What a run comes to inside a value. -/
def visitsInside (path : Pointer) (e : Element) : Value → List Visit
  | .object fields =>
    match e with
    | .object _ children => visitsFields path children fields
    | _ => []
  | .array _ entries =>
    match e with
    | .array _ slots ordered _ =>
      if ordered = [] ∨ ordered.length = entries.length then visitsEntries path slots ordered 0 entries else []
    | _ => []
  | _ => []

def visitsFields (path : Pointer) (children : List (String × Element)) : List (Key × Value) → List Visit
  | [] => []
  | (key, v) :: rest =>
    match governing? children key with
    | some child =>
      visitsInside (path.push key.token) child v ++ ⟨path.push key.token, child, v⟩ :: visitsFields path children rest
    | none => visitsFields path children rest

def visitsEntries (path : Pointer) (slots : List (Kind × Element)) (ordered : List Element) (index : Nat) :
    List Value → List Visit
  | [] => []
  | v :: rest =>
    match entry? slots ordered index v with
    | some e =>
      if v.isNull then visitsEntries path slots ordered (index + 1) rest
      else visitsInside (path.entry index) e v ++
        ⟨path.entry index, e, v⟩ :: visitsEntries path slots ordered (index + 1) rest
    | none => visitsEntries path slots ordered (index + 1) rest

end

/-- A value and what a run comes to inside it; the value comes last. -/
def visits (path : Pointer) (e : Element) (v : Value) : List Visit := e.visitsInside path v ++ [⟨path, e, v⟩]

/-- What a run comes to, which is nothing if the root does not admit the document. -/
def documentVisits (root : Element) (document : Value) : List Visit :=
  if root.admits document then root.visits .root document else []

def fieldVisits (path : Pointer) (children : List (String × Element)) (field : Key × Value) : List Visit :=
  match governing? children field.1 with
  | some child => child.visits (path.push field.1.token) field.2
  | none => []

def entryVisits (path : Pointer) (slots : List (Kind × Element)) (ordered : List Element) (index : Nat) (v : Value) :
    List Visit :=
  match entry? slots ordered index v with
  | some e => if v.isNull then [] else e.visits (path.entry index) v
  | none => []

/-- An entry is visited if something is asked of it that only its walk can tell. -/
theorem entryVisits_eq (path : Pointer) (slots : List (Kind × Element)) (ordered : List Element) (allowNull : Bool)
    (index : Nat) (v : Value) : entryVisits path slots ordered index v =
      match entryDemand slots ordered allowNull index v with
      | .governed e => e.visits (path.entry index) v
      | .nothing | .refused _ => [] := by
  unfold entryVisits entryDemand
  cases v.isNull with
  | true => cases allowNull <;> cases entry? slots ordered index v <;> rfl
  | false => cases entry? slots ordered index v <;> rfl

theorem visitsFields_eq (path : Pointer) (children : List (String × Element)) : ∀ (fields : List (Key × Value)),
    visitsFields path children fields = fields.flatMap (fieldVisits path children)
  | [] => rfl
  | (key, v) :: rest => by
    rw [visitsFields, visitsFields_eq path children rest, List.flatMap_cons, fieldVisits]
    cases governing? children key with
    | none => rfl
    | some child => simp only [visits, List.append_assoc, List.singleton_append]

theorem visitsEntries_eq (path : Pointer) (slots : List (Kind × Element)) (ordered : List Element) :
    ∀ (index : Nat) (entries : List Value), visitsEntries path slots ordered index entries =
      (entries.mapIdx fun i v => entryVisits path slots ordered (index + i) v).flatten
  | _, [] => rfl
  | index, v :: rest => by
    rw [visitsEntries, visitsEntries_eq path slots ordered (index + 1) rest, List.mapIdx_cons, List.flatten_cons,
      entryVisits]
    simp only [Nat.add_zero, Nat.add_assoc, Nat.add_comm 1]
    cases entry? slots ordered index v with
    | none => rfl
    | some e =>
      cases v.isNull with
      | true => rfl
      | false => simp [visits]

theorem visits_object (path : Pointer) (traits : Traits) (children : List (String × Element))
    (fields : List (Key × Value)) : (Element.object traits children).visits path (.object fields) =
      fields.flatMap (fieldVisits path children) ++ [⟨path, .object traits children, .object fields⟩] := by
  rw [visits, visitsInside, visitsFields_eq]

theorem visits_array (path : Pointer) (traits : Traits) (slots : List (Kind × Element)) {ordered : List Element}
    (allowNull : Bool) (shape : ArrayShape) {entries : List Value}
    (h : ordered = [] ∨ ordered.length = entries.length) :
    (Element.array traits slots ordered allowNull).visits path (.array shape entries) =
      (entries.mapIdx (entryVisits path slots ordered)).flatten ++
        [⟨path, .array traits slots ordered allowNull, .array shape entries⟩] := by
  rw [visits, visitsInside, if_pos h, visitsEntries_eq]
  simp only [Nat.zero_add]

theorem visits_array_of_length_ne (path : Pointer) (traits : Traits) (slots : List (Kind × Element))
    {ordered : List Element} (allowNull : Bool) (shape : ArrayShape) {entries : List Value}
    (h : ¬ (ordered = [] ∨ ordered.length = entries.length)) :
    (Element.array traits slots ordered allowNull).visits path (.array shape entries) =
      [⟨path, .array traits slots ordered allowNull, .array shape entries⟩] := by
  rw [visits, visitsInside, if_neg h, List.nil_append]

theorem visits_of_not_accepts (path : Pointer) {e : Element} {v : Value} (h : e.accepts v = false) :
    e.visits path v = [⟨path, e, v⟩] := by
  cases v with
  | object fields =>
    cases e with
    | object => cases h
    | array | string | number | boolean => rfl
  | array shape entries =>
    cases e with
    | array => cases h
    | object | string | number | boolean => rfl
  | null | boolean | number | string | foreign => rfl

theorem visits_scalar (path : Pointer) (e : Element) {v : Value} (h : v.isScalar = true) :
    e.visits path v = [⟨path, e, v⟩] := by
  cases v with
  | null | array | object => cases h
  | boolean | number | string | foreign => rfl

end Element

/-- A violation points at a part of what stands at `path`. -/
def Violation.Below (x : Violation) (path : Pointer) : Prop :=
  path.tokens <+: x.path.tokens ∧ x.path.tokens ≠ path.tokens

instance (x : Violation) (path : Pointer) : Decidable (x.Below path) := inferInstanceAs (Decidable (_ ∧ _))

/-- Validators are asked about a value that fits, if nothing was found wrong below it. -/
def Visit.Due (errors : List Violation) (n : Visit) : Prop := n.element.Fits n.value ∧ ∀ x ∈ errors, ¬ x.Below n.path

instance (errors : List Violation) (n : Visit) : Decidable (n.Due errors) := inferInstanceAs (Decidable (_ ∧ _))

/-- What the validators of a visited value are asked, in the order in which the element has them: each about the value
without the meta fields of the objects that are reached, itself and inside it. -/
def Setting.calls (s : Setting) (n : Visit) : List (Validator × Element × Value) :=
  n.element.validators.map fun w => (w, n.element, s.options.shed (n.element.reached n.value).contains n.value)

end ConfigSchema
