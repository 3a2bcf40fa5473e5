import ConfigSchema.Proofs.Reached
/-!
# Entrances — the objects that a walk has entered by its end

A walk that ends early has come to the first of the objects that it would come to otherwise.  `Setting.entered` lists them
along the walk itself: an object as soon as the walk opens it, and what is inside a part of a value only if no part before
it has ended the walk.
-/
namespace ConfigSchema

namespace Walk

variable {α : Type}

/-- The places that a walk of a list enters: those in its parts, up to the part in which it ends. -/
def enteredIn (f : Nat → α → Walk α) (step : Nat → α → Step) (entered : Nat → α → List Place) (index : Nat) :
    List α → List Place
  | [] => []
  | a :: rest => (entered index a).map (step index a :: ·) ++
      if (f index a).trail.halt.isSome then [] else enteredIn f step entered (index + 1) rest

end Walk

namespace Setting

variable (s : Setting)

mutual

/-- The places of the objects that a walk enters before it ends, in the order in which it comes to them. -/
def entered (path : Pointer) (e : Element) : Value → List Place
  | .object fields =>
    match e with
    | .object _ children =>
      [] :: if ((s.dropMeta path fields).andThen (s.reportMissing path children fields)).halt.isSome then []
        else enteredFields path children fields
    | _ => []
  | .array _ entries =>
    match e with
    | .array _ slots ordered allowNull =>
      if ordered = [] ∨ ordered.length = entries.length then
        match ArrayMode.ofContents slots ordered with
        | .any => []
        | .typed | .ordered => enteredEntries path slots ordered allowNull 0 entries
      else []
    | _ => []
  | _ => []

def enteredFields (path : Pointer) (children : List (String × Element)) : List (Key × Value) → List Place
  | [] => []
  | (key, v) :: rest =>
    match Element.governing? children key with
    | some child => (entered (path.push key.token) child v).map (.field key :: ·) ++
        if (s.walk (path.push key.token) child v).trail.halt.isSome then [] else enteredFields path children rest
    | none => enteredFields path children rest

def enteredEntries (path : Pointer) (slots : List (Kind × Element)) (ordered : List Element) (allowNull : Bool)
    (index : Nat) : List Value → List Place
  | [] => []
  | v :: rest =>
    match Element.entryDemand slots ordered allowNull index v with
    | .nothing => enteredEntries path slots ordered allowNull (index + 1) rest
    | .refused cause =>
      if (s.found (path.entry index) cause).halt.isSome then []
      else enteredEntries path slots ordered allowNull (index + 1) rest
    | .governed e => (entered (path.entry index) e v).map (.entry index :: ·) ++
        if (s.walk (path.entry index) e v).trail.halt.isSome then []
        else enteredEntries path slots ordered allowNull (index + 1) rest

end

def enteredField (path : Pointer) (children : List (String × Element)) (field : Key × Value) : List Place :=
  match Element.governing? children field.1 with
  | some child => s.entered (path.push field.1.token) child field.2
  | none => []

def enteredEntry (path : Pointer) (slots : List (Kind × Element)) (ordered : List Element) (allowNull : Bool) (index : Nat)
    (v : Value) : List Place :=
  match Element.entryDemand slots ordered allowNull index v with
  | .nothing | .refused _ => []
  | .governed e => s.entered (path.entry index) e v

/-- The places that the walk of an array's entries enters. -/
def enteredContents (path : Pointer) (slots : List (Kind × Element)) (ordered : List Element) (allowNull : Bool)
    (entries : List Value) : List Place :=
  match ArrayMode.ofContents slots ordered with
  | .any => []
  | .typed | .ordered => Walk.enteredIn (s.walkEntry path slots ordered allowNull) (fun index _ => .entry index)
      (s.enteredEntry path slots ordered allowNull) 0 entries

variable (path : Pointer)

theorem enteredFields_eq_enteredIn (children : List (String × Element)) :
    ∀ (index : Nat) (fields : List (Key × Value)), s.enteredFields path children fields =
      Walk.enteredIn (fun _ => s.walkField path children) (fun _ field => .field field.1)
        (fun _ => s.enteredField path children) index fields
  | _, [] => rfl
  | index, (key, v) :: rest => by
    rw [enteredFields, Walk.enteredIn, enteredFields_eq_enteredIn children (index + 1) rest, walkField, enteredField]
    cases Element.governing? children key <;> rfl

theorem enteredEntries_eq_enteredIn (slots : List (Kind × Element)) (ordered : List Element) (allowNull : Bool) :
    ∀ (index : Nat) (entries : List Value), s.enteredEntries path slots ordered allowNull index entries =
      Walk.enteredIn (s.walkEntry path slots ordered allowNull) (fun index _ => .entry index)
        (s.enteredEntry path slots ordered allowNull) index entries
  | _, [] => rfl
  | index, v :: rest => by
    rw [enteredEntries, Walk.enteredIn, enteredEntries_eq_enteredIn slots ordered allowNull (index + 1) rest, walkEntry,
      enteredEntry]
    cases Element.entryDemand slots ordered allowNull index v <;> rfl

theorem entered_object (traits : Traits) (children : List (String × Element)) (fields : List (Key × Value)) :
    s.entered path (.object traits children) (.object fields) =
      [] :: if ((s.dropMeta path fields).andThen (s.reportMissing path children fields)).halt.isSome then []
        else s.enteredFields path children fields := by
  rw [entered]

theorem entered_array (traits : Traits) (slots : List (Kind × Element)) {ordered : List Element} (allowNull : Bool)
    (shape : ArrayShape) {entries : List Value} (h : ordered = [] ∨ ordered.length = entries.length) :
    s.entered path (.array traits slots ordered allowNull) (.array shape entries) =
      s.enteredContents path slots ordered allowNull entries := by
  rw [entered, if_pos h, enteredContents]
  cases ArrayMode.ofContents slots ordered with
  | any => rfl
  | typed | ordered => exact s.enteredEntries_eq_enteredIn path slots ordered allowNull 0 entries

theorem entered_array_of_length_ne (traits : Traits) (slots : List (Kind × Element)) {ordered : List Element}
    (allowNull : Bool) (shape : ArrayShape) {entries : List Value}
    (h : ¬ (ordered = [] ∨ ordered.length = entries.length)) :
    s.entered path (.array traits slots ordered allowNull) (.array shape entries) = [] := by
  rw [entered, if_neg h]

theorem entered_of_not_accepts {e : Element} {v : Value} (h : e.accepts v = false) : s.entered path e v = [] := by
  cases v with
  | object fields =>
    cases e with
    | object => cases h
    | array | string | number | boolean => rfl
  | array shape entries =>
    cases e with
    | array => cases h
    | object | string | number | boolean => rfl
  | null | boolean | number | string | foreign => rfl

theorem entered_scalar (e : Element) {v : Value} (h : v.isScalar = true) : s.entered path e v = [] := by
  cases v with
  | null | array | object => cases h
  | boolean | number | string | foreign => rfl

end Setting
end ConfigSchema
