import ConfigSchema.Validation.Judge
/-!
# Traversal — a document walked along its schema

A value is walked depth first under the element that governs it.  An object loses its meta fields first, declared ones
too; then the missing children are reported, in the order of declaration, and then the declared fields are walked in the
order of the document, a meta field with the value that it had.  The validators of an object or array come last and only
if nothing was wrong inside; they see the value without meta fields.  Only after them are the unlisted fields noted.
-/
namespace ConfigSchema
namespace Setting

variable (s : Setting)

def dropMeta (path : Pointer) (fields : List (Key × Value)) : Trail :=
  let count := (fields.filter (s.options.drops ·.1)).length
  if count = 0 then .empty else .event (.metaPruned count path)

def reportMissing (path : Pointer) (children : List (String × Element)) (fields : List (Key × Value)) : Trail :=
  .sequence ((Element.missingNames children fields).map fun name => s.found (path.push name) (.missingField name))

/-- The keys of the fields that are neither declared nor meta. -/
def unlistedKeys (children : List (String × Element)) (fields : List (Key × Value)) : List Key :=
  (fields.map (·.1)).filter fun key => (Element.governing? children key).isNone && !s.options.isMeta key

/-- The unlisted fields of an object are noted, if the options want them out. -/
def noteUnlisted (children : List (String × Element)) (fields : List (Key × Value)) : Trail :=
  let keys := s.unlistedKeys children fields
  if s.options.pruneUnlisted && !keys.isEmpty then .note ⟨[], keys⟩ else .empty

/-- An object, given the walk of its fields.  What that walk leaves of a meta field is dropped with the field. -/
def walkObject (path : Pointer) (e : Element) (children : List (String × Element)) (fields : List (Key × Value))
    (inside : Walk (List (Key × Value))) : Walk Value :=
  let opening := (s.dropMeta path fields).andThen (s.reportMissing path children fields)
  let walked := inside.after opening fields
  let left := Value.object (walked.left.filter fun field => !s.options.drops field.1)
  ⟨left, (walked.trail.andIfClean (s.askAll path e left)).andThen (s.noteUnlisted children fields)⟩

/-- An array, given the walk of its entries. -/
def walkArray (path : Pointer) (e : Element) (shape : ArrayShape) (inside : Walk (List Value)) : Walk Value :=
  let left := Value.array shape inside.left
  ⟨left, inside.trail.andIfClean (s.askAll path e left)⟩

/-- The entries of an array that takes any: only nulls can be wrong, and however many they are, they count once. -/
def anyEntries (path : Pointer) (allowNull : Bool) (entries : List Value) : Walk (List Value) :=
  ⟨entries, if !allowNull && entries.any (·.isNull) then s.found path .nullEntry else .empty⟩

mutual

/-- Walks a value under the element that governs it. -/
def walk (path : Pointer) (e : Element) : Value → Walk Value
  | .null => ⟨.null, s.nullField path e⟩
  | .object fields =>
    match e with
    | .object _ children => s.walkObject path e children fields (walkFields path children fields)
    | _ => ⟨.object fields, s.wrongKind path e (.object fields)⟩
  | .array shape entries =>
    match e with
    | .array _ slots ordered allowNull =>
      match ArrayMode.ofContents slots ordered with
      | .any => s.walkArray path e shape (s.anyEntries path allowNull entries)
      | .typed => s.walkArray path e shape (walkEntries path slots ordered allowNull 0 entries)
      | .ordered =>
        if ordered.length = entries.length then
          s.walkArray path e shape (walkEntries path slots ordered allowNull 0 entries)
        else
          ⟨.array shape entries, s.found path (.arrayContents (.wrongLength entries.length ordered.length))⟩
    | _ => ⟨.array shape entries, s.wrongKind path e (.array shape entries)⟩
  | .boolean b => ⟨.boolean b, s.checkPrimitive path e (.boolean b)⟩
  | .number n => ⟨.number n, s.checkPrimitive path e (.number n)⟩
  | .string text => ⟨.string text, s.checkPrimitive path e (.string text)⟩
  | .foreign f => ⟨.foreign f, s.checkPrimitive path e (.foreign f)⟩

/-- Walks the declared fields of an object in order; the others stay as they are. -/
def walkFields (path : Pointer) (children : List (String × Element)) :
    List (Key × Value) → Walk (List (Key × Value))
  | [] => ⟨[], .empty⟩
  | (key, v) :: rest =>
    match Element.governing? children key with
    | some child =>
      .cons (((walk (path.push key.token) child v).map (key, ·)).under (.field key)) rest
        (walkFields path children rest)
    | none => (walkFields path children rest).map ((key, v) :: ·)

/-- Walks the entries of an array from the one at `index` on, each as its element asks. -/
def walkEntries (path : Pointer) (slots : List (Kind × Element)) (ordered : List Element) (allowNull : Bool)
    (index : Nat) : List Value → Walk (List Value)
  | [] => ⟨[], .empty⟩
  | v :: rest =>
    let head : Walk Value :=
      match Element.entryDemand slots ordered allowNull index v with
      | .nothing => ⟨v, .empty⟩
      | .refused cause => ⟨v, s.found (path.entry index) cause⟩
      | .governed e => (walk (path.entry index) e v).under (.entry index)
    head.cons rest (walkEntries path slots ordered allowNull (index + 1) rest)

end

end Setting
end ConfigSchema
