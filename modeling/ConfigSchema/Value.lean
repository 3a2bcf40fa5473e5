import ConfigSchema.Assoc
import ConfigSchema.Membership
import ConfigSchema.Number
/-!
# Value — a decoded document

A document is a tree of nulls, booleans, numbers, strings, arrays and objects.  Decoders other than the built-in reader may
also give fixed arrays, arrays that can be looked up by key, object keys that are not text, and values of foreign types;
all of these have a place here.  A value is of certain types (`Value.membership`), and these alone decide of what kind it is.
-/
namespace ConfigSchema

/-- The key of an object's field.  Only a name can be declared by a schema or mark a field as meta. -/
inductive Key where
  | name (text : String)
  | number (n : Number)
  | null
  deriving DecidableEq

/-- Whether two keys denote one field: names by text, numbers by value. -/
def Key.same : Key → Key → Bool
  | .name a, .name b => a == b
  | .number a, .number b => a.same b
  | .null, .null => true
  | _, _ => false

def Key.name? : Key → Option String
  | .name text => some text
  | .number _ | .null => none

def Key.token : Key → String
  | .name text => text
  | .number n => n.text .message
  | .null => "null"

/-- What sort of array a decoder gave; all of them are arrays to a schema. -/
inductive ArrayShape where
  | list
  | tuple
  /-- An array of a type whose values can be looked up by key as well. -/
  | keyed (type : String)
  deriving DecidableEq

/-- A value of a type that no schema can describe: whatever it is of, it has no kind.  What it prints, inside another value
and alone, is its own affair. -/
structure Foreign where
  type : String
  membership : Membership := {}
  refused : membership.tag? = none
  nested : String
  alone : String

/-- A value of a decoded document. -/
inductive Value where
  | null
  | boolean (b : Bool)
  | number (n : Number)
  | string (s : String)
  | array (shape : ArrayShape) (entries : List Value)
  | object (fields : List (Key × Value))
  | foreign (f : Foreign)

/-- A value with no kind, because its type is foreign to schemas. -/
structure ForeignType where
  type : String

namespace ForeignType

def message (f : ForeignType) : String := "Unsupported JSON value type: <class '" ++ f.type ++ "'>"

end ForeignType

namespace ArrayShape

def isKeyed : ArrayShape → Bool
  | .keyed _ => true
  | .list | .tuple => false

def typeName : ArrayShape → String
  | .list => "list"
  | .tuple => "tuple"
  | .keyed type => type

end ArrayShape

namespace Value

/-- The types that a value is of.  A boolean is a number too, and a text a sequence; no number or text is a mapping. -/
def membership : Value → Membership
  | .null => { null := true }
  | .boolean _ => { boolean := true, number := true }
  | .number _ => { number := true }
  | .string _ => { string := true, sequence := true }
  | .array shape _ => { sequence := true, mapping := shape.isKeyed }
  | .object _ => { mapping := true }
  | .foreign f => f.membership

def typeName : Value → String
  | .null => "NoneType"
  | .boolean _ => "bool"
  | .number (.whole _) => "int"
  | .number (.real _) => "float"
  | .string _ => "str"
  | .array shape _ => shape.typeName
  | .object _ => "dict"
  | .foreign f => f.type

/-- The kind of a value; null has none, and a value is refused whose type is foreign. -/
def kind? (v : Value) : Except ForeignType (Option Kind) :=
  match v.membership.tag? with
  | some tag => .ok tag
  | none => .error ⟨v.typeName⟩

/-- What messages call the kind of a value, also when it has none. -/
def kindName (v : Value) : String :=
  match v.kind? with
  | .ok none => "null"
  | .ok (some k) => k.label
  | .error f => f.type

def isOf (k : Kind) (v : Value) : Bool := v.membership.isOf k

@[simp] theorem kind?_foreign (f : Foreign) : (foreign f).kind? = .error ⟨f.type⟩ := by
  rw [kind?, membership, f.refused, typeName]

@[simp] theorem kindName_foreign (f : Foreign) : (foreign f).kindName = f.type := by
  rw [kindName, kind?_foreign]

@[simp] theorem isOf_foreign (k : Kind) (f : Foreign) : (foreign f).isOf k = false :=
  Membership.isOf_of_refused f.refused k

/-- An array is never an object, though it may be a mapping. -/
@[simp] theorem isOf_object_array (shape : ArrayShape) (entries : List Value) : (array shape entries).isOf .object = false :=
  Bool.and_false _

def isNull : Value → Bool
  | .null => true
  | _ => false

/-- The object with the given fields; a repeated key keeps its first place and takes its last value. -/
def ofFields (pairs : List (Key × Value)) : Value := .object (Assoc.ofPairs Key.same pairs)

end Value
end ConfigSchema
