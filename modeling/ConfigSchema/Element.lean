import ConfigSchema.Value
/-!
# Element — what a schema asks of a value

A schema is a tree of elements.  Each element is of one of the five kinds; it may have a name, may be optional or nullable
as the field of an object, and may carry validators that run once all else is in order.  Objects declare children by
name; arrays take entries of any kind, of the kinds that have a slot, or exactly as listed.
-/
namespace ConfigSchema

/-- A custom check of values, known by its `id` and shown as `label`.  What it decides is left to the judge of a run. -/
structure Validator where
  id : String
  label : String
  deriving DecidableEq

/-- A default value.  It is kept for readers of the schema and plays no part in a run. -/
inductive Scalar where
  | string (s : String)
  | number (n : Number)
  | boolean (b : Bool)
  deriving DecidableEq

/-- What every element has, whatever its kind. -/
structure Traits where
  name : Option String := none
  /-- Whether an object without this child is at fault. -/
  required : Bool := true
  /-- Whether an object may hold null for this child. -/
  nullable : Bool := false
  /-- The validators, in the order in which they run. -/
  validators : List Validator := []

/-- What a string has to satisfy.  Listed values take the place of the bounds on the length. -/
structure StringRules where
  minLength : Option Number := none
  maxLength : Option Number := none
  validValues : List String := []
  default : Option Scalar := none

/-- What a number has to satisfy; both bounds are inclusive. -/
structure NumberRules where
  minValue : Option Number := none
  maxValue : Option Number := none
  default : Option Scalar := none

inductive Element where
  | object (traits : Traits) (children : List (String × Element))
  | array (traits : Traits) (slots : List (Kind × Element)) (ordered : List Element) (allowNull : Bool)
  | string (traits : Traits) (rules : StringRules)
  | number (traits : Traits) (rules : NumberRules)
  | boolean (traits : Traits) (default : Option Scalar)

/-- How an array element goes about entries. -/
inductive ArrayMode where
  /-- Entries of any kind. -/
  | any
  /-- Entries of the kinds that have a slot. -/
  | typed
  /-- As many entries as there are ordered elements, each as its element asks. -/
  | ordered
  deriving DecidableEq

namespace ArrayMode

def all : List ArrayMode := [.any, .typed, .ordered]

def label : ArrayMode → String
  | .any => "any"
  | .typed => "typed"
  | .ordered => "ordered"

def ofLabel? (text : String) : Option ArrayMode := all.find? (·.label == text)

/-- The mode follows from what an array element holds: ordered elements first, slots second. -/
def ofContents (slots : List (Kind × Element)) (ordered : List Element) : ArrayMode :=
  if !ordered.isEmpty then .ordered else if !slots.isEmpty then .typed else .any

end ArrayMode

namespace Element

def kind : Element → Kind
  | .object _ _ => .object
  | .array _ _ _ _ => .array
  | .string _ _ => .string
  | .number _ _ => .number
  | .boolean _ _ => .boolean

def traits : Element → Traits
  | .object traits _ => traits
  | .array traits _ _ _ => traits
  | .string traits _ => traits
  | .number traits _ => traits
  | .boolean traits _ => traits

def withTraits (traits : Traits) : Element → Element
  | .object _ children => .object traits children
  | .array _ slots ordered allowNull => .array traits slots ordered allowNull
  | .string _ rules => .string traits rules
  | .number _ rules => .number traits rules
  | .boolean _ default => .boolean traits default

def name? (e : Element) : Option String := e.traits.name

def validators (e : Element) : List Validator := e.traits.validators

/-- The element of a kind that asks for nothing but the kind. -/
def bare : Kind → Element
  | .object => .object {} []
  | .array => .array {} [] [] false
  | .string => .string {} {}
  | .number => .number {} {}
  | .boolean => .boolean {} none

def child? (children : List (String × Element)) (name : String) : Option Element :=
  Assoc.find? (· == name) children

/-- The child that governs a field; a key that is not a name is never declared. -/
def governing? (children : List (String × Element)) : Key → Option Element
  | .name text => child? children text
  | .number _ | .null => none

/-- The names of the children that an object must hold, in the order of declaration. -/
def requiredNames (children : List (String × Element)) : List String :=
  (children.filter (·.2.traits.required)).map (·.1)

/-- The slot for entries whose kind has the given label. -/
def slot? (slots : List (Kind × Element)) (label : String) : Option Element :=
  (Kind.ofLabel? label).bind fun k => Assoc.find? (· == k) slots

/-- The element that governs a non-null entry of an array: the one at its position, or the one in the slot of its kind. -/
def entry? (slots : List (Kind × Element)) (ordered : List Element) (index : Nat) (v : Value) : Option Element :=
  match ArrayMode.ofContents slots ordered with
  | .any => none
  | .typed => slot? slots v.kindName
  | .ordered => ordered[index]?

def accepts (e : Element) (v : Value) : Bool := v.isOf e.kind

@[simp] theorem accepts_foreign (e : Element) (f : Foreign) : e.accepts (.foreign f) = false := Value.isOf_foreign e.kind f

@[simp] theorem object_accepts_array (traits : Traits) (children : List (String × Element)) (shape : ArrayShape)
    (entries : List Value) : (object traits children).accepts (.array shape entries) = false :=
  Value.isOf_object_array shape entries

end Element
end ConfigSchema
