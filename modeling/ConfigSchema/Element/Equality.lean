import ConfigSchema.Element
/-!
# Equality — when two elements ask for the same

Two elements are the same if they are of one kind and agree in every field.  Children and slots are compared without regard
to order, validators by identity, and numbers by value, where true counts as one and false as zero.
-/
namespace ConfigSchema

/-- The number that a scalar counts as. -/
def Scalar.toNumber? : Scalar → Option Number
  | .string _ => none
  | .number n => some n
  | .boolean b => some (.whole (if b then 1 else 0))

def Scalar.same (a b : Scalar) : Bool :=
  match a, b with
  | .string s, .string t => s == t
  | a, b =>
    match a.toNumber?, b.toNumber? with
    | some m, some n => m.same n
    | _, _ => false

/-- Whether two optional settings are both absent or both present and the same. -/
def sameOption {α : Type} (same : α → α → Bool) : Option α → Option α → Bool
  | none, none => true
  | some a, some b => same a b
  | _, _ => false

def Traits.same (a b : Traits) : Bool :=
  a.name == b.name && a.required == b.required && a.nullable == b.nullable &&
    a.validators.map (·.id) == b.validators.map (·.id)

def StringRules.same (a b : StringRules) : Bool :=
  sameOption Number.same a.minLength b.minLength && sameOption Number.same a.maxLength b.maxLength &&
    a.validValues == b.validValues && sameOption Scalar.same a.default b.default

def NumberRules.same (a b : NumberRules) : Bool :=
  sameOption Number.same a.minValue b.minValue && sameOption Number.same a.maxValue b.maxValue &&
    sameOption Scalar.same a.default b.default

namespace Element

mutual

/-- Whether two elements ask for the same. -/
def same : Element → Element → Bool
  | .object t children, .object t' children' =>
    t.same t' && children.length == children'.length && childrenIn children children'
  | .array t slots ordered allowNull, .array t' slots' ordered' allowNull' =>
    t.same t' && slots.length == slots'.length && slotsIn slots slots' && sameEach ordered ordered' &&
      allowNull == allowNull'
  | .string t rules, .string t' rules' => t.same t' && rules.same rules'
  | .number t rules, .number t' rules' => t.same t' && rules.same rules'
  | .boolean t default, .boolean t' default' => t.same t' && sameOption Scalar.same default default'
  | _, _ => false

/-- Whether each child has one that is the same under its key in other children. -/
def childrenIn : List (String × Element) → List (String × Element) → Bool
  | [], _ => true
  | (key, child) :: rest, others =>
    (match child? others key with
      | some other => child.same other
      | none => false) && childrenIn rest others

/-- Whether each slot has one that is the same in other slots. -/
def slotsIn : List (Kind × Element) → List (Kind × Element) → Bool
  | [], _ => true
  | (slot, element) :: rest, others =>
    (match Assoc.find? (· == slot) others with
      | some other => element.same other
      | none => false) && slotsIn rest others

def sameEach : List Element → List Element → Bool
  | [], [] => true
  | e :: rest, e' :: rest' => e.same e' && sameEach rest rest'
  | _, _ => false

end

end Element
end ConfigSchema
