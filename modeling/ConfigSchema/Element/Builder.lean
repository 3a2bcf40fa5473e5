import ConfigSchema.Element.Checked
/-!
# Builder — elements put together call by call

A builder starts without an element.  The choice of a kind gives it a bare one, and every later call changes it, after
checking that the call makes sense for what is there.  A call that is refused leaves the builder as it was.
-/
namespace ConfigSchema

/-- An element under construction. -/
structure Builder where
  current : Option Element := none

namespace Builder

inductive Call where
  | ofType (kind : Kind)
  | name (text : String)
  | nullable
  | optional
  | validators (more : List Validator)
  | defaultValue (default : Option Scalar)
  | minLength (bound : Option Number)
  | maxLength (bound : Option Number)
  | validValues (more : List String)
  | minValue (bound : Option Number)
  | maxValue (bound : Option Number)
  | children (more : List Element)
  /-- A slot of the kind with the given label; without an element it takes every value of the kind. -/
  | slot (label : String) (element : Option Element)
  | ordered (elements : List Element)
  | allowNullEntries

def choiceName (kind : Kind) : String := "of_type_" ++ kind.label

def slotName (kind : Kind) : String := "with_" ++ kind.label ++ "_array_elements"

def build (b : Builder) : Except SchemaError Element :=
  match b.current with
  | some e => .ok e
  | none => .error .undetermined

/-- The refusal of a call that is meant for another kind. -/
def meantFor (kind : Kind) (method : String) : SchemaError := .precedingCall (choiceName kind) method

def asString (b : Builder) (method : String) : Except SchemaError (Traits × StringRules) :=
  match b.current with
  | some (.string traits rules) => .ok (traits, rules)
  | _ => .error (meantFor .string method)

def asNumber (b : Builder) (method : String) : Except SchemaError (Traits × NumberRules) :=
  match b.current with
  | some (.number traits rules) => .ok (traits, rules)
  | _ => .error (meantFor .number method)

def asObject (b : Builder) (method : String) : Except SchemaError (Traits × List (String × Element)) :=
  match b.current with
  | some (.object traits children) => .ok (traits, children)
  | _ => .error (meantFor .object method)

structure ArrayParts where
  traits : Traits
  slots : List (Kind × Element)
  ordered : List Element
  allowNull : Bool

def ArrayParts.toElement (a : ArrayParts) : Element := .array a.traits a.slots a.ordered a.allowNull

def asArray (b : Builder) (method : String) : Except SchemaError ArrayParts :=
  match b.current with
  | some (.array traits slots ordered allowNull) => .ok ⟨traits, slots, ordered, allowNull⟩
  | _ => .error (meantFor .array method)

/-- Children put under their own names, in turn. -/
def putChildren : List (String × Element) → List Element → Except SchemaError (List (String × Element))
  | children, [] => .ok children
  | children, child :: rest =>
    match child.name? with
    | some name => putChildren (Assoc.put (· == ·) name child children) rest
    | none => .error (.unnamedChild child.kind)

def withDefault (default : Option Scalar) : Element → Except SchemaError Element
  | .string traits rules => .ok (.string traits { rules with default })
  | .number traits rules => .ok (.number traits { rules with default })
  | .boolean traits _ => .ok (.boolean traits default)
  | .object _ _ | .array _ _ _ _ => .error .notPrimitive

/-- The array element with a slot set.  The element has to be of the slot's kind, and the array must not expect ordered
elements. -/
def withSlot (parts : ArrayParts) (slot : Kind) (element : Option Element) : Except SchemaError Element :=
  let inSlot := element.getD (.bare slot)
  if inSlot.kind ≠ slot then .error (.slotMismatch slot.elementName)
  else if !parts.ordered.isEmpty then .error .orderedAlready
  else .ok { parts with slots := Assoc.put (· == ·) slot inSlot parts.slots }.toElement

/-- The element that a call makes of the current one, before it is checked as a whole. -/
def change (b : Builder) : Call → Except SchemaError Element
  | .ofType kind => if b.current.isSome then .error .alreadyDetermined else .ok (.bare kind)
  | .name text => b.build.map fun e => e.withTraits { e.traits with name := some text }
  | .nullable => b.build.map fun e => e.withTraits { e.traits with nullable := true }
  | .optional => b.build.map fun e => e.withTraits { e.traits with required := false }
  | .validators more => b.build.map fun e => e.withTraits { e.traits with validators := e.validators ++ more }
  | .defaultValue default => b.build.bind (withDefault default)
  | .minLength bound => (b.asString "with_min_length").map fun p => .string p.1 { p.2 with minLength := bound }
  | .maxLength bound => (b.asString "with_max_length").map fun p => .string p.1 { p.2 with maxLength := bound }
  | .validValues more => (b.asString "with_valid_string_values").map fun p =>
      .string p.1 { p.2 with validValues := p.2.validValues ++ more }
  | .minValue bound => (b.asNumber "with_min_value").map fun p => .number p.1 { p.2 with minValue := bound }
  | .maxValue bound => (b.asNumber "with_max_value").map fun p => .number p.1 { p.2 with maxValue := bound }
  | .children more => (b.asObject "with_child_elements").bind fun p => (putChildren p.2 more).map (.object p.1)
  | .slot label element =>
    match Kind.parse label with
    | .error u => .error (.unknownKind u)
    | .ok slot => (b.asArray (slotName slot)).bind fun parts => withSlot parts slot element
  | .ordered elements => (b.asArray "with_array_element_list").bind fun parts =>
      if !parts.slots.isEmpty then .error .slotsAlready else .ok { parts with ordered := elements }.toElement
  | .allowNullEntries => (b.asArray "with_allow_array_null_elements").map fun parts =>
      { parts with allowNull := true }.toElement

/-- The builder after a call, or the refusal of the call. -/
def apply (b : Builder) (call : Call) : Except SchemaError Builder :=
  ((b.change call).bind Element.checked).map fun e => ⟨some e⟩

/-- The builder after a call, whether refused or not. -/
def step (b : Builder) (call : Call) : Builder :=
  match b.apply call with
  | .ok b' => b'
  | .error _ => b

/-- The element that calls on a new builder give, unless one of them is refused. -/
def buildAll (calls : List Call) : Except SchemaError Element :=
  (calls.foldlM apply {}).bind build

end Builder
end ConfigSchema
