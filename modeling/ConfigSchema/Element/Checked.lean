import ConfigSchema.Element
import ConfigSchema.SchemaError
/-!
# Checked — elements that do not contradict themselves

An object's children stand under their own names, an array's slots hold elements of their own kinds, and an array has slots
or ordered elements but not both.  The functions here put an element together only if this holds of it; they look at the
element itself and take its parts for granted, which were checked when they were made.
-/
namespace ConfigSchema
namespace Element

/-- Whether each child that has a name stands under it. -/
def checkChildren : List (String × Element) → Except SchemaError Unit
  | [] => .ok ()
  | (key, child) :: rest =>
    match child.name? with
    | some name => if name = key then checkChildren rest else .error (.childName name key)
    | none => checkChildren rest

/-- The slots with the given labels, if every label is that of a kind and every element of the kind of its slot. -/
def readSlots : List (String × Element) → Except SchemaError (List (Kind × Element))
  | [] => .ok []
  | (label, element) :: rest =>
    match Kind.parse label with
    | .error u => .error (.unknownKind u)
    | .ok slot =>
      if element.kind = slot then (readSlots rest).map ((slot, element) :: ·)
      else .error (.slotElement slot element.kind)

def object? (traits : Traits) (children : List (String × Element)) : Except SchemaError Element :=
  (checkChildren children).map fun _ => .object traits children

def array? (traits : Traits) (slots : List (String × Element)) (ordered : List Element) (allowNull : Bool) :
    Except SchemaError Element :=
  match readSlots slots with
  | .error e => .error e
  | .ok read =>
    if !read.isEmpty && !ordered.isEmpty then .error .slotsAndOrdered
    else .ok (.array traits read ordered allowNull)

/-- The element again, if it does not contradict itself. -/
def checked : Element → Except SchemaError Element
  | .object traits children => object? traits children
  | .array traits slots ordered allowNull =>
    array? traits (slots.map fun slot => (slot.1.label, slot.2)) ordered allowNull
  | e => .ok e

end Element
end ConfigSchema
