import ConfigSchema.Value
/-!
# Options — how a run goes about its document

The options choose whether a run ends at its first violation, and which fields it takes out of the document: the meta
fields, whose names begin with a marker, and the unlisted fields, which no schema element declares.
-/
namespace ConfigSchema

/-- The options of a run. -/
structure Options where
  /-- End at the first violation. -/
  stopOnFirst : Bool := false
  /-- Take unlisted fields out of a document without violations. -/
  pruneUnlisted : Bool := false
  /-- Take meta fields out of every object that is reached. -/
  pruneMeta : Bool := true
  /-- The marker with which the names of meta fields begin. -/
  metaPrefix : String := "$"
  metaPrefix_ne_empty : metaPrefix ≠ "" := by decide

namespace Options

/-- An empty marker would make every field a meta field. -/
def emptyMarkerMessage : String := "meta_field_prefix must be a non-empty string"

/-- The options with the given choices, unless the marker is empty. -/
def make? (stopOnFirst pruneUnlisted pruneMeta : Bool) (metaPrefix : String) : Option Options :=
  if h : metaPrefix ≠ "" then some ⟨stopOnFirst, pruneUnlisted, pruneMeta, metaPrefix, h⟩ else none

/-- Whether a key marks its field as a meta field; only names can. -/
def isMeta (o : Options) : Key → Bool
  | .name text => o.metaPrefix.toList.isPrefixOf text.toList
  | .number _ | .null => false

/-- Whether a field leaves its object as soon as the object is reached. -/
def drops (o : Options) (key : Key) : Bool := o.pruneMeta && o.isMeta key

end Options
end ConfigSchema
