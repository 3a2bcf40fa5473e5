import ConfigSchema.Report
/-!
# Once — documents taken in one at a time

Most callers have one document and one schema, and no use for the errors of an earlier call.  The functions here take in a
document by a loader of its own, with the decoder of plain documents.
-/
namespace ConfigSchema
namespace Element

/-- A loader for this schema that has not been used. -/
def loader (root : Element) (s : Setting) : Loader := { root, setting := s }

def parse (root : Element) (s : Setting) (text : String) : Loader.Call Value := (root.loader s).parse text

def validate (root : Element) (s : Setting) (document : Value) : Loader.Call Value := (root.loader s).validate document

def check (root : Element) (s : Setting) (document : Value) : Loader.Call Result := (root.loader s).check document

def isValid (root : Element) (s : Setting) (document : Value) : Loader.Call Bool := (root.loader s).isValid document

def assertValid (root : Element) (s : Setting) (document : Value) : Except AssertionRaised Value × Loader.Call Result :=
  (root.loader s).assertValid document

end Element
end ConfigSchema
