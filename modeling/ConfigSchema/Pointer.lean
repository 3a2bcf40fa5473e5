/-!
# Pointer — where in a document a value stands

A pointer is a text of reference tokens, each led by a slash; the empty text points at the root.  In a token the tilde is
written `~0` and the slash `~1`, so that a slash always separates.
-/
namespace ConfigSchema

structure Pointer where
  text : String
  deriving DecidableEq

namespace Pointer

def root : Pointer := ⟨""⟩

/-- One character of a token, as it is written in a pointer. -/
def escape (c : Char) : List Char :=
  if c = '~' then ['~', '0'] else if c = '/' then ['~', '1'] else [c]

/-- The pointer to what a token names inside the value at `p`. -/
def push (p : Pointer) (token : String) : Pointer :=
  ⟨p.text ++ "/" ++ String.ofList (token.toList.flatMap escape)⟩

/-- The pointer to an entry of the array at `p`. -/
def entry (p : Pointer) (index : Nat) : Pointer := p.push (toString index)

/-- The pointer as messages show it: the root has no text of its own. -/
def shown (p : Pointer) : String := if p.text = "" then "<root>" else p.text

end Pointer
end ConfigSchema
