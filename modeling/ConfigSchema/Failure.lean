import ConfigSchema.Value.Malformed
import ConfigSchema.Violation
/-!
# Failure — exceptions from outside

Decoders and validators are given from outside and may fail in ways of their own.  A failure is passed on as it is; a
violation among them is the failing part's own, and never counts as one that the run has found.
-/
namespace ConfigSchema

/-- What a decoder or a validator may fail with. -/
inductive Failure where
  | violation (v : Violation)
  | malformed (m : Malformed)
  | other (type message : String)

namespace Failure

def message : Failure → String
  | .violation v => v.message
  | .malformed m => m.message
  | .other _ message => message

end Failure
end ConfigSchema
