import ConfigSchema.Validation.Run
/-!
# Engine — runs one after the other

An engine validates any number of documents against one root.  Each run starts afresh; the engine keeps the violations of
the latest one.
-/
namespace ConfigSchema

/-- What validates documents against one root. -/
structure Engine where
  root : Element
  setting : Setting
  violations : List Violation := []

/-- Validates a document; the run says what it left of it. -/
def Engine.run (e : Engine) (document : Value) : Run × Engine :=
  let run := e.setting.run e.root document
  (run, { e with violations := run.violations })

end ConfigSchema
