import ConfigSchema.Assoc
import ConfigSchema.Element
import ConfigSchema.Element.Builder
import ConfigSchema.Element.Checked
import ConfigSchema.Element.Equality
import ConfigSchema.Element.Rules
import ConfigSchema.ErrorClass
import ConfigSchema.Failure
import ConfigSchema.Kind
import ConfigSchema.Loader
import ConfigSchema.Membership
import ConfigSchema.Number
import ConfigSchema.Number.Binary
import ConfigSchema.Number.Layout
import ConfigSchema.Number.Shortest
import ConfigSchema.Once
import ConfigSchema.Options
import ConfigSchema.Pointer
import ConfigSchema.Report
import ConfigSchema.SchemaError
import ConfigSchema.Text.Printable
import ConfigSchema.Text.Quoted
import ConfigSchema.Validation.Engine
import ConfigSchema.Validation.Event
import ConfigSchema.Validation.Judge
import ConfigSchema.Validation.Removal
import ConfigSchema.Validation.Run
import ConfigSchema.Validation.Traversal
import ConfigSchema.Validation.Walk
import ConfigSchema.Value
import ConfigSchema.Value.Content
import ConfigSchema.Value.Display
import ConfigSchema.Value.Malformed
import ConfigSchema.Value.Reader
import ConfigSchema.Value.Writer
import ConfigSchema.Violation
import ConfigSchema.Proofs.ExactOrder
import ConfigSchema.Proofs.Descent
import ConfigSchema.Proofs.Removals
import ConfigSchema.Proofs.Runs
import ConfigSchema.Proofs.Pruning
import ConfigSchema.Proofs.Notes
import ConfigSchema.Proofs.Sorts
import ConfigSchema.Proofs.Conformance
import ConfigSchema.Proofs.FirstViolation
import ConfigSchema.Proofs.Calls
import ConfigSchema.Proofs.Tokens
import ConfigSchema.Proofs.Governed
import ConfigSchema.Proofs.Findings
import ConfigSchema.Proofs.Offences
import ConfigSchema.Proofs.Declared
import ConfigSchema.Proofs.Branches
import ConfigSchema.Proofs.Collected
import ConfigSchema.Proofs.Ledger
import ConfigSchema.Proofs.Locality
import ConfigSchema.Proofs.Entrances
import ConfigSchema.Proofs.Interrupted
import ConfigSchema.Proofs.Constructible
import ConfigSchema.Proofs.Settled
import ConfigSchema.Proofs.Endings
import ConfigSchema.Proofs.Answers
import ConfigSchema.Proofs.Failures
import ConfigSchema.Proofs.Visits
import ConfigSchema.Proofs.Judgements
import ConfigSchema.Proofs.Bounds
import ConfigSchema.Proofs.Diagnosis
import ConfigSchema.Proofs.Undeclared
import ConfigSchema.Proofs.Shuffled
import ConfigSchema.Proofs.Sameness
import ConfigSchema.Proofs.Reordered
import ConfigSchema.Proofs.Interchange
import ConfigSchema.Proofs.Relaxed
import ConfigSchema.Proofs.Consistent
import ConfigSchema.Proofs.Assembled
import ConfigSchema.Proofs.Desk
import ConfigSchema.Proofs.Session
import ConfigSchema.Proofs.Tuples
import ConfigSchema.Proofs.Entries
import ConfigSchema.Proofs.Dispatch
import ConfigSchema.Proofs.Inert
import ConfigSchema.Proofs.Remains
import ConfigSchema.Proofs.InPlace
import ConfigSchema.Proofs.Scheduled
import ConfigSchema.Proofs.Regions
import ConfigSchema.Proofs.Seen
import ConfigSchema.Proofs.Mirrored
import ConfigSchema.Proofs.Faultless
import ConfigSchema.Proofs.Addresses
import ConfigSchema.Proofs.Tallies
import ConfigSchema.Proofs.Remarks
import ConfigSchema.Proofs.Story
import ConfigSchema.Proofs.Lines
import ConfigSchema.Proofs.Reports
