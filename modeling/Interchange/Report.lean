import Interchange.Json.Printer
import Interchange.Validator

/-!
# Reports

A report collects the violations of one document. Those that make the document invalid
are kept apart from the others, each group in the order in which they were found, and the
state of the validator at the end is added.

`Report.ofEvents` validates a whole stream and stops at a fatal violation.
-/

namespace Interchange

/-- The outcome of validating a document. -/
structure Report where
  /-- The violations that make the document invalid. -/
  errors : List Violation := []
  /-- The other violations. -/
  warnings : List Violation := []
  /-- How validation ended. -/
  state : Validator.State := .awaitingInterchange

namespace Report

/-- A document is valid when nothing makes it invalid. -/
def isValid (r : Report) : Bool := r.errors.isEmpty

/-- Whether there are warnings. -/
def hasWarnings (r : Report) : Bool := !r.warnings.isEmpty

/-- Whether a fatal violation ended validation. -/
def isHalted (r : Report) : Bool := r.state == .failed

/-- The report with one more violation. -/
def add (r : Report) (v : Violation) : Report :=
  if v.severity.isFailure then { r with errors := r.errors ++ [v] }
  else { r with warnings := r.warnings ++ [v] }

/-- The report with more violations. -/
def record (r : Report) (vs : List Violation) : Report := vs.foldl add r

/-- The report of a document at whose end the validator was in a state. -/
def finish (r : Report) (state : Validator.State) : Report := { r with state }

/-- Every violation, the errors first. -/
def violations (r : Report) : List Violation := r.errors ++ r.warnings

/-- How many violations there are of each kind that occurs, in the order of the kinds. -/
def countByKind (r : Report) : List (Violation.Kind × Nat) :=
  (Violation.Kind.all.map fun kind => (kind, r.violations.countP (·.kind == kind))).filter
    (0 < ·.2)

/-! ### Serialized form -/

/-- A report as data: the verdict, both groups of violations and the state. -/
def toDatum (r : Report) : Datum :=
  .record
    [("is_valid", .bool r.isValid),
     ("errors", .list (r.errors.map Violation.toDatum)),
     ("warnings", .list (r.warnings.map Violation.toDatum)),
     ("state", r.state.toDatum)]

/-- The report as an indented JSON text. -/
def toJson (r : Report) : String := Json.pretty r.toDatum

end Report

/-! ### Whole streams -/

namespace Validator

/-- Read events up to the end or up to the first that makes validation fail, recording
the violations. -/
def readAll (v : Validator) (report : Report) : List Event → Except Error (Validator × Report)
  | [] => .ok (v, report)
  | event :: rest => do
      let (v, found) ← v.handle event
      let report := report.record found
      if v.state = .failed then return (v, report)
      v.readAll report rest

end Validator

namespace Report

/-- The report on a whole stream. Events after a fatal violation are not read. -/
def ofEvents (schema : Schema) (config : Config) (events : List Event) :
    Except Validator.Error Report := do
  let (v, report) ← ({ schema, config } : Validator).readAll {} events
  return report.finish v.state

end Report

end Interchange
