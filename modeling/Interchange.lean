import Interchange.Catalog
import Interchange.Catalog.Files
import Interchange.Catalog.Registry
import Interchange.Config
import Interchange.Datum
import Interchange.Discriminator
import Interchange.Event
import Interchange.Format
import Interchange.Json.Parser
import Interchange.Json.Printer
import Interchange.Json.Token
import Interchange.Location
import Interchange.Position
import Interchange.Proofs.Absence
import Interchange.Proofs.Ambiguity
import Interchange.Proofs.Audit
import Interchange.Proofs.Binding
import Interchange.Proofs.Conformance
import Interchange.Proofs.Constraints
import Interchange.Proofs.Decisions
import Interchange.Proofs.Definitions
import Interchange.Proofs.Documents
import Interchange.Proofs.Expansion
import Interchange.Proofs.Frames
import Interchange.Proofs.Halting
import Interchange.Proofs.InPlace
import Interchange.Proofs.Invariant
import Interchange.Proofs.Kinds
import Interchange.Proofs.Language
import Interchange.Proofs.Ledger
import Interchange.Proofs.Loading
import Interchange.Proofs.Lockstep
import Interchange.Proofs.Matching
import Interchange.Proofs.Minimums
import Interchange.Proofs.Polymorphism
import Interchange.Proofs.Reading
import Interchange.Proofs.Recovery
import Interchange.Proofs.References
import Interchange.Proofs.Refusal
import Interchange.Proofs.Repetition
import Interchange.Proofs.Reports
import Interchange.Proofs.Run
import Interchange.Proofs.Selection
import Interchange.Proofs.Severities
import Interchange.Proofs.Stability
import Interchange.Proofs.SegmentText
import Interchange.Proofs.Serialization
import Interchange.Proofs.Stack
import Interchange.Proofs.Streaming
import Interchange.Proofs.Tags
import Interchange.Proofs.Verdict
import Interchange.Proofs.Versions
import Interchange.Proofs.Walk
import Interchange.Report
import Interchange.Schema
import Interchange.Schema.Audit
import Interchange.Schema.Description
import Interchange.Schema.Fault
import Interchange.Schema.Resolver
import Interchange.Schema.Source
import Interchange.Serial
import Interchange.SimpleType
import Interchange.Sorted
import Interchange.Structure
import Interchange.Text.LowerCase
import Interchange.Text.Property
import Interchange.Text.Quoted
import Interchange.Validator
import Interchange.Validator.Frame
import Interchange.Validator.OpenSegment
import Interchange.Value.Calendar
import Interchange.Value.Decimal
import Interchange.Value.Rule
import Interchange.Version
import Interchange.Violation
import Interchange.Yaml.Parser
import Interchange.Yaml.Scalar
import Interchange.Yaml.Token
import Interchange.Proofs.Numbers
import Interchange.Proofs.Dates
import Interchange.Proofs.Decimals
import Interchange.Proofs.Overrides
import Interchange.Proofs.Catalogs
import Interchange.Proofs.Locations
