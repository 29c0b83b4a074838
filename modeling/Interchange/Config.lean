import Interchange.Format
import Interchange.Serial

/-!
# Configuration

A configuration says how grave each kind of violation is and when validation gives up. It
never changes what is found, with one exception: values are checked against their lists
of codes only when `validateCodeValues` is set.

* A kind that is `ignorable` gives warnings, whatever else is said about it.
* Otherwise a kind is fatal when it is listed as such, when the strictness makes it so,
  or when validation does not go on after errors.
* Every other kind gives errors, and `maxErrors` of them end validation; 0 lifts that.
-/

namespace Interchange

/-- How much of the structure a document has to get right for validation to go on. -/
inductive Strictness where
  /-- All of it. -/
  | strict
  /-- All its segments have to be known where they stand. -/
  | moderate
  /-- Nothing. -/
  | lenient
  deriving DecidableEq, Repr

namespace Strictness

/-- Every strictness. -/
def all : List Strictness := [.strict, .moderate, .lenient]

/-- The name of a strictness in configuration files. -/
def name : Strictness → String
  | strict => "strict"
  | moderate => "moderate"
  | lenient => "lenient"

/-- The strictness with a given name. -/
def ofName? (name : String) : Option Strictness := all.find? (·.name == name)

/-- The serialized form of a strictness. -/
def toDatum (s : Strictness) : Datum := .text s.name

/-- The strictness with a given serialized form. -/
def ofDatum? (d : Datum) : Option Strictness := d.alternative?.bind ofName?

/-- Whether a kind of violation is fatal by this strictness. -/
def isFatal (s : Strictness) (kind : Violation.Kind) : Bool :=
  match s with
  | strict => kind.isStructural
  | moderate => kind == .segmentNotInSchema
  | lenient => false

end Strictness

/-- How to judge violations. -/
structure Config where
  strictness : Strictness := .moderate
  /-- Whether validation goes on after an error. -/
  continueOnError : Bool := true
  /-- The number of errors that ends validation, 0 for no limit. -/
  maxErrors : Nat := 0
  /-- Kinds that are fatal in any case. -/
  fatal : List Violation.Kind := []
  /-- Kinds that are only worth a warning. -/
  ignorable : List Violation.Kind := []
  /-- Whether values are checked against lists of codes. -/
  validateCodeValues : Bool := true
  deriving DecidableEq, Repr

namespace Config

/-- The severity of violations of a kind. -/
def severityOf (c : Config) (kind : Violation.Kind) : Violation.Severity :=
  if kind ∈ c.ignorable then .warning
  else if kind ∈ c.fatal ∨ c.strictness.isFatal kind = true ∨ c.continueOnError = false then
    .fatal
  else .error

/-- The violation with the severity that its kind has. -/
def judge (c : Config) (v : Violation) : Violation := { v with severity := c.severityOf v.kind }

/-! ### Reading -/

/-- Every field of a configuration has a default. -/
def ofDatum? (d : Datum) : Option Config := do
  let fields ← d.record?
  let strictness ← Datum.fieldOr? fields "strictness" Strictness.ofDatum? .moderate
  let continueOnError ← Datum.fieldOr? fields "continue_on_error" Datum.bool? true
  let maxErrors ← Datum.fieldOr? fields "max_errors" Datum.count? 0
  let fatal ← Datum.fieldOr? fields "fatal" (Datum.listOf? Violation.Kind.ofDatum?) []
  let ignorable ← Datum.fieldOr? fields "ignorable" (Datum.listOf? Violation.Kind.ofDatum?) []
  let validateCodeValues ← Datum.fieldOr? fields "validate_code_values" Datum.bool? true
  some { strictness, continueOnError, maxErrors, fatal, ignorable, validateCodeValues }

/-- Why there is no configuration. -/
inductive Error where
  /-- The text is not of its notation, or not a configuration. -/
  | malformed (format : Format)
  deriving DecidableEq, Repr

/-- The wording of an error. -/
def Error.message : Error → String
  | malformed format => s!"Invalid configuration: {format.complaint}"

/-- The configuration that a text describes. -/
def ofText (format : Format) (text : String) : Except Error Config :=
  match (format.parse? text).bind ofDatum? with
  | some config => .ok config
  | none => .error (.malformed format)

end Config

end Interchange
