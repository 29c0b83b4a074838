import Interchange.Location

/-!
# Violations

What validation reports: a classified finding with a severity, a location, the
offending value when there is one, and a message for people. The kind decides what
the finding means; the severity is given by the configuration of the validator.
-/

namespace Interchange

namespace Violation

/-- What went wrong. -/
inductive Kind where
  /-- A tag that the schema defines, but not here. -/
  | unexpectedSegment
  /-- A tag that no open loop can take. -/
  | segmentNotInSchema
  /-- An occurrence of a loop beyond its maximum. -/
  | loopOccursTooManyTimes
  /-- An occurrence of a segment beyond its maximum. -/
  | segmentExceedsMaximumUse
  /-- A segment that did not occur often enough. -/
  | requiredSegmentMissing
  /-- A loop that did not occur often enough. -/
  | requiredLoopMissing
  /-- A required element or component without data. -/
  | requiredElementMissing
  /-- Data in an element that the segment does not declare. -/
  | tooManyDataElements
  /-- Data in a component that the element does not declare. -/
  | tooManyComponents
  /-- Data in a repetition beyond the element's maximum. -/
  | tooManyRepetitions
  /-- A value below its minimum length. -/
  | tooShort
  /-- A value above its maximum length. -/
  | tooLong
  /-- A value outside its list of codes. -/
  | invalidCodeValue
  /-- A value that is not of its lexical kind. -/
  | invalidDateOrTimeOrNumber
  /-- A discriminator value that selects no implementation. -/
  | unresolvedImplementation
  /-- A schema that would make matching ambiguous. -/
  | ambiguousSchemaDefinition
  deriving DecidableEq, Repr

namespace Kind

/-- Every kind, in the order in which they are declared. -/
def all : List Kind :=
  [.unexpectedSegment, .segmentNotInSchema, .loopOccursTooManyTimes,
   .segmentExceedsMaximumUse, .requiredSegmentMissing, .requiredLoopMissing,
   .requiredElementMissing, .tooManyDataElements, .tooManyComponents, .tooManyRepetitions,
   .tooShort, .tooLong, .invalidCodeValue, .invalidDateOrTimeOrNumber,
   .unresolvedImplementation, .ambiguousSchemaDefinition]

theorem mem_all (k : Kind) : k ∈ all := by cases k <;> decide

/-- The stable code of a kind, which is also its serialized form. -/
def code : Kind → String
  | unexpectedSegment => "UNEXPECTED_SEGMENT"
  | segmentNotInSchema => "SEGMENT_NOT_IN_SCHEMA"
  | loopOccursTooManyTimes => "LOOP_OCCURS_TOO_MANY_TIMES"
  | segmentExceedsMaximumUse => "SEGMENT_EXCEEDS_MAXIMUM_USE"
  | requiredSegmentMissing => "REQUIRED_SEGMENT_MISSING"
  | requiredLoopMissing => "REQUIRED_LOOP_MISSING"
  | requiredElementMissing => "REQUIRED_ELEMENT_MISSING"
  | tooManyDataElements => "TOO_MANY_DATA_ELEMENTS"
  | tooManyComponents => "TOO_MANY_COMPONENTS"
  | tooManyRepetitions => "TOO_MANY_REPETITIONS"
  | tooShort => "TOO_SHORT"
  | tooLong => "TOO_LONG"
  | invalidCodeValue => "INVALID_CODE_VALUE"
  | invalidDateOrTimeOrNumber => "INVALID_DATE_OR_TIME_OR_NUMBER"
  | unresolvedImplementation => "UNRESOLVED_IMPLEMENTATION"
  | ambiguousSchemaDefinition => "AMBIGUOUS_SCHEMA_DEFINITION"

/-- The kind with a given code. -/
def ofCode? (code : String) : Option Kind := all.find? (·.code == code)

/-- The kinds that concern the order and number of segments and loops, together with a
loop or segment whose implementation cannot be told. -/
def isStructural : Kind → Bool
  | unexpectedSegment | segmentNotInSchema | loopOccursTooManyTimes
  | segmentExceedsMaximumUse | requiredSegmentMissing | requiredLoopMissing
  | unresolvedImplementation => true
  | _ => false

end Kind

/-- How grave a violation is. -/
inductive Severity where
  | info
  | warning
  | error
  | fatal
  deriving DecidableEq, Repr

namespace Severity

/-- Every severity, from the mildest. -/
def all : List Severity := [.info, .warning, .error, .fatal]

/-- The name of a severity, which is also its serialized form. -/
def name : Severity → String
  | info => "Info"
  | warning => "Warning"
  | error => "Error"
  | fatal => "Fatal"

/-- The severity with a given name. -/
def ofName? (name : String) : Option Severity := all.find? (·.name == name)

/-- Whether a finding of this severity makes a document invalid. -/
def isFailure : Severity → Bool
  | info | warning => false
  | error | fatal => true

end Severity

end Violation

/-- One finding. -/
structure Violation where
  kind : Violation.Kind
  /-- An error, unless the configuration says otherwise. -/
  severity : Violation.Severity := .error
  location : Location
  /-- The offending value, for findings about data. -/
  value : Option String := none
  message : String
  deriving DecidableEq, Repr

namespace Violation

/-- A fatal violation ends validation. -/
def isFatal (v : Violation) : Bool := v.severity == .fatal

/-- How a violation is written in a log. -/
def text (v : Violation) : String :=
  let subject :=
    match v.value with
    | some value => s!" (value '{value}')"
    | none => ""
  s!"[{v.kind.code}] {v.location.text}: {v.message}" ++ subject

end Violation

end Interchange
