import Interchange.Datum
import Interchange.Event
import Interchange.Violation

/-!
# Serialized findings and events

Positions, locations, violations and events have a serialized form as structured data,
so that they can be stored and sent. For each type `toDatum` writes that form and
`ofDatum?` reads it.

Reading is strict about what a value needs and lenient about the rest: fields come in
any order, unknown fields are skipped, a value that may be missing may also be null, but
a field given twice or a value of the wrong type is refused. A record is read by the names
of its fields alone: a list of the values of its fields, without the names, is not read as
the record.
-/

namespace Interchange

namespace Datum

/-- The serialized form of a value that may be missing. -/
def ofOption {α : Type} (value : α → Datum) : Option α → Datum
  | none => .null
  | some a => value a

end Datum

/-! ### Positions and locations -/

namespace Position

/-- A position as a record of its two numbers. -/
def toDatum (p : Position) : Datum :=
  .record [("element", .natural p.element), ("component", .ofOption .natural p.component)]

/-- The position with a given serialized form. Its numbers are not checked. -/
def ofDatum? (d : Datum) : Option Position := do
  let fields ← d.record?
  let element ← Datum.field? fields "element" Datum.count?
  let component ← Datum.optionalField? fields "component" Datum.count?
  some ⟨element, component⟩

end Position

namespace Location

/-- A location as a record of its five parts. -/
def toDatum (l : Location) : Datum :=
  .record
    [("segment_index", .natural l.segmentIndex),
     ("segment_tag", .ofOption .text l.segmentTag),
     ("position", .ofOption Position.toDatum l.position),
     ("repetition", .ofOption .natural l.repetition),
     ("schema_path", .text l.schemaPath)]

/-- The location with a given serialized form. -/
def ofDatum? (d : Datum) : Option Location := do
  let fields ← d.record?
  let segmentIndex ← Datum.field? fields "segment_index" Datum.count?
  let segmentTag ← Datum.optionalField? fields "segment_tag" Datum.text?
  let position ← Datum.optionalField? fields "position" Position.ofDatum?
  let repetition ← Datum.optionalField? fields "repetition" Datum.count?
  let schemaPath ← Datum.field? fields "schema_path" Datum.text?
  some { segmentIndex, segmentTag, position, repetition, schemaPath }

end Location

/-! ### Violations -/

namespace Violation

namespace Kind

/-- A kind of violation as its code. -/
def toDatum (k : Kind) : Datum := .text k.code

/-- The kind of violation with a given serialized form. -/
def ofDatum? (d : Datum) : Option Kind := d.alternative?.bind ofCode?

end Kind

namespace Severity

/-- A severity as its name. -/
def toDatum (s : Severity) : Datum := .text s.name

/-- The severity with a given serialized form. -/
def ofDatum? (d : Datum) : Option Severity := d.alternative?.bind ofName?

end Severity

/-- A violation as a record of its five parts. -/
def toDatum (v : Violation) : Datum :=
  .record
    [("kind", v.kind.toDatum),
     ("severity", v.severity.toDatum),
     ("location", v.location.toDatum),
     ("value", .ofOption .text v.value),
     ("message", .text v.message)]

/-- The violation with a given serialized form. -/
def ofDatum? (d : Datum) : Option Violation := do
  let fields ← d.record?
  let kind ← Datum.field? fields "kind" Kind.ofDatum?
  let severity ← Datum.field? fields "severity" Severity.ofDatum?
  let location ← Datum.field? fields "location" Location.ofDatum?
  let value ← Datum.optionalField? fields "value" Datum.text?
  let message ← Datum.field? fields "message" Datum.text?
  some { kind, severity, location, value, message }

end Violation

/-! ### Events -/

namespace ElementValue

/-- A value as a record of its three parts. -/
def toDatum (v : ElementValue) : Datum :=
  .record
    [("position", v.position.toDatum),
     ("repetition", .natural v.repetition),
     ("value", .text v.value)]

/-- The value with a given serialized form. -/
def ofDatum? (d : Datum) : Option ElementValue := do
  let fields ← d.record?
  let position ← Datum.field? fields "position" Position.ofDatum?
  let repetition ← Datum.field? fields "repetition" Datum.count?
  let value ← Datum.field? fields "value" Datum.text?
  some { position, repetition, value }

end ElementValue

namespace Event

/-- The data of a composite's opening or closing. -/
def compositeToDatum (position : Position) (repetition : Nat) : Datum :=
  .record [("position", position.toDatum), ("repetition", .natural repetition)]

@[inherit_doc compositeToDatum]
def compositeOfDatum? (d : Datum) : Option (Position × Nat) := do
  let fields ← d.record?
  let position ← Datum.field? fields "position" Position.ofDatum?
  let repetition ← Datum.field? fields "repetition" Datum.count?
  some (position, repetition)

/-- An event with data is a record of one field, named for the kind of event; an event
without data is that name alone. -/
def toDatum : Event → Datum
  | interchangeStart version =>
      .record [("InterchangeStart", .record [("version", .ofOption .text version)])]
  | segmentStart tag => .record [("SegmentStart", .record [("tag", .text tag)])]
  | compositeStart position repetition =>
      .record [("CompositeStart", compositeToDatum position repetition)]
  | element value => .record [("Element", value.toDatum)]
  | compositeEnd position repetition =>
      .record [("CompositeEnd", compositeToDatum position repetition)]
  | segmentEnd => .text "SegmentEnd"
  | interchangeEnd => .text "InterchangeEnd"

/-- An event without data, by its name. -/
def ofName? : String → Option Event
  | "SegmentEnd" => some segmentEnd
  | "InterchangeEnd" => some interchangeEnd
  | _ => none

/-- An event with data, by its name. -/
def ofField? (name : String) (d : Datum) : Option Event :=
  match name with
  | "InterchangeStart" => do
      let fields ← d.record?
      some (interchangeStart (← Datum.optionalField? fields "version" Datum.text?))
  | "SegmentStart" => do
      let fields ← d.record?
      some (segmentStart (← Datum.field? fields "tag" Datum.text?))
  | "CompositeStart" => (compositeOfDatum? d).map fun (p, r) => compositeStart p r
  | "Element" => (ElementValue.ofDatum? d).map element
  | "CompositeEnd" => (compositeOfDatum? d).map fun (p, r) => compositeEnd p r
  | _ => none

/-- The event with a given serialized form. An event without data may also be a record that
gives null to its name. -/
def ofDatum? : Datum → Option Event
  | .record [(name, .null)] => ofName? name
  | .record [(name, d)] => ofField? name d
  | d => d.text?.bind ofName?

end Event

end Interchange
