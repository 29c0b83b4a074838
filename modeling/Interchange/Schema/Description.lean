import Interchange.SimpleType

/-!
# Schema descriptions

A schema description is what a schema file says: lists of definitions of elements,
composites, segments and loops, which refer to each other by id, and the id of the root
loop. Nothing is resolved or checked here beyond the shape of the data.

`Description.ofDatum?` reads a description from structured data. Unknown fields are
skipped; a field given twice, a missing field without a default or a value of the wrong
type makes the whole description unreadable.
-/

namespace Interchange.Schema

namespace Description

/-- What an element definition changes for a range of versions. -/
structure Override where
  minVersion : Option String := none
  maxVersion : Option String := none
  minLength : Option Nat := none
  maxLength : Option Nat := none
  codes : Option CodeList := none
  deriving DecidableEq, Repr

/-- The definition of an element type. -/
structure Element where
  id : String
  kind : SimpleType.Kind
  scale : Option Nat := none
  minLength : Nat := 1
  maxLength : Nat := 35
  codes : CodeList := {}
  title : Option String := none
  overrides : List Override := []
  deriving DecidableEq, Repr

/-- The use of an element type in a composite. -/
structure ComponentUse where
  target : String
  minOccurs : Nat := 0
  deriving DecidableEq, Repr

/-- The definition of a composite. -/
structure Composite where
  id : String
  components : List ComponentUse
  deriving DecidableEq, Repr

/-- The use of an element type or composite in a segment. -/
structure ElementUse where
  target : String
  minOccurs : Nat := 0
  maxOccurs : Nat := 1
  deriving DecidableEq, Repr

/-- The position and the values that select an implementation. -/
structure Discriminator where
  element : Nat
  component : Option Nat := none
  values : List String
  deriving DecidableEq, Repr

/-- An implementation of a segment, which is another segment definition. -/
structure SegmentImplementation where
  id : String
  discriminator : Discriminator
  segment : String
  deriving DecidableEq, Repr

/-- The definition of a segment. -/
structure Segment where
  id : String
  /-- The tag, when it differs from the id. -/
  tag : Option String := none
  elements : List ElementUse := []
  implementations : List SegmentImplementation := []
  deriving DecidableEq, Repr

/-- How a maximum is given. -/
inductive Maximum where
  | count (max : Nat)
  | word (word : String)
  deriving DecidableEq, Repr

/-- The use of a segment or loop in a loop. -/
structure Child where
  target : String
  minOccurs : Nat := 0
  maxOccurs : Option Maximum := none
  deriving DecidableEq, Repr

/-- An implementation of a loop, with its own list of children. -/
structure LoopImplementation where
  id : String
  discriminator : Discriminator
  children : List Child
  deriving DecidableEq, Repr

/-- The definition of a loop. -/
structure Loop where
  id : String
  children : List Child
  implementations : List LoopImplementation := []
  deriving DecidableEq, Repr

end Description

/-- What a schema file says. -/
structure Description where
  name : String
  /-- Id of the loop of a whole interchange. -/
  root : String
  elements : List Description.Element := []
  composites : List Description.Composite := []
  segments : List Description.Segment := []
  loops : List Description.Loop := []
  deriving DecidableEq, Repr

/-! ### Reading -/

namespace Description

open Datum

/-- The largest scale of a decimal: 32 bits, all set. -/
def largestScale : Nat := 0xFFFFFFFF

/-- Codes with their labels; the last label given to a code counts. -/
def codes? (d : Datum) : Option CodeList := do
  let fields ← d.record?
  let entries ← fields.mapM fun (code, label) => label.text?.map (code, ·)
  some (CodeList.ofList entries)

/-- An override, from a record all of whose fields may be missing. -/
def Override.ofDatum? (d : Datum) : Option Override := do
  let fields ← d.record?
  let minVersion ← optionalField? fields "min_version" text?
  let maxVersion ← optionalField? fields "max_version" text?
  let minLength ← optionalField? fields "min_length" count?
  let maxLength ← optionalField? fields "max_length" count?
  let codes ← optionalField? fields "values" codes?
  some { minVersion, maxVersion, minLength, maxLength, codes }

/-- An element definition; only its id and its kind have to be given. -/
def Element.ofDatum? (d : Datum) : Option Element := do
  let fields ← d.record?
  let id ← field? fields "id" text?
  let kind ← field? fields "base" SimpleType.Kind.ofDatum?
  let scale ← optionalField? fields "scale" (natural? largestScale)
  let minLength ← fieldOr? fields "min_length" count? 1
  let maxLength ← fieldOr? fields "max_length" count? 35
  let codes ← fieldOr? fields "values" codes? {}
  let title ← optionalField? fields "title" text?
  let overrides ← fieldOr? fields "versions" (listOf? Override.ofDatum?) []
  some { id, kind, scale, minLength, maxLength, codes, title, overrides }

/-- A component of a composite definition. -/
def ComponentUse.ofDatum? (d : Datum) : Option ComponentUse := do
  let fields ← d.record?
  let target ← field? fields "ref" text?
  let minOccurs ← fieldOr? fields "min_occurs" count? 0
  some { target, minOccurs }

/-- A composite definition. -/
def Composite.ofDatum? (d : Datum) : Option Composite := do
  let fields ← d.record?
  let id ← field? fields "id" text?
  let components ← field? fields "components" (listOf? ComponentUse.ofDatum?)
  some { id, components }

/-- An element of a segment definition. -/
def ElementUse.ofDatum? (d : Datum) : Option ElementUse := do
  let fields ← d.record?
  let target ← field? fields "ref" text?
  let minOccurs ← fieldOr? fields "min_occurs" count? 0
  let maxOccurs ← fieldOr? fields "max_occurs" count? 1
  some { target, minOccurs, maxOccurs }

/-- The discriminator of an implementation. -/
def Discriminator.ofDatum? (d : Datum) : Option Discriminator := do
  let fields ← d.record?
  let element ← field? fields "element" count?
  let component ← optionalField? fields "component" count?
  let values ← field? fields "values" (listOf? text?)
  some { element, component, values }

/-- An implementation of a segment definition. -/
def SegmentImplementation.ofDatum? (d : Datum) : Option SegmentImplementation := do
  let fields ← d.record?
  let id ← field? fields "id" text?
  let discriminator ← field? fields "discriminator" Discriminator.ofDatum?
  let segment ← field? fields "segment" text?
  some { id, discriminator, segment }

/-- A segment definition; only its id has to be given. -/
def Segment.ofDatum? (d : Datum) : Option Segment := do
  let fields ← d.record?
  let id ← field? fields "id" text?
  let tag ← optionalField? fields "tag" text?
  let elements ← fieldOr? fields "elements" (listOf? ElementUse.ofDatum?) []
  let implementations ←
    fieldOr? fields "implementations" (listOf? SegmentImplementation.ofDatum?) []
  some { id, tag, elements, implementations }

/-- A maximum is a number or a word. -/
def Maximum.ofDatum? (d : Datum) : Option Maximum :=
  d.countOrWord?.map (Sum.elim count word)

/-- A child of a loop definition; one occurrence is the maximum where none is given. -/
def Child.ofDatum? (d : Datum) : Option Child := do
  let fields ← d.record?
  let target ← field? fields "ref" text?
  let minOccurs ← fieldOr? fields "min_occurs" count? 0
  let maxOccurs ← optionalField? fields "max_occurs" Maximum.ofDatum?
  some { target, minOccurs, maxOccurs }

/-- An implementation of a loop definition. -/
def LoopImplementation.ofDatum? (d : Datum) : Option LoopImplementation := do
  let fields ← d.record?
  let id ← field? fields "id" text?
  let discriminator ← field? fields "discriminator" Discriminator.ofDatum?
  let children ← field? fields "children" (listOf? Child.ofDatum?)
  some { id, discriminator, children }

/-- A loop definition. -/
def Loop.ofDatum? (d : Datum) : Option Loop := do
  let fields ← d.record?
  let id ← field? fields "id" text?
  let children ← field? fields "children" (listOf? Child.ofDatum?)
  let implementations ←
    fieldOr? fields "implementations" (listOf? LoopImplementation.ofDatum?) []
  some { id, children, implementations }

/-- A whole description; a kind of definition that is left out has no definitions. -/
def ofDatum? (d : Datum) : Option Description := do
  let fields ← d.record?
  let name ← field? fields "name" text?
  let root ← field? fields "root" text?
  let elements ← fieldOr? fields "elements" (listOf? Element.ofDatum?) []
  let composites ← fieldOr? fields "composites" (listOf? Composite.ofDatum?) []
  let segments ← fieldOr? fields "segments" (listOf? Segment.ofDatum?) []
  let loops ← fieldOr? fields "loops" (listOf? Loop.ofDatum?) []
  some { name, root, elements, composites, segments, loops }

end Description

end Interchange.Schema
