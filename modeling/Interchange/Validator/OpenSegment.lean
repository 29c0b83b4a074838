import Interchange.Schema
import Interchange.Value.Rule

/-!
# The segment being read

While a segment is open its values arrive one by one. They are kept, because a
discriminator may be decided only by a later value, and they are checked as soon as the
definition of the segment is settled. Each value is checked once, in order of arrival.

A segment without a definition is skipped: its values are kept and never checked.
-/

namespace Interchange.Validator

/-- What an undecided discriminator decides. -/
inductive Undecided where
  /-- The implementation of the innermost loop, which the segment has opened. -/
  | loop
  /-- The implementation of the segment itself. -/
  | segment
  deriving DecidableEq, Repr

/-- The segment being read. -/
structure OpenSegment where
  /-- The number of the segment in the stream, from 1. -/
  index : Nat
  tag : String
  /-- The path of its definition. -/
  path : String
  /-- Its definition; a segment without one is skipped. -/
  definition : Option Segment
  /-- What its discriminator has not decided yet. -/
  undecided : Option Undecided := none
  /-- The values read, the last one first. -/
  read : List ElementValue := []
  /-- Those of them that have not been checked, the last one first. -/
  unchecked : List ElementValue := []
  /-- The elements, by number and repetition, that were reported as a whole. -/
  flagged : List (Nat × Nat) := []

namespace OpenSegment

/-- The location of the segment as a whole. -/
def location (s : OpenSegment) : Location := Location.ofSegment s.index s.tag s.path

/-- The values read, in order. -/
def values (s : OpenSegment) : List ElementValue := s.read.reverse

/-- The segment with one more value. -/
def push (s : OpenSegment) (value : ElementValue) : OpenSegment :=
  { s with read := value :: s.read, unchecked := value :: s.unchecked }

@[simp] theorem values_push (s : OpenSegment) (value : ElementValue) :
    (s.push value).values = s.values ++ [value] := by
  simp [values, push]

/-! ### Selecting an implementation -/

/-- The report that the values select none of the implementations of `owner`. The first
implementation says where the value should have been. -/
def unresolved {β : Type} (s : OpenSegment) (implementations : List (Implementation β))
    (owner : String) : Violation :=
  let discriminator := implementations.head?.map (·.discriminator)
  let value := (discriminator.bind (·.valueIn? s.values true)).getD ""
  { kind := .unresolvedImplementation
    location :=
      match discriminator with
      | some d => s.location.narrow d.position 0
      | none => s.location
    value := some value
    message := s!"no implementation of {owner} matches '{value}'" }

/-- The segment after selecting among its own implementations, `none` while the value
that decides has not come. -/
def resolve? (s : OpenSegment) (complete : Bool) : Option (OpenSegment × List Violation) :=
  match s.definition with
  | none => some (s, [])
  | some definition =>
      match Implementation.select definition.implementations s.values complete with
      | .unresolved => none
      | .resolved index =>
          match definition.implementations[index]? with
          | some i =>
              some ({ s with path := s.path ++ "[" ++ i.id ++ "]", definition := some i.body }, [])
          | none => some (s, [])
      | .noMatch => some (s, [s.unresolved definition.implementations s.path])

/-! ### Checking values -/

/-- The violations of one value, and the elements reported as a whole after it. An element
that is not declared, or that repeats too often, is reported once for each repetition and
not for each of its components. -/
def checkValue (definition : Segment) (version : Option String) (checkCodes : Bool)
    (location : Location) (flagged : List (Nat × Nat)) (v : ElementValue) :
    List Violation × List (Nat × Nat) :=
  let report (kind : Violation.Kind) (message : String) : Violation :=
    { kind, location := location.narrow v.position v.repetition, value := some v.value, message }
  let slot := (v.position.element, v.repetition)
  let reportWhole (kind : Violation.Kind) (message : String) :
      List Violation × List (Nat × Nat) :=
    if slot ∈ flagged then ([], flagged) else ([report kind message], slot :: flagged)
  if v.isEmpty then ([], flagged)
  else
    match definition.element? v.position.element with
    | none =>
        reportWhole .tooManyDataElements
          s!"{definition.tag} declares {definition.elements.length} element(s)"
    | some element =>
        if element.maxOccurs ≤ v.repetition then
          reportWhole .tooManyRepetitions
            s!"{element.id} repeats at most {element.maxOccurs} time(s)"
        else
          match definition.lookup v.position with
          | .simple type =>
              ((Value.check type version checkCodes v.value).map fun failure =>
                report failure.kind (failure.message type.id v.value), flagged)
          | .noSuchComponent =>
              ([report .tooManyComponents s!"{element.id} has no component {v.position.text}"],
                flagged)
          | .noSuchElement => ([], flagged)

/-- The violations of several values in order. -/
def checkValues (definition : Segment) (version : Option String) (checkCodes : Bool)
    (location : Location) :
    (flagged : List (Nat × Nat)) → List ElementValue → List Violation × List (Nat × Nat)
  | flagged, [] => ([], flagged)
  | flagged, v :: rest =>
      let (violations, flagged) := checkValue definition version checkCodes location flagged v
      let (others, flagged) :=
        checkValues definition version checkCodes location flagged rest
      (violations ++ others, flagged)

/-- Check the values that have not been checked yet. -/
def checkNew (s : OpenSegment) (version : Option String) (checkCodes : Bool) :
    OpenSegment × List Violation :=
  match s.definition with
  | none => ({ s with unchecked := [] }, [])
  | some definition =>
      let (violations, flagged) :=
        checkValues definition version checkCodes s.location s.flagged s.unchecked.reverse
      ({ s with unchecked := [], flagged }, violations)

/-! ### Missing values -/

/-- The repetitions of an element, below its maximum, that carry data. The order of the values
makes no difference. -/
def presentRepetitions (values : List ElementValue) (number : Nat) (element : Element) :
    List Nat :=
  Sorted.ofList compare <|
    (values.filter fun v =>
      v.position.element == number && !v.isEmpty && v.repetition < element.maxOccurs).map
        (·.repetition)

/-- Whether some value carries data for a position in a repetition. -/
def hasData (values : List ElementValue) (position : Position) (repetition : Nat) : Bool :=
  values.any fun v =>
    v.repetition == repetition && v.position.sameSlot position && !v.isEmpty

/-- The report that a position carries no data. -/
def missing (s : OpenSegment) (position : Position) (repetition : Nat) (message : String) :
    Violation where
  kind := .requiredElementMissing
  location := s.location.narrow position repetition
  message := message

/-- The required components that carry no data in a repetition, from component `place`. -/
def missingComponents (s : OpenSegment) (number repetition : Nat) :
    (place : Nat) → List Component → List Violation
  | _, [] => []
  | place, c :: rest =>
      let position : Position := ⟨number, some place⟩
      (if c.required && !hasData s.read position repetition then
        [s.missing position repetition
          s!"required component {position.text} ({c.simpleType.id}) missing"]
      else []) ++ missingComponents s number repetition (place + 1) rest

/-- What is missing from the element with a number. -/
def missingIn (s : OpenSegment) (number : Nat) (element : Element) : List Violation :=
  match presentRepetitions s.read number element with
  | [] =>
      if element.required then
        [s.missing ⟨number, none⟩ 0 s!"required element {number} ({element.id}) missing"]
      else []
  | repetitions =>
      match element.content with
      | .simple _ => []
      | .composite composite =>
          repetitions.flatMap fun repetition =>
            s.missingComponents number repetition 1 composite.components

/-- What is missing from the elements, numbered from `number`. -/
def missingFrom (s : OpenSegment) : (number : Nat) → List Element → List Violation
  | _, [] => []
  | number, element :: rest => s.missingIn number element ++ s.missingFrom (number + 1) rest

/-- The required elements, and the required components of composites in use, that carry no
data in the whole segment. -/
def missingElements (s : OpenSegment) : List Violation :=
  match s.definition with
  | none => []
  | some definition => s.missingFrom 1 definition.elements

end OpenSegment

end Interchange.Validator
