import Interchange.Config
import Interchange.Validator.Frame

/-!
# Validating a stream

A `Validator` reads the events of a document one after the other and reports violations
as soon as they can be told. It holds the loops that are open, the innermost first, and
the segment that is open, if any.

* **Matching.** A tag is looked for in the innermost open loop, then in the loop around
  it, and so on. Loops are closed on the way, and what they miss is reported. Inside a
  nested loop the leading segment is never matched again: its tag starts the next
  occurrence of the loop, in the loop around it.
* **Recovery.** A segment that no open loop can take is reported and skipped.
* **Severity.** The configuration judges every violation. A fatal one, or one error too
  many, ends validation.

`handle` is the whole behaviour: it takes a validator and an event and gives the next
validator with the violations of the event, or an error that leaves the validator as it
was.
-/

namespace Interchange

namespace Validator

/-- The life of a document. -/
inductive State where
  /-- No interchange has started. -/
  | awaitingInterchange
  /-- Only the root loop is open. -/
  | inInterchange
  /-- A nested loop is open. -/
  | inStructure
  /-- The interchange has ended. -/
  | complete
  /-- A fatal violation has ended validation. -/
  | failed
  deriving DecidableEq, Repr

namespace State

/-- Every state. -/
def all : List State := [.awaitingInterchange, .inInterchange, .inStructure, .complete, .failed]

/-- The serialized form of a state. -/
def code : State → String
  | awaitingInterchange => "AWAITING_INTERCHANGE"
  | inInterchange => "IN_INTERCHANGE"
  | inStructure => "IN_STRUCTURE"
  | complete => "COMPLETE"
  | failed => "FAILED"

/-- What a state is called in messages. -/
def name : State → String
  | awaitingInterchange => "awaiting interchange"
  | inInterchange => "in interchange"
  | inStructure => "in structure"
  | complete => "complete"
  | failed => "failed"

/-- The state with a given code. -/
def ofCode? (code : String) : Option State := all.find? (·.code == code)

/-- The serialized form of a state, as data. -/
def toDatum (s : State) : Datum := .text s.code

/-- The state with a given serialized form. -/
def ofDatum? (d : Datum) : Option State := d.alternative?.bind ofCode?

end State

/-- Why an event is refused. -/
inductive Error where
  /-- The event has no place in the state. -/
  | unexpectedEvent (event : String) (state : State)
  /-- Validation is over. -/
  | halted (state : State)
  deriving DecidableEq, Repr

/-- The wording of an error. -/
def Error.message : Error → String
  | unexpectedEvent event state => s!"Unexpected {event} while {state.name}"
  | halted state => s!"Validation is over ({state.name}); reset the validator first"

end Validator

/-- A reader of one document. -/
structure Validator where
  schema : Schema
  config : Config
  state : Validator.State := .awaitingInterchange
  /-- The version that the document declares. -/
  version : Option String := none
  /-- The open loops, innermost first; the last one is the root loop. -/
  frames : List Validator.Frame := []
  /-- The open segment. -/
  segment : Option Validator.OpenSegment := none
  /-- How many segments have been started. -/
  segmentCount : Nat := 0
  /-- The tag of the last one. -/
  lastTag : Option String := none
  /-- How many violations have been errors. -/
  errorCount : Nat := 0

namespace Validator

/-- How many loops are open, the root loop included. -/
def depth (v : Validator) : Nat := v.frames.length

/-- A validator that has read nothing, for the next document. -/
def reset (v : Validator) : Validator := { schema := v.schema, config := v.config }

/-! ### Judging -/

/-- Judge the violations of an event. A fatal violation or one error too many ends
validation, and everything that is open is dropped. -/
def judge (v : Validator) (found : List Violation) : Validator × List Violation :=
  let judged := found.map v.config.judge
  let errorCount := v.errorCount + judged.countP (·.severity.isFailure)
  let tooMany := 0 < v.config.maxErrors && v.config.maxErrors ≤ errorCount
  if judged.any (·.isFatal) || tooMany then
    ({ v with errorCount, state := .failed, frames := [], segment := none }, judged)
  else ({ v with errorCount }, judged)

/-! ### What is expected -/

/-- An error unless the interchange is open. -/
def ensureOpen (v : Validator) (event : Event) : Except Error Unit :=
  match v.state with
  | .inInterchange | .inStructure => .ok ()
  | .complete | .failed => .error (.halted v.state)
  | .awaitingInterchange => .error (.unexpectedEvent event.name v.state)

/-- An error unless the interchange is open and no segment is. -/
def ensureBetweenSegments (v : Validator) (event : Event) : Except Error Unit := do
  v.ensureOpen event
  if v.segment.isSome then throw (.unexpectedEvent event.name v.state)

/-- The open segment, or an error. -/
def openSegment (v : Validator) (event : Event) : Except Error OpenSegment := do
  v.ensureOpen event
  match v.segment with
  | some segment => return segment
  | none => throw (.unexpectedEvent event.name v.state)

/-! ### The interchange -/

/-- The location of findings between segments: the last segment read. -/
def here (v : Validator) : Location where
  segmentIndex := v.segmentCount
  segmentTag := v.lastTag

/-- Open the root loop. -/
def startInterchange (v : Validator) (version : Option String) : Except Error Validator :=
  match v.state with
  | .awaitingInterchange =>
      .ok { v with state := .inInterchange, version, frames := [Frame.ofRoot v.schema.root] }
  | .complete | .failed => .error (.halted v.state)
  | .inInterchange | .inStructure =>
      .error (.unexpectedEvent (Event.interchangeStart version).name v.state)

/-- The reports on what open loops miss when all of them are closed. -/
def closeAll (frames : List Frame) (here : Location) : List Violation :=
  frames.flatMap (·.close here)

/-- Close every open loop. -/
def endInterchange (v : Validator) : Except Error (Validator × List Violation) := do
  v.ensureBetweenSegments .interchangeEnd
  return { v with state := .complete, frames := [] }.judge (closeAll v.frames v.here)

/-! ### The start of a segment -/

/-- Where a tag is taken. -/
structure Match where
  /-- The loops inside, innermost first, which have to be closed. -/
  closed : List Frame
  /-- The loop with the child. -/
  frame : Frame
  /-- The loops around it. -/
  outer : List Frame
  /-- The index of the child. -/
  index : Nat
  child : Child

/-- The innermost open loop with a child that a tag can start, and that child. -/
def locate? (tag : String) : List Frame → Option Match
  | [] => none
  | frame :: outer =>
      let start := if outer.isEmpty then frame.cursor else max frame.cursor 1
      match frame.childFrom? tag start with
      | some (index, child) => some ⟨[], frame, outer, index, child⟩
      | none => (locate? tag outer).map fun m => { m with closed := frame :: m.closed }

/-- The report of an occurrence beyond the maximum. -/
def excess (path : String) (child : Child) (count index : Nat) (tag : String) :
    List Violation :=
  if child.maxOccurs.allows count then []
  else
    [{ kind := if child.isLoop then .loopOccursTooManyTimes else .segmentExceedsMaximumUse
       location := Location.ofSegment index tag (path ++ "/" ++ child.id)
       message := s!"{child.id} occurrence {count} exceeds maximum {child.maxOccurs.text}" }]

/-- The frames and the open segment after entering a child of `frame`. A segment is opened
as it is; a loop is opened with its leading segment. -/
def openChild (frame : Frame) (outer : List Frame) (child : Child) (index : Nat)
    (tag : String) : List Frame × OpenSegment :=
  match child.target with
  | .segment s =>
      (frame :: outer,
        { index, tag, path := frame.path ++ "/" ++ s.id, definition := some s
          undecided := if s.isPolymorphic then some .segment else none })
  | .loop l =>
      let path := frame.path ++ "/" ++ l.id
      let leading := l.leadingSegment?
      (Frame.ofLoop l path :: frame :: outer,
        { index, tag, path := path ++ "/" ++ (leading.map (·.id)).getD tag, definition := leading
          undecided := if l.isPolymorphic then some .loop else none })

/-- Take a tag where it was located: close the loops inside, report the children skipped
and the occurrence if it is one too many, and open the child. -/
def Match.take (m : Match) (here : Location) (index : Nat) (tag : String) :
    (List Frame × OpenSegment) × List Violation :=
  let frame := m.frame.enter m.index
  (openChild frame m.outer m.child index tag,
    closeAll m.closed here ++ m.frame.missing m.frame.cursor m.index here ++
      excess frame.path m.child (frame.count m.index) index tag)

/-- The report of a tag that no open loop can take. -/
def misplaced (schema : Schema) (frames : List Frame) (index : Nat) (tag : String) :
    Violation :=
  let path := (frames.head?.map (·.path)).getD ""
  let late := frames.head?.any (·.isOutOfSequence tag)
  { kind := if late then .unexpectedSegment else .segmentNotInSchema
    location := Location.ofSegment index tag path
    value := some tag
    message :=
      if late then s!"segment {tag} is out of sequence in {path}"
      else s!"segment {tag} cannot occur in any open loop of schema {schema.name}" }

/-- The state of an open interchange. -/
def stateOf (frames : List Frame) : State :=
  if 1 < frames.length then .inStructure else .inInterchange

/-- Open a segment: take its tag, or skip it. -/
def startSegment (v : Validator) (tag : String) : Except Error (Validator × List Violation) := do
  v.ensureBetweenSegments (.segmentStart tag)
  let v := { v with segmentCount := v.segmentCount + 1, lastTag := some tag }
  let ((frames, segment), found) :=
    match locate? tag v.frames with
    | some m => m.take v.here v.segmentCount tag
    | none =>
        let path := (v.frames.head?.map (·.path)).getD ""
        ((v.frames, { index := v.segmentCount, tag, path, definition := none }),
          [misplaced v.schema v.frames v.segmentCount tag])
  return { v with frames, segment := some segment, state := stateOf frames }.judge found

/-! ### The values of a segment -/

/-- Decide what is undecided, as far as the values allow; `none` while they do not. -/
def decide? (frames : List Frame) (s : OpenSegment) (complete : Bool) :
    Option (List Frame × OpenSegment × List Violation) :=
  match s.undecided with
  | none => some (frames, s, [])
  | some .segment =>
      (s.resolve? complete).map fun (s, found) => (frames, { s with undecided := none }, found)
  | some .loop =>
      match frames with
      | [] => some ([], { s with undecided := none }, [])
      | frame :: outer =>
          (frame.resolve? s complete).map fun (frame, s, found) =>
            (frame :: outer, { s with undecided := none }, found)

/-- Check the values that have come, once the definition of the segment is decided. -/
def advance (v : Validator) (s : OpenSegment) (complete : Bool) :
    List Frame × OpenSegment × List Violation :=
  match decide? v.frames s complete with
  | none => (v.frames, s, [])
  | some (frames, s, found) =>
      let (s, more) := s.checkNew v.version v.config.validateCodeValues
      (frames, s, found ++ more)

/-- Read a value. -/
def readElement (v : Validator) (value : ElementValue) :
    Except Error (Validator × List Violation) := do
  let s ← v.openSegment (.element value)
  let (frames, s, found) := v.advance (s.push value) false
  return { v with frames, segment := some s }.judge found

/-- Close the open segment. -/
def endSegment (v : Validator) : Except Error (Validator × List Violation) := do
  let s ← v.openSegment .segmentEnd
  let (frames, s, found) := v.advance s true
  return { v with frames, segment := none }.judge (found ++ s.missingElements)

/-! ### Events -/

/-- Read an event. -/
def handle (v : Validator) (event : Event) : Except Error (Validator × List Violation) :=
  match event with
  | .interchangeStart version => (v.startInterchange version).map (·, [])
  | .segmentStart tag => v.startSegment tag
  | .compositeStart _ _ | .compositeEnd _ _ => (v.openSegment event).map fun _ => (v, [])
  | .element value => v.readElement value
  | .segmentEnd => v.endSegment
  | .interchangeEnd => v.endInterchange

end Validator

end Interchange
