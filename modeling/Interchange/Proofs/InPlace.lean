import Interchange.Proofs.Run

/-!
# Operations in place

`handle` gives the next validator as a whole, or an error and no validator. Here the same events are
read by operations on one validator, which look at it and write to it field by field. Such an
operation could be refused when it has written already, and what it has written would stay.

That it is not is a fact about the order of looking and writing: `perform_eq` says that in place an
event is answered as `handle` answers it, and that a refused one has written nothing.
-/

namespace Interchange.Validator

variable {schema : Schema} {config : Config} {v : Validator}

/-- An operation on a validator. It keeps what it has written when it is refused. -/
abbrev InPlace := ExceptT Error (StateM Validator)

namespace InPlace

/-- The findings of an event, judged. The last step of every operation. -/
def judge (found : List Violation) : InPlace (List Violation) :=
  modifyGet fun v => ((v.judge found).2, (v.judge found).1)

/-- Go on if the interchange is open. -/
def ensureOpen (event : Event) : InPlace Unit := do
  let v ← get
  match v.state with
  | .inInterchange | .inStructure => return
  | .complete | .failed => throw (.halted v.state)
  | .awaitingInterchange => throw (.unexpectedEvent event.name v.state)

/-- Go on if no segment is open. -/
def ensureBetweenSegments (event : Event) : InPlace Unit := do
  ensureOpen event
  let v ← get
  if v.segment.isSome then throw (.unexpectedEvent event.name v.state)

/-- Go on if a segment is open. -/
def ensureSegment (event : Event) : InPlace Unit := do
  ensureOpen event
  let v ← get
  if v.segment.isNone then throw (.unexpectedEvent event.name v.state)

def startInterchange (version : Option String) : InPlace (List Violation) := do
  let v ← get
  match v.state with
  | .awaitingInterchange => pure ()
  | .complete | .failed => throw (.halted v.state)
  | .inInterchange | .inStructure =>
      throw (.unexpectedEvent (Event.interchangeStart version).name v.state)
  modify fun v => { v with version }
  modify fun v => { v with frames := Frame.ofRoot v.schema.root :: v.frames }
  modify fun v => { v with state := .inInterchange }
  return []

/-- Open the child that takes the tag, or a segment that is skipped. -/
def openSegment (tag : String) : (taken : Option Match) → InPlace (List Violation)
  | some m => do
      let v ← get
      let ((frames, segment), found) := m.take v.here v.segmentCount tag
      modify fun v => { v with frames }
      modify fun v => { v with segment := some segment }
      return found
  | none => do
      let v ← get
      let path := (v.frames.head?.map (·.path)).getD ""
      modify fun v =>
        { v with segment := some { index := v.segmentCount, tag, path, definition := none } }
      return [misplaced v.schema v.frames v.segmentCount tag]

def startSegment (tag : String) : InPlace (List Violation) := do
  ensureBetweenSegments (.segmentStart tag)
  modify fun v => { v with segmentCount := v.segmentCount + 1 }
  modify fun v => { v with lastTag := some tag }
  let v ← get
  let found ← openSegment tag (locate? tag v.frames)
  modify fun v => { v with state := stateOf v.frames }
  judge found

/-- Decide and check what can be decided and checked in the open segment. -/
def advance (complete : Bool) : InPlace (List Violation) := do
  let v ← get
  match v.segment with
  | none => return []
  | some s =>
      let (frames, s, found) := v.advance s complete
      modify fun v => { v with frames }
      modify fun v => { v with segment := some s }
      return found

def readElement (value : ElementValue) : InPlace (List Violation) := do
  ensureSegment (.element value)
  modify fun v => { v with segment := v.segment.map (·.push value) }
  let found ← advance false
  judge found

def endSegment : InPlace (List Violation) := do
  ensureSegment .segmentEnd
  let found ← advance true
  let v ← get
  modify fun v => { v with segment := none }
  judge (found ++ (v.segment.map (·.missingElements)).getD [])

/-- Close the open loops, the innermost first. -/
def closeFrames (here : Location) : (frames : List Frame) → InPlace (List Violation)
  | [] => return []
  | frame :: outer => do
      modify fun v => { v with frames := outer }
      let found ← closeFrames here outer
      return frame.close here ++ found

def endInterchange : InPlace (List Violation) := do
  ensureBetweenSegments .interchangeEnd
  let v ← get
  let found ← closeFrames v.here v.frames
  modify fun v => { v with state := .complete }
  judge found

/-- Read an event. -/
def handle (event : Event) : InPlace (List Violation) :=
  match event with
  | .interchangeStart version => startInterchange version
  | .segmentStart tag => startSegment tag
  | .compositeStart _ _ | .compositeEnd _ _ => do
      ensureSegment event
      return []
  | .element value => readElement value
  | .segmentEnd => endSegment
  | .interchangeEnd => endInterchange

end InPlace

/-- What is answered to an event that is read in place, and the validator afterwards. -/
def perform (v : Validator) (e : Event) : Except Error (List Violation) × Validator :=
  (InPlace.handle e).run.run v

/-! ### Reading in place -/

/-- Before the start no loop is open, so the root loop becomes the only one. -/
theorem Reachable.frames_of_awaiting (h : Reachable schema config v) :
    v.state = .awaitingInterchange → v.frames = [] := by
  refine h.induction (motive := fun v => v.state = .awaitingInterchange → v.frames = [])
    (fun _ => rfl) (fun {v w e raw} hv he hw => ?_) (fun h => h) (fun _ _ => rfl) fun _ _ => rfl
  cases he with
  | start => cases hw
  | take | skip => exact absurd hw (stateOf_started _)
  | mark => exact hv hw
  | value ho | close ho => exact absurd hw ho.started
  | finish => cases hw

/-- The answer and the validator that belong to what `handle` gives. -/
def outcome (v : Validator) :
    Except Error (Validator × List Violation) → Except Error (List Violation) × Validator
  | .ok (w, found) => (.ok found, w)
  | .error err => (.error err, v)

namespace InPlace

variable {α β : Type}

theorem run_bind (op : InPlace α) (f : α → InPlace β) (v : Validator) :
    (op >>= f).run.run v = match op.run.run v with
      | (.ok a, w) => (f a).run.run w
      | (.error err, w) => (.error err, w) := by
  rw [ExceptT.run_bind, StateT.run_bind]
  rcases op.run.run v with ⟨a | err, w⟩ <;> rfl

theorem run_ensureOpen (event : Event) (v : Validator) :
    (ensureOpen event).run.run v = (v.ensureOpen event, v) := by
  obtain ⟨schema, config, state, version, frames, segment, count, tag, errors⟩ := v
  cases state <;> rfl

theorem run_ensureBetweenSegments (event : Event) (v : Validator) :
    (ensureBetweenSegments event).run.run v = (v.ensureBetweenSegments event, v) := by
  unfold ensureBetweenSegments Validator.ensureBetweenSegments
  rw [run_bind, run_ensureOpen]
  cases v.ensureOpen event with
  | error err => rfl
  | ok _ =>
      obtain ⟨schema, config, state, version, frames, segment, count, tag, errors⟩ := v
      cases segment <;> rfl

theorem run_ensureSegment (event : Event) (v : Validator) :
    (ensureSegment event).run.run v = ((v.openSegment event).map fun _ => (), v) := by
  unfold ensureSegment Validator.openSegment
  rw [run_bind, run_ensureOpen]
  cases v.ensureOpen event with
  | error err => rfl
  | ok _ =>
      obtain ⟨schema, config, state, version, frames, segment, count, tag, errors⟩ := v
      cases segment <;> rfl

theorem run_closeFrames (here : Location) (frames : List Frame) (hv : v.frames = frames) :
    (closeFrames here frames).run.run v =
      (.ok (closeAll frames here), { v with frames := [] }) := by
  induction frames generalizing v with
  | nil =>
      obtain ⟨schema, config, state, version, frames, segment, count, tag, errors⟩ := v
      cases hv
      rfl
  | cons frame outer ih =>
      change (closeFrames here outer >>= fun found => pure (frame.close here ++ found)).run.run
        { v with frames := outer } = _
      rw [run_bind, ih rfl]
      rfl

theorem run_startInterchange (h : v.state = .awaitingInterchange → v.frames = [])
    (version : Option String) :
    (startInterchange version).run.run v =
      v.outcome ((v.startInterchange version).map (·, [])) := by
  obtain ⟨schema, config, state, _, frames, segment, count, tag, errors⟩ := v
  cases state with
  | awaitingInterchange =>
      obtain rfl : frames = [] := h rfl
      rfl
  | inInterchange | inStructure | complete | failed => rfl

theorem run_startSegment (tag : String) (v : Validator) :
    (startSegment tag).run.run v = v.outcome (v.startSegment tag) := by
  unfold startSegment Validator.startSegment
  rw [run_bind, run_ensureBetweenSegments]
  cases v.ensureBetweenSegments (.segmentStart tag) with
  | error err => rfl
  | ok _ =>
      change (openSegment tag (locate? tag v.frames) >>= fun found =>
        modify (fun v => { v with state := stateOf v.frames }) >>= fun _ => judge found).run.run
          (v.counting tag) = v.outcome (.ok _)
      rw [run_bind]
      dsimp only
      generalize locate? tag v.frames = taken
      cases taken with
      | none => rfl
      | some m => rfl

theorem run_readElement (value : ElementValue) (v : Validator) :
    (readElement value).run.run v = v.outcome (v.readElement value) := by
  unfold readElement Validator.readElement
  rw [run_bind, run_ensureSegment]
  cases hs : v.openSegment (.element value) with
  | error err => rfl
  | ok s =>
      obtain ⟨-, hs⟩ := openSegment_eq_ok.1 hs
      obtain ⟨schema, config, state, version, frames, segment, count, last, errors⟩ := v
      cases hs
      rfl

theorem run_endSegment (v : Validator) :
    endSegment.run.run v = v.outcome v.endSegment := by
  unfold endSegment Validator.endSegment
  rw [run_bind, run_ensureSegment]
  cases hs : v.openSegment .segmentEnd with
  | error err => rfl
  | ok s =>
      obtain ⟨-, hs⟩ := openSegment_eq_ok.1 hs
      obtain ⟨schema, config, state, version, frames, segment, count, last, errors⟩ := v
      cases hs
      rfl

theorem run_endInterchange (v : Validator) :
    endInterchange.run.run v = v.outcome v.endInterchange := by
  unfold endInterchange Validator.endInterchange
  rw [run_bind, run_ensureBetweenSegments]
  cases v.ensureBetweenSegments .interchangeEnd with
  | error err => rfl
  | ok _ =>
      change (closeFrames v.here v.frames >>= fun found =>
        modify (fun v => { v with state := .complete }) >>= fun _ => judge found).run.run v = _
      rw [run_bind, run_closeFrames v.here v.frames rfl]
      rfl

end InPlace

/-- An event that is read in place is answered as `handle` answers it, and leads to the same
validator. One that is refused has written nothing. -/
theorem perform_eq (h : v.state = .awaitingInterchange → v.frames = []) (e : Event) :
    v.perform e = v.outcome (v.handle e) := by
  have mark (e : Event) : (InPlace.ensureSegment e >>= fun _ => pure []).run.run v =
      v.outcome ((v.openSegment e).map fun _ => (v, [])) := by
    rw [InPlace.run_bind, InPlace.run_ensureSegment]
    cases v.openSegment e <;> rfl
  cases e with
  | interchangeStart version => exact InPlace.run_startInterchange h version
  | segmentStart tag => exact InPlace.run_startSegment tag v
  | compositeStart position repetition => exact mark (.compositeStart position repetition)
  | compositeEnd position repetition => exact mark (.compositeEnd position repetition)
  | element value => exact InPlace.run_readElement value v
  | segmentEnd => exact InPlace.run_endSegment v
  | interchangeEnd => exact InPlace.run_endInterchange v

end Interchange.Validator
