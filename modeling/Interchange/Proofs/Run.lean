import Interchange.Validator

/-!
# Runs of a validator

`Effect` says once what an event does to a validator that accepts it, before the violations
are judged. Everything else that is proved about runs is read off it, and `handle` is not
opened again: `handle_ok` gives the effect of an accepted event, and `Effect.handle` says that
an event with an effect is accepted.

A run that stops at the first refused event is `handleAll`; `RunsTo` says where it leads unless
validation ends on the way. `Reachable` are the validators that any use of the interface can
produce, refused events and resets included.
-/

namespace Interchange

namespace Event

/-- Whether an event belongs inside a segment. -/
def isInside : Event → Bool
  | compositeStart _ _ | compositeEnd _ _ | element _ => true
  | interchangeStart _ | segmentStart _ | segmentEnd | interchangeEnd => false

/-- The value that an event brings. -/
def value? : Event → Option ElementValue
  | element value => some value
  | _ => none

theorem eq_element_of_value? {e : Event} {x : ElementValue} (h : e.value? = some x) :
    e = element x := by
  cases e with
  | element value =>
      cases h
      rfl
  | _ => cases h

end Event

/-- Whatever is found, validation goes on. -/
structure Config.NeverHalts (c : Config) : Prop where
  not_fatal : ∀ kind, c.severityOf kind ≠ .fatal
  unlimited : c.maxErrors = 0

namespace Validator

variable {v v' w : Validator} {e : Event} {s t : OpenSegment} {found raw : List Violation}

/-- The interchange has started and has not ended. -/
def IsOpen (v : Validator) : Prop := v.state = .inInterchange ∨ v.state = .inStructure

/-- The validator with one more segment started. -/
def counting (v : Validator) (tag : String) : Validator :=
  { v with segmentCount := v.segmentCount + 1, lastTag := some tag }

/-- The segment that stands for a tag that no loop can take. -/
def skipped (v : Validator) (tag : String) : OpenSegment where
  index := v.segmentCount + 1
  tag := tag
  path := (v.frames.head?.map (·.path)).getD ""
  definition := none

/-- Validation has ended early, with `errors` errors. -/
def failedWith (v : Validator) (errors : Nat) : Validator :=
  { v with errorCount := errors, state := .failed, frames := [], segment := none }

/-- What an accepted event does, and what it finds, before the findings are judged. -/
inductive Effect (v : Validator) : Event → Validator → List Violation → Prop
  | start {version : Option String} (hw : v.state = .awaitingInterchange) :
      Effect v (.interchangeStart version)
        { v with state := .inInterchange, version, frames := [Frame.ofRoot v.schema.root] } []
  | take {tag : String} {m : Match} {frames : List Frame} {s : OpenSegment}
      {found : List Violation} (ho : v.IsOpen) (hs : v.segment = none)
      (hm : locate? tag v.frames = some m)
      (ht : m.take (v.counting tag).here (v.segmentCount + 1) tag = ((frames, s), found)) :
      Effect v (.segmentStart tag)
        { v.counting tag with frames, segment := some s, state := stateOf frames } found
  | skip {tag : String} (ho : v.IsOpen) (hs : v.segment = none)
      (hm : locate? tag v.frames = none) :
      Effect v (.segmentStart tag)
        { v.counting tag with segment := some (v.skipped tag), state := stateOf v.frames }
        [misplaced v.schema v.frames (v.segmentCount + 1) tag]
  | mark {e : Event} {s : OpenSegment} (ho : v.IsOpen) (hs : v.segment = some s)
      (hi : e.isInside = true) (he : e.value? = none) : Effect v e v []
  | value {x : ElementValue} {frames : List Frame} {s t : OpenSegment} {found : List Violation}
      (ho : v.IsOpen) (hs : v.segment = some s)
      (ha : v.advance (s.push x) false = (frames, t, found)) :
      Effect v (.element x) { v with frames, segment := some t } found
  | close {frames : List Frame} {s t : OpenSegment} {found : List Violation}
      (ho : v.IsOpen) (hs : v.segment = some s) (ha : v.advance s true = (frames, t, found)) :
      Effect v .segmentEnd { v with frames, segment := none } (found ++ t.missingElements)
  | finish (ho : v.IsOpen) (hs : v.segment = none) :
      Effect v .interchangeEnd { v with state := .complete, frames := [] }
        (closeAll v.frames v.here)

/-! ### Judging -/

/-- The validator `v'` and the violations `found` are `w` and its findings after judging:
only the number of errors has changed, unless validation has ended. -/
def Judged (w : Validator) (raw : List Violation) (v' : Validator) (found : List Violation) :
    Prop :=
  found = raw.map w.config.judge ∧
    ∃ errors, v' = { w with errorCount := errors } ∨
      ¬ w.config.NeverHalts ∧ v' = w.failedWith errors

theorem judged_judge (w : Validator) (raw : List Violation) :
    Judged w raw (w.judge raw).1 (w.judge raw).2 := by
  unfold judge
  dsimp only
  split
  · rename_i h
    refine ⟨rfl, _, .inr ⟨fun hc => ?_, rfl⟩⟩
    have hfatal : (raw.map w.config.judge).any (·.isFatal) = false := by
      rw [List.any_eq_false]
      intro x hx
      obtain ⟨y, -, rfl⟩ := List.mem_map.1 hx
      simpa [Violation.isFatal, Config.judge] using hc.not_fatal y.kind
    simp [hfatal, hc.unlimited] at h
  · exact ⟨rfl, _, .inl rfl⟩

theorem Judged.self (v : Validator) : Judged v [] v [] :=
  ⟨rfl, v.errorCount, .inl rfl⟩

theorem Judged.config_eq (h : Judged w raw v' found) : v'.config = w.config := by
  obtain ⟨-, errors, rfl | ⟨-, rfl⟩⟩ := h
  · rfl
  · rfl

/-- Unless validation ends, judging changes only the number of errors. -/
theorem Judged.eq_of_not_failed (h : Judged w raw v' found) (hv : v'.state ≠ .failed) :
    v' = { w with errorCount := v'.errorCount } := by
  obtain ⟨-, errors, rfl | ⟨-, rfl⟩⟩ := h
  · rfl
  · exact absurd rfl hv

/-! ### Accepted events -/

theorem bind_eq_ok {ε α β : Type} {x : Except ε α} {f : α → Except ε β} {b : β} :
    (x >>= f) = .ok b ↔ ∃ a, x = .ok a ∧ f a = .ok b := by
  cases x with
  | error e => simp [bind, Except.bind]
  | ok a => simp [bind, Except.bind]

theorem ensureOpen_eq_ok {u : Unit} : v.ensureOpen e = .ok u ↔ v.IsOpen := by
  unfold ensureOpen IsOpen
  cases v.state <;> simp

theorem ensureBetweenSegments_eq_ok {u : Unit} :
    v.ensureBetweenSegments e = .ok u ↔ v.IsOpen ∧ v.segment = none := by
  unfold ensureBetweenSegments
  rw [bind_eq_ok]
  simp only [ensureOpen_eq_ok, exists_const]
  refine and_congr_right fun _ => ?_
  cases v.segment <;> simp [throw, throwThe, MonadExceptOf.throw, pure, Except.pure]

theorem openSegment_eq_ok : v.openSegment e = .ok s ↔ v.IsOpen ∧ v.segment = some s := by
  unfold openSegment
  rw [bind_eq_ok]
  simp only [ensureOpen_eq_ok, exists_const]
  refine and_congr_right fun _ => ?_
  cases v.segment <;> simp [throw, throwThe, MonadExceptOf.throw, pure, Except.pure]

/-- An accepted event has an effect. Its findings are judged, unless the event can have none. -/
theorem handle_judge (h : v.handle e = .ok (v', found)) :
    ∃ w raw, Effect v e w raw ∧
      (w.judge raw = (v', found) ∨ raw = [] ∧ found = [] ∧ v' = w) := by
  have marked (hi : e.isInside = true) (he : e.value? = none)
      (h : (v.openSegment e).map (fun _ => (v, ([] : List Violation))) = .ok (v', found)) :
      ∃ w raw, Effect v e w raw ∧
        (w.judge raw = (v', found) ∨ raw = [] ∧ found = [] ∧ v' = w) := by
    cases hs : v.openSegment e with
    | error err => rw [hs] at h; cases h
    | ok s =>
        rw [hs] at h
        cases h
        obtain ⟨ho, hs⟩ := openSegment_eq_ok.1 hs
        exact ⟨v, [], .mark ho hs hi he, .inr ⟨rfl, rfl, rfl⟩⟩
  cases e with
  | interchangeStart version =>
      simp only [handle, startInterchange] at h
      cases hw : v.state <;> rw [hw] at h <;> cases h
      exact ⟨_, [], .start hw, .inr ⟨rfl, rfl, rfl⟩⟩
  | segmentStart tag =>
      obtain ⟨u, hu, h⟩ := bind_eq_ok.1 h
      obtain ⟨ho, hs⟩ := ensureBetweenSegments_eq_ok.1 hu
      have h := Except.ok.inj h
      cases hm : locate? tag v.frames with
      | none =>
          simp only [hm] at h
          exact ⟨_, _, .skip ho hs hm, .inl h⟩
      | some m =>
          simp only [hm] at h
          exact ⟨_, _, .take ho hs hm rfl, .inl h⟩
  | compositeStart position repetition => exact marked rfl rfl h
  | compositeEnd position repetition => exact marked rfl rfl h
  | element value =>
      obtain ⟨s, hs, h⟩ := bind_eq_ok.1 h
      obtain ⟨ho, hs⟩ := openSegment_eq_ok.1 hs
      exact ⟨_, _, .value ho hs rfl, .inl (Except.ok.inj h)⟩
  | segmentEnd =>
      obtain ⟨s, hs, h⟩ := bind_eq_ok.1 h
      obtain ⟨ho, hs⟩ := openSegment_eq_ok.1 hs
      exact ⟨_, _, .close ho hs rfl, .inl (Except.ok.inj h)⟩
  | interchangeEnd =>
      obtain ⟨u, hu, h⟩ := bind_eq_ok.1 h
      obtain ⟨ho, hs⟩ := ensureBetweenSegments_eq_ok.1 hu
      exact ⟨_, _, .finish ho hs, .inl (Except.ok.inj h)⟩

/-- What an accepted event does is an effect, judged. -/
theorem handle_ok (h : v.handle e = .ok (v', found)) :
    ∃ w raw, Effect v e w raw ∧ Judged w raw v' found := by
  obtain ⟨w, raw, he, hjudge | ⟨rfl, rfl, rfl⟩⟩ := handle_judge h
  · have hw := judged_judge w raw
    rw [hjudge] at hw
    exact ⟨w, raw, he, hw⟩
  · exact ⟨_, [], he, .self _⟩

/-- An event with an effect is accepted, and what it does is that effect, judged. -/
theorem Effect.handle (h : Effect v e w raw) :
    ∃ v' found, v.handle e = .ok (v', found) ∧ Judged w raw v' found := by
  have between {e : Event} (ho : v.IsOpen) (hs : v.segment = none) :
      v.ensureBetweenSegments e = .ok () := ensureBetweenSegments_eq_ok.2 ⟨ho, hs⟩
  have inside {e : Event} {s : OpenSegment} (ho : v.IsOpen) (hs : v.segment = some s) :
      v.openSegment e = .ok s := openSegment_eq_ok.2 ⟨ho, hs⟩
  cases h with
  | start hw => exact ⟨_, _, by simp only [Validator.handle, startInterchange, hw]; rfl, .self _⟩
  | take ho hs hm ht =>
      refine ⟨_, _, bind_eq_ok.2 ⟨(), between ho hs, ?_⟩, judged_judge _ _⟩
      simp only [hm]
      unfold counting at ht
      simp only [ht]
      rfl
  | skip ho hs hm =>
      refine ⟨_, _, bind_eq_ok.2 ⟨(), between ho hs, ?_⟩, judged_judge _ _⟩
      simp only [hm]
      rfl
  | mark ho hs hi he =>
      refine ⟨v, [], ?_, .self v⟩
      cases e <;> simp only [Event.isInside, Event.value?, reduceCtorEq] at hi he <;>
        simp only [Validator.handle, inside ho hs] <;> rfl
  | value ho hs ha =>
      refine ⟨_, _, bind_eq_ok.2 ⟨_, inside ho hs, ?_⟩, judged_judge _ _⟩
      simp only [ha]
      rfl
  | close ho hs ha =>
      refine ⟨_, _, bind_eq_ok.2 ⟨_, inside ho hs, ?_⟩, judged_judge _ _⟩
      simp only [ha]
      rfl
  | finish ho hs => exact ⟨_, _, bind_eq_ok.2 ⟨(), between ho hs, rfl⟩, judged_judge _ _⟩

@[simp] theorem Effect.config_eq (h : Effect v e w raw) : w.config = v.config := by
  cases h <;> rfl

@[simp] theorem Effect.errorCount_eq (h : Effect v e w raw) : w.errorCount = v.errorCount := by
  cases h <;> rfl

@[simp] theorem Effect.schema_eq (h : Effect v e w raw) : w.schema = v.schema := by
  cases h <;> rfl

/-- Once validation is over, every event is refused. -/
theorem handle_of_over (h : v.state = .complete ∨ v.state = .failed) (e : Event) :
    v.handle e = .error (.halted v.state) := by
  have hopen (e : Event) : v.ensureOpen e = .error (.halted v.state) := by
    unfold ensureOpen
    rcases h with h | h <;> rw [h]
  have hsegment (e : Event) : v.openSegment e = .error (.halted v.state) := by
    unfold openSegment
    rw [hopen]
    rfl
  have hbetween (e : Event) : v.ensureBetweenSegments e = .error (.halted v.state) := by
    unfold ensureBetweenSegments
    rw [hopen]
    rfl
  have hinside (e : Event) :
      (v.openSegment e).map (fun _ => (v, ([] : List Violation))) = .error (.halted v.state) := by
    rw [hsegment]
    rfl
  cases e with
  | interchangeStart version =>
      simp only [Validator.handle, startInterchange]
      rcases h with h | h <;> rw [h] <;> rfl
  | segmentStart tag =>
      change v.startSegment tag = _
      rw [startSegment, hbetween]
      rfl
  | compositeStart position repetition => exact hinside _
  | compositeEnd position repetition => exact hinside _
  | element value =>
      change v.readElement value = _
      rw [readElement, hsegment]
      rfl
  | segmentEnd =>
      change v.endSegment = _
      rw [endSegment, hsegment]
      rfl
  | interchangeEnd =>
      change v.endInterchange = _
      rw [endInterchange, hbetween]
      rfl

/-! ### Refused events -/

/-- What is said to an event that has no place. -/
def refusal (v : Validator) (e : Event) : Error :=
  match v.state with
  | .complete | .failed => .halted v.state
  | .awaitingInterchange | .inInterchange | .inStructure => .unexpectedEvent e.name v.state

variable {err : Error}

theorem bind_eq_error {ε α β : Type} {x : Except ε α} {f : α → Except ε β} {err : ε} :
    (x >>= f) = .error err ↔ x = .error err ∨ ∃ a, x = .ok a ∧ f a = .error err := by
  cases x with
  | error e => simp [bind, Except.bind]
  | ok a => simp [bind, Except.bind]

theorem refusal_of_open (h : v.IsOpen) (e : Event) :
    v.refusal e = .unexpectedEvent e.name v.state := by
  unfold refusal
  rcases h with h | h <;> rw [h]

theorem ensureOpen_eq_error (h : v.ensureOpen e = .error err) : err = v.refusal e := by
  unfold ensureOpen at h
  unfold refusal
  cases hv : v.state <;> simp only [hv] at h ⊢ <;> cases h <;> rfl

theorem ensureBetweenSegments_eq_error (h : v.ensureBetweenSegments e = .error err) :
    err = v.refusal e := by
  rcases bind_eq_error.1 h with h | ⟨u, hu, h⟩
  · exact ensureOpen_eq_error h
  · rw [refusal_of_open (ensureOpen_eq_ok.1 hu)]
    cases hs : v.segment <;> simp only [hs] at h <;> cases h
    rfl

theorem openSegment_eq_error (h : v.openSegment e = .error err) : err = v.refusal e := by
  rcases bind_eq_error.1 h with h | ⟨u, hu, h⟩
  · exact ensureOpen_eq_error h
  · rw [refusal_of_open (ensureOpen_eq_ok.1 hu)]
    cases hs : v.segment <;> simp only [hs] at h <;> cases h
    rfl

/-- Only the name of an event and the state say what is said to one that is refused. -/
theorem handle_eq_error (h : v.handle e = .error err) : err = v.refusal e := by
  have inside (h : (v.openSegment e).map (fun _ => (v, ([] : List Violation))) = .error err) :
      err = v.refusal e := by
    cases hs : v.openSegment e with
    | ok s => rw [hs] at h; cases h
    | error err' =>
        rw [hs] at h
        cases h
        exact openSegment_eq_error hs
  cases e with
  | interchangeStart version =>
      simp only [handle, startInterchange] at h
      unfold refusal
      cases hv : v.state <;> simp only [hv] at h ⊢ <;> cases h <;> rfl
  | compositeStart position repetition => exact inside h
  | compositeEnd position repetition => exact inside h
  | segmentStart tag =>
      rcases bind_eq_error.1 h with h | ⟨u, -, h⟩
      · exact ensureBetweenSegments_eq_error h
      · cases h
  | element value =>
      rcases bind_eq_error.1 h with h | ⟨s, -, h⟩
      · exact openSegment_eq_error h
      · cases h
  | segmentEnd =>
      rcases bind_eq_error.1 h with h | ⟨s, -, h⟩
      · exact openSegment_eq_error h
      · cases h
  | interchangeEnd =>
      rcases bind_eq_error.1 h with h | ⟨u, -, h⟩
      · exact ensureBetweenSegments_eq_error h
      · cases h

theorem IsOpen.started (h : v.IsOpen) : v.state ≠ .awaitingInterchange := by
  rcases h with h | h <;> rw [h] <;> decide

theorem IsOpen.not_complete (h : v.IsOpen) : v.state ≠ .complete := by
  rcases h with h | h <;> rw [h] <;> decide

theorem IsOpen.not_failed (h : v.IsOpen) : v.state ≠ .failed := by
  rcases h with h | h <;> rw [h] <;> decide

theorem isOpen_stateOf (v : Validator) (frames : List Frame) (h : v.state = stateOf frames) :
    v.IsOpen := by
  unfold stateOf at h
  split at h
  · exact .inr h
  · exact .inl h

theorem stateOf_started (frames : List Frame) : stateOf frames ≠ .awaitingInterchange := by
  unfold stateOf
  split <;> decide

/-- No effect ends validation early. -/
theorem Effect.not_failed (h : Effect v e w raw) : w.state ≠ .failed := by
  cases h with
  | start | finish => exact fun h => nomatch h
  | take | skip => exact (isOpen_stateOf _ _ rfl).not_failed
  | mark ho | value ho | close ho => exact ho.not_failed

/-! ### Sequences of events -/

/-- Read events one after the other, up to the first that is refused. -/
def handleAll (v : Validator) : List Event → Except Error (Validator × List Violation)
  | [] => .ok (v, [])
  | e :: rest => do
      let (v, found) ← v.handle e
      let (v, more) ← v.handleAll rest
      return (v, found ++ more)

theorem handleAll_cons_eq_ok {rest : List Event} :
    v.handleAll (e :: rest) = .ok (v', found) ↔
      ∃ v₁ first more, v.handle e = .ok (v₁, first) ∧ v₁.handleAll rest = .ok (v', more) ∧
        found = first ++ more := by
  rw [handleAll]
  constructor
  · intro h
    obtain ⟨⟨v₁, first⟩, he, h⟩ := bind_eq_ok.1 h
    obtain ⟨⟨v₂, more⟩, hrest, h⟩ := bind_eq_ok.1 h
    cases h
    exact ⟨v₁, first, more, he, hrest, rfl⟩
  · rintro ⟨v₁, first, more, he, hrest, rfl⟩
    exact bind_eq_ok.2 ⟨_, he, bind_eq_ok.2 ⟨_, hrest, rfl⟩⟩

/-- Read events one after the other; one that is refused changes nothing. -/
def feed (v : Validator) : List Event → Validator × List Violation
  | [] => (v, [])
  | e :: rest =>
      match v.handle e with
      | .error _ => v.feed rest
      | .ok (v, found) =>
          let (w, more) := v.feed rest
          (w, found ++ more)

theorem feed_of_error {err : Error} {rest : List Event} (h : v.handle e = .error err) :
    v.feed (e :: rest) = v.feed rest := by
  rw [feed, h]

theorem feed_of_ok {rest : List Event} (h : v.handle e = .ok (w, found)) :
    v.feed (e :: rest) = ((w.feed rest).1, found ++ (w.feed rest).2) := by
  rw [feed, h]

theorem feed_append (v : Validator) (first rest : List Event) :
    v.feed (first ++ rest) =
      (((v.feed first).1.feed rest).1, (v.feed first).2 ++ ((v.feed first).1.feed rest).2) := by
  induction first generalizing v with
  | nil => rfl
  | cons e first ih =>
      rw [List.cons_append, feed, feed]
      cases v.handle e with
      | error _ => exact ih v
      | ok r =>
          dsimp only
          rw [ih r.1, List.append_assoc]

/-- A validator that has failed stays as it is. -/
theorem feed_of_failed (hv : v.state = .failed) (events : List Event) :
    v.feed events = (v, []) := by
  induction events with
  | nil => rfl
  | cons e rest ih => rw [feed, handle_of_over (.inr hv), ih]

/-- Nothing ends a run early when the configuration never ends validation. -/
theorem feed_not_failed (hc : v.config.NeverHalts) (hv : v.state ≠ .failed)
    (events : List Event) : (v.feed events).1.state ≠ .failed := by
  induction events generalizing v with
  | nil => exact hv
  | cons e rest ih =>
      cases h : v.handle e with
      | error err =>
          rw [feed_of_error h]
          exact ih hc hv
      | ok r =>
          obtain ⟨w, found⟩ := r
          rw [feed_of_ok h]
          obtain ⟨u, raw, he, -, errors, rfl | ⟨hn, -⟩⟩ := handle_ok h
          · refine ih ?_ he.not_failed
            rwa [← he.config_eq] at hc
          · rw [he.config_eq] at hn
            exact absurd hc hn

/-- The effects of events one after the other, before the findings are judged. -/
inductive Effects : Validator → List Event → Validator → List Violation → Prop
  | nil (v : Validator) : Effects v [] v []
  | cons {v w u : Validator} {e : Event} {rest : List Event} {raw more : List Violation}
      (h : Effect v e w raw) (hrest : Effects w rest u more) :
      Effects v (e :: rest) u (raw ++ more)

/-- An event that finds nothing. -/
theorem Effects.cons_quiet {u : Validator} {rest : List Event} {more : List Violation}
    (h : Effect v e w []) (hrest : Effects w rest u more) : Effects v (e :: rest) u more :=
  .cons h hrest

theorem Effects.append {u : Validator} {first rest : List Event} {more : List Violation}
    (h : Effects v first w raw) (hrest : Effects w rest u more) :
    Effects v (first ++ rest) u (raw ++ more) := by
  induction h with
  | nil => exact hrest
  | cons he _ ih =>
      rw [List.append_assoc]
      exact .cons he (ih hrest)

theorem Effects.config_eq {events : List Event} (h : Effects v events w raw) :
    w.config = v.config := by
  induction h with
  | nil => rfl
  | cons he _ ih => exact ih.trans he.config_eq

theorem Effects.schema_eq {events : List Event} (h : Effects v events w raw) :
    w.schema = v.schema := by
  induction h with
  | nil => rfl
  | cons he _ ih => exact ih.trans he.schema_eq

/-- Reading `events` leads to `w` with the findings `raw`, which are judged on the way and count
as errors, unless validation ends before. -/
inductive RunsTo (v : Validator) (events : List Event) (w : Validator) (raw : List Violation) :
    Prop
  | on {errors : Nat}
      (h : v.handleAll events = .ok ({ w with errorCount := errors }, raw.map v.config.judge))
  | failed {last : Validator} {out : List Violation} (hc : ¬ v.config.NeverHalts)
      (h : v.handleAll events = .ok (last, out)) (hf : last.state = .failed)
  | halted (hc : ¬ v.config.NeverHalts) (h : v.handleAll events = .error (.halted .failed))

/-- Effects do not depend on the number of errors. -/
theorem Effect.withErrors (h : Effect v e w raw) (errors : Nat) :
    Effect { v with errorCount := errors } e { w with errorCount := errors } raw := by
  cases h with
  | start hw => exact .start hw
  | take ho hs hm ht => exact .take ho hs hm ht
  | skip ho hs hm => exact .skip ho hs hm
  | mark ho hs hi he => exact .mark ho hs hi he
  | value ho hs ha => exact .value ho hs ha
  | close ho hs ha => exact .close ho hs ha
  | finish ho hs => exact .finish ho hs

/-- Effects come about when their events are read. -/
theorem Effects.runsTo {events : List Event} (h : Effects v events w raw) (errors : Nat) :
    RunsTo { v with errorCount := errors } events w raw := by
  induction h generalizing errors with
  | nil v => exact .on rfl
  | @cons v w u e rest raw more he _ ih =>
      have hconfig : w.config = v.config := he.config_eq
      obtain ⟨v₁, first, hhandle, rfl, errors', rfl | ⟨hn, rfl⟩⟩ := (he.withErrors errors).handle
      · cases ih errors' with
        | on h =>
            refine .on (handleAll_cons_eq_ok.2 ⟨_, _, _, hhandle, h, ?_⟩)
            rw [List.map_append]
            dsimp only
            rw [hconfig]
        | failed hn h hf =>
            dsimp only at hn
            rw [hconfig] at hn
            exact .failed hn (handleAll_cons_eq_ok.2 ⟨_, _, _, hhandle, h, rfl⟩) hf
        | halted hn h =>
            dsimp only at hn
            rw [hconfig] at hn
            refine .halted hn ?_
            rw [handleAll, hhandle]
            change (Validator.handleAll _ rest >>= _) = _
            rw [h]
            rfl
      · dsimp only at hn
        rw [hconfig] at hn
        cases rest with
        | nil => exact .failed hn (handleAll_cons_eq_ok.2 ⟨_, _, _, hhandle, rfl, rfl⟩) rfl
        | cons e' rest =>
            -- Validation has ended with this event, and the next one is refused.
            refine .halted hn ?_
            rw [handleAll, hhandle]
            change (Validator.handleAll _ (e' :: rest) >>= _) = _
            rw [handleAll, handle_of_over (.inr rfl)]
            rfl

/-- A run that has not failed has led where it should. -/
theorem RunsTo.eq_of_ok {events : List Event} (h : RunsTo v events w raw)
    (hok : v.handleAll events = .ok (v', found)) (hv : v'.state ≠ .failed) :
    v' = { w with errorCount := v'.errorCount } ∧ found = raw.map v.config.judge := by
  cases h with
  | on h =>
      rw [hok] at h
      cases h
      exact ⟨rfl, rfl⟩
  | failed _ h hf =>
      rw [hok] at h
      cases h
      exact absurd hf hv
  | halted _ h => rw [hok] at h; cases h

/-- Nothing stops a run when the configuration never ends validation. -/
theorem RunsTo.ok {events : List Event} (h : RunsTo v events w raw)
    (hc : v.config.NeverHalts) :
    ∃ errors, v.handleAll events = .ok ({ w with errorCount := errors }, raw.map v.config.judge) :=
  match h with
  | .on h => ⟨_, h⟩
  | .failed hn _ _ => absurd hc hn
  | .halted hn _ => absurd hc hn

/-- The validators that the interface can produce for a schema and a configuration. A refused
event changes nothing and needs no case. -/
inductive Reachable (schema : Schema) (config : Config) : Validator → Prop
  | new : Reachable schema config { schema, config }
  | handle {v v' : Validator} {e : Event} {found : List Violation}
      (hv : Reachable schema config v) (h : v.handle e = .ok (v', found)) :
      Reachable schema config v'
  | reset {v : Validator} (hv : Reachable schema config v) : Reachable schema config v.reset

/-- What holds of a new validator and survives every effect, the end of validation and a reset
holds of every reachable validator. -/
theorem Reachable.induction {schema : Schema} {config : Config} {motive : Validator → Prop}
    (new : motive { schema, config })
    (effect : ∀ {v w e raw}, motive v → Effect v e w raw → motive w)
    (count : ∀ {v errors}, motive v → motive { v with errorCount := errors })
    (fail : ∀ {v errors}, motive v → motive (v.failedWith errors))
    (reset : ∀ {v : Validator}, motive v → motive v.reset) (h : Reachable schema config v) :
    motive v := by
  induction h with
  | new => exact new
  | handle _ h ih =>
      obtain ⟨w, raw, hw, -, errors, rfl | ⟨-, rfl⟩⟩ := handle_ok h
      · exact count (effect ih hw)
      · exact fail (effect ih hw)
  | reset _ ih => exact reset ih

end Validator

end Interchange
