import Interchange.Proofs.Absence
import Interchange.Proofs.InPlace
import Interchange.Proofs.Invariant

/-!
# Refused events

An event is refused exactly where it has no place (`Misused`): after the end, before the start, a
second start, an event between segments while one is open, an event of a segment while none is.
Whether that is so depends on the state and on whether a segment is open, and on nothing else
(`exists_effect_iff`).

A refused event has written nothing when it is read in place (`perform_eq`), so it leaves no trace:
any of the refused events can be taken out of a run, and every other call is answered as before and
leads to the same validator (`refused_iff_misused`).
-/

namespace Interchange

namespace Event

/-- Where events belong. -/
inductive Stage where
  /-- Before everything else. -/
  | start
  /-- Between segments. -/
  | between
  /-- In a segment. -/
  | within
  deriving DecidableEq, Repr

/-- Where an event belongs. -/
def stage : Event → Stage
  | interchangeStart _ => .start
  | segmentStart _ | interchangeEnd => .between
  | compositeStart _ _ | element _ | compositeEnd _ _ | segmentEnd => .within

end Event

namespace Validator

variable {schema : Schema} {config : Config} {v w : Validator} {e : Event} {err : Error}
  {raw : List Violation}

/-! ### The place of an event -/

/-- The events that have no place, and what is said to them. -/
inductive Misused (v : Validator) (e : Event) : Error → Prop
  /-- Validation is over. -/
  | halted (h : v.state = .complete ∨ v.state = .failed) : Misused v e (.halted v.state)
  /-- The interchange has not started. -/
  | early (h : v.state = .awaitingInterchange) (he : e.stage ≠ .start) :
      Misused v e (.unexpectedEvent e.name v.state)
  /-- It has started. -/
  | again (h : v.IsOpen) (he : e.stage = .start) : Misused v e (.unexpectedEvent e.name v.state)
  /-- A segment has not ended. -/
  | unfinished (hs : v.segment ≠ none) (he : e.stage = .between) :
      Misused v e (.unexpectedEvent e.name v.state)
  /-- No segment has started. -/
  | outside (h : v.IsOpen) (hs : v.segment = none) (he : e.stage = .within) :
      Misused v e (.unexpectedEvent e.name v.state)

/-- An event has an effect when it starts the interchange, stands between segments while none is
open, or belongs to the one that is open. -/
theorem exists_effect_iff : (∃ w raw, Effect v e w raw) ↔
    v.state = .awaitingInterchange ∧ e.stage = .start ∨
      v.IsOpen ∧ (v.segment = none ∧ e.stage = .between ∨
        v.segment ≠ none ∧ e.stage = .within) := by
  constructor
  · rintro ⟨w, raw, h⟩
    cases h with
    | start hw => exact .inl ⟨hw, rfl⟩
    | take ho hs | skip ho hs | finish ho hs => exact .inr ⟨ho, .inl ⟨hs, rfl⟩⟩
    | mark ho hs hi =>
        refine .inr ⟨ho, .inr ⟨by simp [hs], ?_⟩⟩
        cases e <;> first | rfl | cases hi
    | value ho hs | close ho hs => exact .inr ⟨ho, .inr ⟨by simp [hs], rfl⟩⟩
  · rintro (⟨hw, he⟩ | ⟨ho, ⟨hs, he⟩ | ⟨hs, he⟩⟩)
    · cases e with
      | interchangeStart version => exact ⟨_, _, .start hw⟩
      | segmentStart | compositeStart | element | compositeEnd | segmentEnd | interchangeEnd =>
          cases he
    · cases e with
      | segmentStart tag =>
          cases hm : locate? tag v.frames with
          | none => exact ⟨_, _, .skip ho hs hm⟩
          | some m => exact ⟨_, _, .take ho hs hm rfl⟩
      | interchangeEnd => exact ⟨_, _, .finish ho hs⟩
      | interchangeStart | compositeStart | element | compositeEnd | segmentEnd => cases he
    · obtain ⟨s, hs⟩ := Option.ne_none_iff_exists'.1 hs
      cases e with
      | compositeStart | compositeEnd => exact ⟨_, _, .mark ho hs rfl rfl⟩
      | element x => exact ⟨_, _, .value ho hs rfl⟩
      | segmentEnd => exact ⟨_, _, .close ho hs rfl⟩
      | interchangeStart | segmentStart | interchangeEnd => cases he

/-- A misused event has no effect. -/
theorem Misused.not_effect (h : v.Misused e err) : ¬ Effect v e w raw := by
  intro he
  rcases exists_effect_iff.1 ⟨w, raw, he⟩ with ⟨hw, hstage⟩ | ⟨ho, hplace⟩
  · cases h with
    | halted h => simp [hw] at h
    | early _ h => exact h hstage
    | again h => exact h.started hw
    | unfinished _ h | outside _ _ h => cases hstage.symm.trans h
  · cases h with
    | halted h => exact h.elim ho.not_complete ho.not_failed
    | early h => exact ho.started h
    | again _ h => simp [h] at hplace
    | unfinished hs h => simp [h, hs] at hplace
    | outside _ hs h => simp [h, hs] at hplace

/-- An event that has no effect is misused. -/
theorem misused_of_no_effect (h : ¬ ∃ w raw, Effect v e w raw) : ∃ err, v.Misused e err := by
  rw [exists_effect_iff] at h
  cases hv : v.state with
  | complete => exact ⟨_, .halted (.inl hv)⟩
  | failed => exact ⟨_, .halted (.inr hv)⟩
  | awaitingInterchange => exact ⟨_, .early hv fun he => h (.inl ⟨hv, he⟩)⟩
  | inInterchange | inStructure =>
      have ho : v.IsOpen := by simp [IsOpen, hv]
      cases he : e.stage with
      | start => exact ⟨_, .again ho he⟩
      | between => exact ⟨_, .unfinished (fun hs => h (.inr ⟨ho, .inl ⟨hs, he⟩⟩)) he⟩
      | within =>
          refine ⟨_, .outside ho (Decidable.byContradiction fun hs => ?_) he⟩
          exact h (.inr ⟨ho, .inr ⟨hs, he⟩⟩)

/-- What is said to a misused event. -/
theorem Misused.eq_refusal (h : v.Misused e err) (hv : v.segment ≠ none → v.IsOpen) :
    err = v.refusal e := by
  cases h with
  | halted h =>
      unfold refusal
      rcases h with h | h <;> rw [h]
  | early h =>
      unfold refusal
      rw [h]
  | again ho | outside ho => exact (refusal_of_open ho _).symm
  | unfinished hs => exact (refusal_of_open (hv hs) _).symm

/-- An event is refused when it is misused, as long as a segment is open only while the interchange
is. -/
theorem handle_eq_error_iff (hv : v.segment ≠ none → v.IsOpen) :
    v.handle e = .error err ↔ v.Misused e err := by
  constructor
  · intro h
    obtain ⟨err', hm⟩ := misused_of_no_effect (v := v) (e := e) (by
      rintro ⟨w, raw, he⟩
      obtain ⟨v', found, hok, -⟩ := he.handle
      rw [h] at hok
      cases hok)
    rwa [handle_eq_error h, ← hm.eq_refusal hv]
  · intro hm
    cases h : v.handle e with
    | error err' => rw [handle_eq_error h, ← hm.eq_refusal hv]
    | ok r =>
        obtain ⟨v', found⟩ := r
        obtain ⟨w, raw, he, -⟩ := handle_ok h
        exact absurd he hm.not_effect

/-- A segment is open only while the interchange is. -/
theorem Reachable.isOpen_of_segment (h : Reachable schema config v) :
    v.segment ≠ none → v.IsOpen := by
  refine h.induction (motive := fun v => v.segment ≠ none → v.IsOpen) (fun h => absurd rfl h)
    (fun {v w e raw} _ he hs => ?_) (fun h => h) (fun _ h => absurd rfl h)
    fun _ h => absurd rfl h
  cases he with
  | start => exact .inl rfl
  | take | skip => exact isOpen_stateOf _ _ rfl
  | mark ho | value ho => exact ho
  | close => exact absurd rfl hs
  | finish _ hnone => exact absurd hnone hs

/-! ### Runs without refused events -/

/-- A call in place: the answer to it, and the validator afterwards. -/
def use (v : Validator) : Call → Except Error (List Violation) × Validator
  | .event e => v.perform e
  | .reset => (.ok [], v.reset)

/-- The validator after some calls. -/
def uses (v : Validator) (cs : List Call) : Validator := cs.foldl (fun v c => (v.use c).2) v

/-- A call, the answer to it, and the validator after it. -/
structure Exchange where
  call : Call
  answer : Except Error (List Violation)
  after : Validator

/-- Whether the call was refused. -/
def Exchange.isRefused (x : Exchange) : Bool := !x.answer.isOk

/-- Some calls one after the other, with what comes of each. -/
def trace (v : Validator) : List Call → List Exchange
  | [] => []
  | c :: cs => ⟨c, (v.use c).1, (v.use c).2⟩ :: (v.use c).2.trace cs

theorem Reachable.use (h : Reachable schema config v) (c : Call) :
    Reachable schema config (v.use c).2 := by
  cases c with
  | reset => exact h.reset
  | event e =>
      rw [Validator.use, perform_eq h.frames_of_awaiting]
      cases hh : v.handle e with
      | error err => exact h
      | ok r => exact h.handle hh

/-- A refused call leaves the validator as it was. -/
theorem use_of_refused (h : Reachable schema config v) {c : Call}
    (hc : (v.use c).1.isOk = false) : (v.use c).2 = v := by
  cases c with
  | reset => cases hc
  | event e =>
      rw [Validator.use, perform_eq h.frames_of_awaiting] at hc ⊢
      cases hh : v.handle e with
      | error err => rfl
      | ok r =>
          rw [hh] at hc
          cases hc

/-- Without some of the refused calls a run is the same. -/
theorem trace_thinned (hv : Reachable schema config v) {cs : List Call} {kept : List Exchange}
    (h : Thinned Exchange.isRefused (v.trace cs) kept) :
    v.trace (kept.map (·.call)) = kept ∧ v.uses (kept.map (·.call)) = v.uses cs := by
  induction cs generalizing v kept with
  | nil =>
      cases h
      exact ⟨rfl, rfl⟩
  | cons c cs ih =>
      cases h with
      | keep h =>
          obtain ⟨htrace, huses⟩ := ih (hv.use c) h
          exact ⟨congrArg _ htrace, huses⟩
      | drop hrefused h =>
          have hsame : (v.use c).2 = v := use_of_refused hv (Bool.not_eq_true' _ ▸ hrefused)
          rw [hsame] at h
          obtain ⟨htrace, huses⟩ := ih hv h
          refine ⟨htrace, huses.trans ?_⟩
          change v.uses cs = (v.use c).2.uses cs
          rw [hsame]

/-- In every state that can be reached an event is refused exactly when it is misused. Read in
place it is answered as `handle` answers it, and when it is refused nothing has been written. So
the refused calls of a run, or any of them, can be left out: the others are answered as before and
lead to the same validator, one after the other. -/
theorem refused_iff_misused (h : Reachable schema config v) :
    (∀ e err, v.handle e = .error err ↔ v.Misused e err) ∧
    (∀ e, v.perform e = v.outcome (v.handle e)) ∧
    (∀ e err, (v.perform e).1 = .error err → (v.perform e).2 = v) ∧
    ∀ cs kept, Thinned Exchange.isRefused (v.trace cs) kept →
      v.trace (kept.map (·.call)) = kept ∧ v.uses (kept.map (·.call)) = v.uses cs := by
  refine ⟨fun e err => handle_eq_error_iff h.isOpen_of_segment,
    fun e => perform_eq h.frames_of_awaiting e, fun e err herr => ?_,
    fun cs kept => trace_thinned h⟩
  have hrefused : (v.use (.event e)).1.isOk = false := by rw [Validator.use, herr]; rfl
  exact use_of_refused h hrefused

/-- Two events come where they have no place. Without either, or without both, nothing else
changes: here without the second. -/
theorem refused_iff_misused_interrupted :
    let v : Validator := { schema := pairedSchema, config := {} }
    let cs : List Call := [.event (.segmentStart "A"), .event (.interchangeStart none),
      .event (.segmentStart "A"), .event .interchangeEnd, .event .segmentEnd]
    ∃ kept, Reachable pairedSchema {} v ∧
      v.handle (.segmentStart "A") =
        .error (.unexpectedEvent "segment start" .awaitingInterchange) ∧
      (v.perform (.segmentStart "A")).2 = v ∧
      Thinned Exchange.isRefused (v.trace cs) kept ∧
      kept.map (·.call) = [.event (.segmentStart "A"), .event (.interchangeStart none),
        .event (.segmentStart "A"), .event .segmentEnd] ∧
      v.trace (kept.map (·.call)) = kept ∧ v.uses (kept.map (·.call)) = v.uses cs := by
  intro v cs
  have hr : Reachable pairedSchema {} v := .new
  obtain ⟨hrefused, -, hsame, hthinned⟩ := refused_iff_misused hr
  have hkept : Thinned Exchange.isRefused (v.trace cs) _ :=
    .keep (.keep (.keep (.drop rfl (.keep .nil))))
  obtain ⟨htrace, huses⟩ := hthinned _ _ hkept
  exact ⟨_, hr, (hrefused _ _).2 (.early rfl (by decide)), hsame _ _ rfl, hkept, rfl, htrace,
    huses⟩

end Validator

end Interchange
