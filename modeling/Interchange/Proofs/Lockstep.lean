import Mathlib.Data.List.Forall2
import Interchange.Proofs.Kinds

/-!
# Two runs in lockstep

Two validators that have read the same events can differ in their configuration, in the version of
the document and in the number of errors (`Alike`). The walk through the schema looks at none of
these, and the values are checked against them only when their definition is known. So an event
that has an effect on the one has the same effect on the other (`Effect.alike`), and what is found
is the same up to what checks of values make of the versions and of the code lists.

How the versions of two runs are related is a parameter `ρ`, and which kinds of findings are
compared is another, `keep`: `ChecksAlike` says that related versions give the same findings of
these kinds. It is the only thing that the proofs ask of checks of values.
-/

namespace Interchange

variable {ρ : Option String → Option String → Prop} {keep : Violation.Kind → Bool}
  {codes codes' : Bool}

namespace Event

/-- Two events are the same, but for the version that an interchange declares. -/
inductive Matches (ρ : Option String → Option String → Prop) : Event → Event → Prop
  | start {version version' : Option String} (h : ρ version version') :
      Matches ρ (.interchangeStart version) (.interchangeStart version')
  | same {e : Event} (h : ∀ version, e ≠ .interchangeStart version) : Matches ρ e e

variable {e e' : Event}

theorem Matches.name_eq (h : Matches ρ e e') : e.name = e'.name := by
  cases h <;> rfl

theorem Matches.symm (h : Matches ρ e e') : Matches (fun a b => ρ b a) e' e := by
  cases h with
  | start h => exact .start h
  | same h => exact .same h

theorem Matches.refl (hρ : ∀ version, ρ version version) (e : Event) : Matches ρ e e := by
  cases e with
  | interchangeStart version => exact .start (hρ version)
  | _ => exact .same fun version h => nomatch h

end Event

/-- Checks of a value for related versions find the same, of the kinds kept. -/
def ChecksAlike (ρ : Option String → Option String → Prop) (keep : Violation.Kind → Bool)
    (codes codes' : Bool) : Prop :=
  ∀ version version', ρ version version' → ∀ (type : SimpleType) (value : String),
    (Value.check type version codes value).filter (fun failure => keep failure.kind) =
      (Value.check type version' codes' value).filter fun failure => keep failure.kind

/-- Findings of two runs that are the same before they are judged, of the kinds kept. -/
def SameFindings (keep : Violation.Kind → Bool) (c c' : Config)
    (found found' : List Violation) : Prop :=
  ∃ raw raw' : List Violation, found = raw.map c.judge ∧ found' = raw'.map c'.judge ∧
    raw.filter (fun x => keep x.kind) = raw'.filter fun x => keep x.kind

theorem SameFindings.nil (c c' : Config) : SameFindings keep c c' [] [] :=
  ⟨[], [], rfl, rfl, rfl⟩

theorem SameFindings.append {c c' : Config} {found found' more more' : List Violation}
    (h : SameFindings keep c c' found found') (hmore : SameFindings keep c c' more more') :
    SameFindings keep c c' (found ++ more) (found' ++ more') := by
  obtain ⟨raw, raw', rfl, rfl, hraw⟩ := h
  obtain ⟨others, others', rfl, rfl, hothers⟩ := hmore
  refine ⟨raw ++ others, raw' ++ others', List.map_append.symm, List.map_append.symm, ?_⟩
  rw [List.filter_append, List.filter_append, hraw, hothers]

namespace Validator

variable {v v' w w' : Validator} {e e' : Event} {events events' : List Event} {s t : OpenSegment}
  {frames : List Frame} {found found' raw : List Violation} {version version' : Option String}
  {complete : Bool}

/-! ### Checking values -/

theorem checkValue_alike (hρ : ρ version version') (h : ChecksAlike ρ keep codes codes')
    (d : Segment) (location : Location) (flagged : List (Nat × Nat)) (x : ElementValue) :
    let first := OpenSegment.checkValue d version codes location flagged x
    let other := OpenSegment.checkValue d version' codes' location flagged x
    first.1.filter (fun y => keep y.kind) = other.1.filter (fun y => keep y.kind) ∧
      first.2 = other.2 := by
  intro first other
  simp only [first, other, OpenSegment.checkValue]
  -- Only where a value is held against its type do the two checks differ.
  by_cases hempty : x.isEmpty = true
  · simp only [if_pos hempty, and_self]
  · simp only [if_neg hempty]
    cases d.element? x.position.element with
    | none => exact ⟨rfl, rfl⟩
    | some element =>
        by_cases hmax : element.maxOccurs ≤ x.repetition
        · simp only [if_pos hmax, and_self]
        · simp only [if_neg hmax]
          cases d.lookup x.position with
          | noSuchElement => exact ⟨rfl, rfl⟩
          | noSuchComponent => exact ⟨rfl, rfl⟩
          | simple type =>
              refine ⟨?_, rfl⟩
              simp only [List.filter_map]
              exact congrArg (List.map _) (h version version' hρ type x.value)

theorem checkValues_alike (hρ : ρ version version') (h : ChecksAlike ρ keep codes codes')
    (d : Segment) (location : Location) (flagged : List (Nat × Nat)) (xs : List ElementValue) :
    let first := OpenSegment.checkValues d version codes location flagged xs
    let other := OpenSegment.checkValues d version' codes' location flagged xs
    first.1.filter (fun y => keep y.kind) = other.1.filter (fun y => keep y.kind) ∧
      first.2 = other.2 := by
  induction xs generalizing flagged with
  | nil => exact ⟨rfl, rfl⟩
  | cons x rest ih =>
      obtain ⟨hvalue, hflagged⟩ := checkValue_alike hρ h d location flagged x
      obtain ⟨hrest, hlast⟩ :=
        ih (OpenSegment.checkValue d version' codes' location flagged x).2
      simp only [OpenSegment.checkValues, List.filter_append]
      rw [hvalue, hflagged, hrest]
      exact ⟨rfl, hlast⟩

theorem checkNew_alike (hρ : ρ version version') (h : ChecksAlike ρ keep codes codes')
    (s : OpenSegment) :
    (s.checkNew version codes).1 = (s.checkNew version' codes').1 ∧
      (s.checkNew version codes).2.filter (fun y => keep y.kind) =
        (s.checkNew version' codes').2.filter fun y => keep y.kind := by
  unfold OpenSegment.checkNew
  cases s.definition with
  | none => exact ⟨rfl, rfl⟩
  | some d =>
      obtain ⟨hfound, hflagged⟩ :=
        checkValues_alike hρ h d s.location s.flagged s.unchecked.reverse
      dsimp only at hfound hflagged ⊢
      rw [hflagged]
      exact ⟨rfl, hfound⟩

/-! ### Effects -/

/-- Validators at the same point of a document: they differ in the configuration, in the number of
errors, and in the version as `ρ` allows. -/
structure Alike (ρ : Option String → Option String → Prop) (v v' : Validator) : Prop where
  version : ρ v.version v'.version
  others : v' =
    { v with config := v'.config, version := v'.version, errorCount := v'.errorCount }

namespace Alike

theorem new (hρ : ρ none none) (schema : Schema) (c c' : Config) :
    Alike ρ { schema, config := c } { schema, config := c' } :=
  ⟨hρ, rfl⟩

theorem symm (h : Alike ρ v v') : Alike (fun a b => ρ b a) v' v := by
  obtain ⟨hρ, h⟩ := h
  refine ⟨hρ, ?_⟩
  rw [h]

theorem state_eq (h : Alike ρ v v') : v.state = v'.state := by
  rw [h.others]

theorem frames_eq (h : Alike ρ v v') : v.frames = v'.frames := by
  rw [h.others]

theorem segment_eq (h : Alike ρ v v') : v.segment = v'.segment := by
  rw [h.others]

theorem segmentCount_eq (h : Alike ρ v v') : v.segmentCount = v'.segmentCount := by
  rw [h.others]

/-- The number of errors makes no difference. -/
theorem withErrors (h : Alike ρ v v') (errors errors' : Nat) :
    Alike ρ { v with errorCount := errors } { v' with errorCount := errors' } := by
  obtain ⟨hρ, h⟩ := h
  refine ⟨hρ, ?_⟩
  rw [h]

end Alike

theorem advance_alike (h : Alike ρ v v')
    (hchecks : ChecksAlike ρ keep v.config.validateCodeValues v'.config.validateCodeValues)
    (ha : v.advance s complete = (frames, t, found)) :
    ∃ found', v'.advance s complete = (frames, t, found') ∧
      found.filter (fun x => keep x.kind) = found'.filter fun x => keep x.kind := by
  have hframes : v'.frames = v.frames := h.frames_eq.symm
  cases hd : decide? v.frames s complete with
  | none =>
      rw [advance_of_none hd] at ha
      cases ha
      have hd' : decide? v'.frames s complete = none := by rw [hframes, hd]
      exact ⟨[], by rw [advance_of_none hd', hframes], rfl⟩
  | some decision =>
      obtain ⟨frames₁, t₁, report⟩ := decision
      rw [advance_of_some hd] at ha
      cases ha
      have hd' : decide? v'.frames s complete = some (frames, t₁, report) := by rw [hframes, hd]
      obtain ⟨hsegment, hfound⟩ := checkNew_alike h.version hchecks t₁
      refine ⟨_, by rw [advance_of_some hd', hsegment], ?_⟩
      rw [List.filter_append, List.filter_append, hfound]

/-- An effect on a validator is one on every validator that is alike, and it finds the same, of the
kinds kept. -/
theorem Effect.alike (h : Effect v e w raw) (hv : Alike ρ v v') (he : e.Matches ρ e')
    (hchecks : ChecksAlike ρ keep v.config.validateCodeValues v'.config.validateCodeValues) :
    ∃ w' raw', Effect v' e' w' raw' ∧ Alike ρ w w' ∧
      raw.filter (fun x => keep x.kind) = raw'.filter fun x => keep x.kind := by
  have hadvance {s t : OpenSegment} {complete : Bool} {frames : List Frame}
      {found : List Violation} (ha : v.advance s complete = (frames, t, found)) :=
    advance_alike hv hchecks ha
  obtain ⟨hρ, hothers⟩ := hv
  generalize v'.config = config, v'.version = version, v'.errorCount = errors at *
  subst hothers
  cases h with
  | start hw =>
      cases he with
      | start hversion => exact ⟨_, _, .start hw, ⟨hversion, rfl⟩, rfl⟩
      | same hne => exact absurd rfl (hne _)
  | take ho hs hm ht =>
      cases he with
      | same => exact ⟨_, _, .take ho hs hm ht, ⟨hρ, rfl⟩, rfl⟩
  | skip ho hs hm =>
      cases he with
      | same => exact ⟨_, _, .skip ho hs hm, ⟨hρ, rfl⟩, rfl⟩
  | mark ho hs hi hvalue =>
      cases he with
      | start => cases hi
      | same => exact ⟨_, _, .mark ho hs hi hvalue, ⟨hρ, rfl⟩, rfl⟩
  | value ho hs ha =>
      cases he with
      | same =>
          obtain ⟨found', ha', hfound⟩ := hadvance ha
          exact ⟨_, _, .value ho hs ha', ⟨hρ, rfl⟩, hfound⟩
  | close ho hs ha =>
      cases he with
      | same =>
          obtain ⟨found', ha', hfound⟩ := hadvance ha
          refine ⟨_, _, .close ho hs ha', ⟨hρ, rfl⟩, ?_⟩
          rw [List.filter_append, List.filter_append, hfound]
  | finish ho hs =>
      cases he with
      | same => exact ⟨_, _, .finish ho hs, ⟨hρ, rfl⟩, rfl⟩

/-! ### Events -/

/-- An event that is refused is refused by every validator that is alike, with the same words. -/
theorem handle_error_alike {err : Error} (h : v.handle e = .error err) (hv : Alike ρ v v')
    (he : e.Matches ρ e') : v'.handle e' = .error err := by
  cases h' : v'.handle e' with
  | error err' =>
      rw [handle_eq_error h, handle_eq_error h', refusal, refusal, hv.state_eq, he.name_eq]
  | ok r =>
      -- Accepted there, it would have an effect here as well.
      obtain ⟨w', raw', heffect', -⟩ := handle_ok h'
      have hchecks : ChecksAlike (fun a b => ρ b a) (fun _ => false)
          v'.config.validateCodeValues v.config.validateCodeValues := by
        intro version version' _ type value
        simp only [List.filter_false]
      obtain ⟨w, raw, heffect, -⟩ := heffect'.alike hv.symm he.symm hchecks
      obtain ⟨_, _, hhandle, -⟩ := heffect.handle
      rw [h] at hhandle
      cases hhandle

/-- An event that is accepted is accepted by every validator that is alike, and the same is found.
The validators stay alike unless validation ends. -/
theorem handle_ok_alike (h : v.handle e = .ok (w, found)) (hv : Alike ρ v v')
    (he : e.Matches ρ e')
    (hchecks : ChecksAlike ρ keep v.config.validateCodeValues v'.config.validateCodeValues) :
    ∃ w' found', v'.handle e' = .ok (w', found') ∧
      SameFindings keep v.config v'.config found found' ∧
      w.config = v.config ∧ w'.config = v'.config ∧
      (w.state ≠ .failed → w'.state ≠ .failed → Alike ρ w w') := by
  obtain ⟨u, raw, heffect, hjudged⟩ := handle_ok h
  obtain ⟨u', raw', heffect', halike, hraw⟩ := heffect.alike hv he hchecks
  obtain ⟨w', found', h', hjudged'⟩ := heffect'.handle
  have hc : u.config = v.config := heffect.config_eq
  have hc' : u'.config = v'.config := heffect'.config_eq
  refine ⟨w', found', h', ⟨raw, raw', ?_, ?_, hraw⟩, hjudged.config_eq.trans hc,
    hjudged'.config_eq.trans hc', fun hw hw' => ?_⟩
  · rw [hjudged.1, hc]
  · rw [hjudged'.1, hc']
  · rw [hjudged.eq_of_not_failed hw, hjudged'.eq_of_not_failed hw']
    exact halike.withErrors _ _

/-- What a validator says to an event, with a view of what it finds. -/
def answer (v : Validator) (view : List Violation → List Violation) (e : Event) :
    Except Error (List Violation) :=
  (v.handle e).map fun r => view r.2

variable {view : List Violation → List Violation}

theorem answer_of_error {err : Error} (h : v.handle e = .error err) :
    v.answer view e = .error err := by
  rw [answer, h]
  rfl

theorem answer_of_ok (h : v.handle e = .ok (w, found)) : v.answer view e = .ok (view found) := by
  rw [answer, h]
  rfl

/-- Validators that are alike say the same to events that match, in a view that does not tell
their findings apart. -/
theorem Alike.answer_eq (hv : Alike ρ v v') (he : e.Matches ρ e')
    (hchecks : ChecksAlike ρ keep v.config.validateCodeValues v'.config.validateCodeValues)
    (hview : ∀ {found found'}, SameFindings keep v.config v'.config found found' →
      view found = view found') : v.answer view e = v'.answer view e' := by
  cases h : v.handle e with
  | error err => rw [answer_of_error h, answer_of_error (handle_error_alike h hv he)]
  | ok r =>
      obtain ⟨w', found', h', hfound, -⟩ := handle_ok_alike h hv he hchecks
      rw [answer_of_ok h, answer_of_ok h', hview hfound]

/-! ### Runs -/

/-- Runs of validators that are alike, for events that match, find the same as long as neither
fails, and the validators are alike in the end. -/
theorem feed_alike (he : List.Forall₂ (Event.Matches ρ) events events') (hv : Alike ρ v v')
    (hchecks : ChecksAlike ρ keep v.config.validateCodeValues v'.config.validateCodeValues)
    (hend : (v.feed events).1.state ≠ .failed) (hend' : (v'.feed events').1.state ≠ .failed) :
    Alike ρ (v.feed events).1 (v'.feed events').1 ∧
      (v.feed events).1.config = v.config ∧ (v'.feed events').1.config = v'.config ∧
      SameFindings keep v.config v'.config (v.feed events).2 (v'.feed events').2 := by
  induction he generalizing v v' with
  | nil => exact ⟨hv, rfl, rfl, .nil _ _⟩
  | @cons e e' rest rest' he _ ih =>
      cases h : v.handle e with
      | error err =>
          have h' := handle_error_alike h hv he
          rw [feed_of_error h] at hend ⊢
          rw [feed_of_error h'] at hend' ⊢
          exact ih hv hchecks hend hend'
      | ok r =>
          obtain ⟨w, found⟩ := r
          obtain ⟨w', found', h', hfound, hw, hw', halike⟩ := handle_ok_alike h hv he hchecks
          rw [feed_of_ok h] at hend ⊢
          rw [feed_of_ok h'] at hend' ⊢
          -- A validator that had failed here would have failed in the end.
          have hstate : w.state ≠ .failed := fun hf => hend (by rw [feed_of_failed hf]; exact hf)
          have hstate' : w'.state ≠ .failed :=
            fun hf => hend' (by rw [feed_of_failed hf]; exact hf)
          obtain ⟨hlast, hc, hc', hmore⟩ :=
            ih (halike hstate hstate') (by rwa [hw, hw']) hend hend'
          rw [hw, hw'] at hmore
          exact ⟨hlast, hc.trans hw, hc'.trans hw', hfound.append hmore⟩

end Validator

end Interchange
