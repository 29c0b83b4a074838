import Interchange.Proofs.Invariant
import Interchange.Proofs.Verdict

/-!
# When validation ends

The configuration says which violations end validation: a fatal one, or as many errors as it
allows (`Config.Ends`). A validator has failed exactly when the violations that it has returned
since it was new, or since its last reset, are of that sort (`failed_iff_ends`).

The validator keeps only the number of errors. That this is the number of errors in all that has
been returned is part of what every judgement keeps (`Remembers`). The equivalence is exact, since
nothing is judged once validation is over (`Remembers.judge`).
-/

namespace Interchange

/-- The violations returned so far end validation: one of them is fatal, or there are as many
errors as are allowed. -/
def Config.Ends (c : Config) (past : List Violation) : Prop :=
  (∃ x ∈ past, x.severity = .fatal) ∨
    0 < c.maxErrors ∧ c.maxErrors ≤ past.countP (·.severity.isFailure)

namespace Config

variable {c : Config} {past found : List Violation} {kind : Violation.Kind}

theorem not_ends_nil (c : Config) : ¬ c.Ends [] := by
  rintro (⟨x, hx, -⟩ | ⟨hpos, hmax⟩)
  · cases hx
  · exact absurd (Nat.lt_of_lt_of_le hpos hmax) (Nat.not_lt_zero 0)

/-- With one more list of violations, validation ends by what is in it or by the sum of errors. -/
theorem ends_append (h : ¬ c.Ends past) :
    c.Ends (past ++ found) ↔ (∃ x ∈ found, x.severity = .fatal) ∨
      0 < c.maxErrors ∧ c.maxErrors ≤ (past ++ found).countP (·.severity.isFailure) := by
  refine or_congr_left ?_
  constructor
  · rintro ⟨x, hx, hfatal⟩
    rcases List.mem_append.1 hx with hx | hx
    · exact absurd (.inl ⟨x, hx, hfatal⟩) h
    · exact ⟨x, hx, hfatal⟩
  · rintro ⟨x, hx, hfatal⟩
    exact ⟨x, List.mem_append_right past hx, hfatal⟩

/-- A kind that is ignorable gives warnings. -/
theorem severityOf_of_ignorable (h : kind ∈ c.ignorable) : c.severityOf kind = .warning := by
  rw [severityOf, if_pos h]

/-- The violations of ignorable kinds make no difference to whether validation ends. -/
theorem ends_filter_ignorable (h : ∀ x ∈ past, x.severity = c.severityOf x.kind) :
    c.Ends (past.filter fun x => x.kind ∉ c.ignorable) ↔ c.Ends past := by
  have hwarning {x : Violation} (hx : x ∈ past) (hkind : x.kind ∈ c.ignorable) :
      x.severity = .warning := (h x hx).trans (severityOf_of_ignorable hkind)
  have hfatal : (∃ x ∈ past.filter fun x => x.kind ∉ c.ignorable, x.severity = .fatal) ↔
      ∃ x ∈ past, x.severity = .fatal := by
    constructor
    · rintro ⟨x, hx, hf⟩
      exact ⟨x, (List.mem_filter.1 hx).1, hf⟩
    · rintro ⟨x, hx, hf⟩
      refine ⟨x, List.mem_filter.2 ⟨hx, decide_eq_true fun hkind => ?_⟩, hf⟩
      rw [hwarning hx hkind] at hf
      cases hf
  have hcount : (past.filter fun x => x.kind ∉ c.ignorable).countP (·.severity.isFailure) =
      past.countP (·.severity.isFailure) := by
    rw [List.countP_filter]
    refine List.countP_congr fun x hx => ?_
    by_cases hkind : x.kind ∈ c.ignorable
    · simp [hwarning hx hkind, Violation.Severity.isFailure]
    · simp [hkind]
  unfold Ends
  rw [hfatal, hcount]

end Config

namespace Validator

variable {schema : Schema} {config : Config} {v w : Validator} {e : Event}
  {past found raw : List Violation}

/-- What a validator has returned after some calls: `past` before them, and nothing yet after a
reset. -/
def returned (v : Validator) (past : List Violation) : List Call → List Violation
  | [] => past
  | .reset :: cs => v.reset.returned [] cs
  | .event e :: cs =>
      match v.handle e with
      | .ok (w, found) => w.returned (past ++ found) cs
      | .error _ => v.returned past cs

/-! ### Judging -/

theorem judge_config (w : Validator) (raw : List Violation) :
    (w.judge raw).1.config = w.config := by
  unfold judge
  dsimp only
  split <;> rfl

theorem judge_errorCount (w : Validator) (raw : List Violation) :
    (w.judge raw).1.errorCount =
      w.errorCount + (raw.map w.config.judge).countP (·.severity.isFailure) := by
  unfold judge
  dsimp only
  split <;> rfl

/-- Judging fails for a fatal violation and for one error too many, and for nothing else. -/
theorem judge_failed_iff (hw : w.state ≠ .failed) :
    (w.judge raw).1.state = .failed ↔
      (∃ x ∈ raw.map w.config.judge, x.severity = .fatal) ∨
        0 < w.config.maxErrors ∧ w.config.maxErrors ≤ (w.judge raw).1.errorCount := by
  have hcondition :
      ((raw.map w.config.judge).any (·.isFatal) || (decide (0 < w.config.maxErrors) &&
        decide (w.config.maxErrors ≤
          w.errorCount + (raw.map w.config.judge).countP (·.severity.isFailure)))) = true ↔
      (∃ x ∈ raw.map w.config.judge, x.severity = .fatal) ∨
        0 < w.config.maxErrors ∧ w.config.maxErrors ≤ (w.judge raw).1.errorCount := by
    rw [judge_errorCount, Bool.or_eq_true, Bool.and_eq_true, decide_eq_true_iff,
      decide_eq_true_iff, List.any_eq_true]
    simp only [Violation.isFatal, beq_iff_eq]
  rw [← hcondition]
  unfold judge
  dsimp only
  split
  · rename_i h
    exact ⟨fun _ => h, fun _ => rfl⟩
  · rename_i h
    exact ⟨fun hfailed => absurd hfailed hw, fun hcond => absurd hcond h⟩

/-! ### What a validator remembers -/

/-- The validator agrees with what it has returned. -/
structure Remembers (config : Config) (v : Validator) (past : List Violation) : Prop where
  config_eq : v.config = config
  /-- It counts the errors. -/
  errorCount_eq : v.errorCount = past.countP (·.severity.isFailure)
  /-- It has failed when what it has returned ends validation. -/
  failed_iff : v.state = .failed ↔ config.Ends past
  /-- Every violation has the severity of its kind. -/
  severity_eq : ∀ x ∈ past, x.severity = config.severityOf x.kind

theorem remembers_new (schema : Schema) (config : Config) :
    Remembers config { schema, config } [] where
  config_eq := rfl
  errorCount_eq := rfl
  failed_iff := by
    constructor
    · exact fun h => nomatch h
    · exact fun h => absurd h config.not_ends_nil
  severity_eq x hx := nomatch hx

theorem Remembers.reset (h : Remembers config v past) : Remembers config v.reset [] := by
  have hreset : v.reset = { schema := v.schema, config := config } := by
    rw [← h.config_eq]
    rfl
  rw [hreset]
  exact remembers_new v.schema config

/-- What an effect changes is not counted. -/
theorem Remembers.effect (h : Remembers config v past) (hv : v.state ≠ .failed)
    (he : Effect v e w raw) : Remembers config w past where
  config_eq := he.config_eq.trans h.config_eq
  errorCount_eq := he.errorCount_eq.trans h.errorCount_eq
  failed_iff := ⟨fun hw => absurd hw he.not_failed, fun hends => absurd (h.failed_iff.2 hends) hv⟩
  severity_eq := h.severity_eq

/-- Judging adds the violations to what has been returned. -/
theorem Remembers.judge (h : Remembers config w past) (hw : w.state ≠ .failed) :
    Remembers config (w.judge raw).1 (past ++ (w.judge raw).2) := by
  have hfound : (w.judge raw).2 = raw.map config.judge := by
    rw [(judged_judge w raw).1, h.config_eq]
  have hcount : (w.judge raw).1.errorCount =
      (past ++ (w.judge raw).2).countP (·.severity.isFailure) := by
    rw [judge_errorCount, h.errorCount_eq, hfound, h.config_eq, List.countP_append]
  refine ⟨(judge_config w raw).trans h.config_eq, hcount, ?_, ?_⟩
  · have hpast : ¬ config.Ends past := fun hends => hw (h.failed_iff.2 hends)
    rw [judge_failed_iff hw, hcount, h.config_eq, Config.ends_append hpast, hfound]
  · intro x hx
    rcases List.mem_append.1 hx with hx | hx
    · exact h.severity_eq x hx
    · rw [hfound] at hx
      obtain ⟨y, -, rfl⟩ := List.mem_map.1 hx
      rfl

/-- An event is accepted only while validation goes on. -/
theorem not_over_of_handle (h : v.handle e = .ok (w, found)) :
    v.state ≠ .complete ∧ v.state ≠ .failed := by
  constructor
  · intro hv
    rw [handle_of_over (.inl hv)] at h
    cases h
  · intro hv
    rw [handle_of_over (.inr hv)] at h
    cases h

theorem Remembers.handle (h : Remembers config v past) (he : v.handle e = .ok (w, found)) :
    Remembers config w (past ++ found) := by
  have hv : v.state ≠ .failed := (not_over_of_handle he).2
  obtain ⟨w₀, raw, heffect, hjudge | ⟨rfl, rfl, rfl⟩⟩ := handle_judge he
  · have hw : Remembers config (w₀.judge raw).1 (past ++ (w₀.judge raw).2) :=
      (h.effect hv heffect).judge heffect.not_failed
    rwa [hjudge] at hw
  · rw [List.append_nil]
    exact h.effect hv heffect

/-- Calls keep this, also those that are refused. -/
theorem Remembers.calls (h : Remembers config v past) (cs : List Call) :
    Remembers config (v.calls cs) (v.returned past cs) := by
  induction cs generalizing v past with
  | nil => exact h
  | cons c cs ih =>
      cases c with
      | reset => exact ih h.reset
      | event e =>
          have hcalls : v.calls (.event e :: cs) = (v.call (.event e)).calls cs := rfl
          rw [hcalls, call, returned]
          cases hhandle : v.handle e with
          | error _ => exact ih h
          | ok r => exact ih (h.handle hhandle)

/-! ### The end of validation -/

/-- After any calls a validator has failed when the violations returned since it was new, or since
its last reset, end validation, and only then. So it fails with the very event that returns the
violation that decides; every violation has the severity of its kind, and those of ignorable kinds
make no difference. Once validation is over every event is refused and changes nothing. -/
theorem failed_iff_ends (schema : Schema) (config : Config) (cs : List Call) :
    let v := ({ schema, config } : Validator).calls cs
    let past := ({ schema, config } : Validator).returned [] cs
    (v.state = .failed ↔ config.Ends past) ∧
      (∀ x ∈ past, x.severity = config.severityOf x.kind) ∧
      (config.Ends (past.filter fun x => x.kind ∉ config.ignorable) ↔ config.Ends past) ∧
      (∀ e w found, v.handle e = .ok (w, found) →
        ¬ config.Ends past ∧ (w.state = .failed ↔ config.Ends (past ++ found)) ∧
          ∀ x ∈ found, x.severity = config.severityOf x.kind) ∧
      (v.state = .complete ∨ v.state = .failed →
        ∀ e, v.handle e = .error (.halted v.state) ∧ v.call (.event e) = v) := by
  intro v past
  have h : Remembers config v past := (remembers_new schema config).calls cs
  refine ⟨h.failed_iff, h.severity_eq, Config.ends_filter_ignorable h.severity_eq, ?_, ?_⟩
  · intro e w found he
    have hw : Remembers config w (past ++ found) := h.handle he
    refine ⟨fun hends => (not_over_of_handle he).2 (h.failed_iff.2 hends), hw.failed_iff, ?_⟩
    exact fun x hx => hw.severity_eq x (List.mem_append_right past hx)
  · intro hover e
    have hhandle := handle_of_over hover e
    refine ⟨hhandle, ?_⟩
    rw [call, hhandle]

/-- The one error that is allowed is found when the interchange ends, after a reset and an event
that is refused. -/
theorem failed_iff_ends_late :
    let config : Config := { maxErrors := 1 }
    let new : Validator := { schema := requiredSchema, config }
    let calls : List Call := [.event (.interchangeStart none), .reset, .event .segmentEnd,
      .event (.interchangeStart none)]
    ∃ w found, (new.calls calls).handle .interchangeEnd = .ok (w, found) ∧
      found.map (·.kind) = [.requiredSegmentMissing] ∧ new.returned [] calls = [] ∧
      ¬ config.Ends [] ∧ config.Ends found ∧ w.state = .failed ∧
      w.handle .interchangeEnd = .error (.halted .failed) := by
  intro config new calls
  have hopen : new.calls calls =
      { new with state := .inInterchange, frames := [Frame.ofRoot requiredSchema.root] } := rfl
  obtain ⟨w, found, he, hkinds, hfailed⟩ : ∃ w found,
      (new.calls calls).handle .interchangeEnd = .ok (w, found) ∧
        found.map (·.kind) = [.requiredSegmentMissing] ∧ w.state = .failed := by
    rw [hopen]
    exact ⟨_, _, rfl, rfl, rfl⟩
  obtain ⟨-, -, -, hevent, -⟩ := failed_iff_ends requiredSchema config calls
  obtain ⟨hbefore, hafter, -⟩ := hevent .interchangeEnd w found he
  have hw : new.calls (calls ++ [.event .interchangeEnd]) = w := by
    rw [Validator.calls, List.foldl_append, List.foldl_cons, List.foldl_nil]
    change (new.calls calls).call (.event .interchangeEnd) = w
    rw [call, he]
  obtain ⟨-, -, -, -, hover⟩ :=
    failed_iff_ends requiredSchema config (calls ++ [.event .interchangeEnd])
  rw [hw] at hover
  refine ⟨w, found, he, hkinds, rfl, hbefore, hafter.1 hfailed, hfailed, ?_⟩
  rw [(hover (.inr hfailed) .interchangeEnd).1, hfailed]

end Validator

end Interchange
