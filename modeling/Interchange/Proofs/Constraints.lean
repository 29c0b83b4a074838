import Interchange.Proofs.Documents
import Interchange.Proofs.Lockstep

/-!
# What a version changes

The version of a document and the list of codes are asked for in one place, where a value is held
against its type. What they change there is whether the value is too short, too long or not a code:
the lexical form of a value is that of its kind in every version (`check_unconstrained`).

So two runs that differ in nothing but the version and the check of code lists report the same, but
for these three kinds of findings (`answers_agree_unconstrained`), and a run without code lists
reports what a run with them reports, without the values that are not codes (`feed_without_codes`).
-/

namespace Interchange

/-- The kinds of findings that the constraints of a type lead to, which are resolved for a
version. -/
def Violation.Kind.isConstraint : Violation.Kind → Bool
  | tooShort | tooLong | invalidCodeValue => true
  | _ => false

/-- An event without the version that an interchange declares. -/
def Event.unversioned : Event → Event
  | interchangeStart _ => interchangeStart none
  | e => e

theorem Event.matches_of_unversioned {e e' : Event} (h : e.unversioned = e'.unversioned) :
    e.Matches (fun _ _ => True) e' := by
  cases e <;> cases e' <;> cases h
  case interchangeStart => exact .start trivial
  all_goals exact .same fun version h => nomatch h

/-- The configuration with code lists checked or not. -/
def Config.checking (c : Config) (codes : Bool) : Config := { c with validateCodeValues := codes }

theorem Config.NeverHalts.checking {c : Config} (h : c.NeverHalts) (codes : Bool) :
    (c.checking codes).NeverHalts :=
  ⟨h.not_fatal, h.unlimited⟩

/-! ### Values -/

namespace Value

variable {type : SimpleType} {version : Option String} {codes : Bool} {value : String}
  {keep : Violation.Kind → Bool} {kind : Violation.Kind} {failures : List Failure}

/-- The rule on the lexical form of a value, when it is broken. -/
def lexicalFailures (type : SimpleType) (value : String) : List Failure :=
  match checkLexical type value with
  | .ok () => []
  | .error fault => [.lexical fault]

theorem check_eq (h : value ≠ "") :
    check type version codes value =
      checkMinLength type version value ++ checkMaxLength type version value ++
        (if codes then checkCode type version value else []) ++ lexicalFailures type value := by
  rw [check, if_neg h]
  rfl

theorem checkMinLength_kind :
    ∀ failure ∈ checkMinLength type version value, failure.kind = .tooShort := by
  unfold checkMinLength
  dsimp only
  split
  · simp [Failure.kind]
  · simp

theorem checkMaxLength_kind :
    ∀ failure ∈ checkMaxLength type version value, failure.kind = .tooLong := by
  unfold checkMaxLength
  dsimp only
  split
  · simp [Failure.kind]
  · simp

theorem checkCode_kind :
    ∀ failure ∈ checkCode type version value, failure.kind = .invalidCodeValue := by
  unfold checkCode
  dsimp only
  split
  · simp
  · simp [Failure.kind]

theorem lexicalFailures_kind :
    ∀ failure ∈ lexicalFailures type value, failure.kind = .invalidDateOrTimeOrNumber := by
  unfold lexicalFailures
  split
  · simp
  · simp [Failure.kind]

/-- Broken rules of one kind are all kept, or none of them is. -/
theorem filter_kind (h : ∀ failure ∈ failures, failure.kind = kind) :
    failures.filter (fun failure => keep failure.kind) = if keep kind then failures else [] := by
  by_cases hkeep : keep kind = true
  · rw [if_pos hkeep, List.filter_eq_self]
    intro failure hmem
    rw [h failure hmem, hkeep]
  · rw [if_neg hkeep, List.filter_eq_nil_iff]
    intro failure hmem
    rwa [h failure hmem]

/-- Each rule is kept or left out as a whole. -/
theorem filter_check (keep : Violation.Kind → Bool) (h : value ≠ "") :
    (check type version codes value).filter (fun failure => keep failure.kind) =
      (if keep .tooShort then checkMinLength type version value else []) ++
        (if keep .tooLong then checkMaxLength type version value else []) ++
        (if codes && keep .invalidCodeValue then checkCode type version value else []) ++
        if keep .invalidDateOrTimeOrNumber then lexicalFailures type value else [] := by
  rw [check_eq h, List.filter_append, List.filter_append, List.filter_append,
    filter_kind checkMinLength_kind, filter_kind checkMaxLength_kind,
    filter_kind lexicalFailures_kind]
  cases codes with
  | true => rw [if_pos rfl, filter_kind checkCode_kind, Bool.true_and]
  | false => rfl

/-- Empty text breaks no rule. -/
theorem check_empty : check type version codes "" = [] := by
  rw [check, if_pos rfl]

end Value

/-- For any versions checks of a value find the same, apart from constraints. -/
theorem checksAlike_unconstrained (codes codes' : Bool) :
    ChecksAlike (fun _ _ => True) (fun kind => !kind.isConstraint) codes codes' := by
  intro version version' _ type value
  by_cases hempty : value = ""
  · rw [hempty, Value.check_empty, Value.check_empty]
  · -- Of the rules on a value only the one on its lexical form is kept.
    rw [Value.filter_check (fun kind => !kind.isConstraint) hempty,
      Value.filter_check (fun kind => !kind.isConstraint) hempty]
    simp [Violation.Kind.isConstraint]

/-- For one version checks of a value find the same with and without code lists, apart from values
that are not codes. -/
theorem checksAlike_without_codes (codes codes' : Bool) :
    ChecksAlike Eq (fun kind => kind != .invalidCodeValue) codes codes' := by
  rintro version _ rfl type value
  by_cases hempty : value = ""
  · rw [hempty, Value.check_empty, Value.check_empty]
  · rw [Value.filter_check (fun kind => kind != .invalidCodeValue) hempty,
      Value.filter_check (fun kind => kind != .invalidCodeValue) hempty]
    simp

namespace Validator

variable {v v' w : Validator} {e e' : Event} {s : OpenSegment} {raw found : List Violation}
  {events events' : List Event} {version : Option String} {kind : Violation.Kind}

/-! ### Runs without code lists -/

/-- None of the findings is about a value that is not a code. -/
def CodeFree (found : List Violation) : Prop := ∀ x ∈ found, x.kind ≠ .invalidCodeValue

theorem codeFree_append {more : List Violation} :
    CodeFree (found ++ more) ↔ CodeFree found ∧ CodeFree more :=
  List.forall_mem_append

theorem codeFree_of_isSequence (h : ∀ x ∈ found, x.kind.isSequence = true) : CodeFree found := by
  intro x hx hkind
  have hsequence := h x hx
  rw [hkind] at hsequence
  cases hsequence

theorem OfValue.ne_code (h : OfValue version false kind) : kind ≠ .invalidCodeValue := by
  rintro rfl
  rcases h with h | ⟨type, value, failure, hmem, hkind⟩
  · cases h
  · by_cases hempty : value = ""
    · rw [hempty, Value.check_empty] at hmem
      cases hmem
    · -- The kinds of the rules that are checked are all others.
      rw [Value.check_eq hempty] at hmem
      simp only [Bool.false_eq_true, if_false, List.append_nil, List.mem_append] at hmem
      rcases hmem with (hmem | hmem) | hmem
      · rw [Value.checkMinLength_kind failure hmem] at hkind
        cases hkind
      · rw [Value.checkMaxLength_kind failure hmem] at hkind
        cases hkind
      · rw [Value.lexicalFailures_kind failure hmem] at hkind
        cases hkind

theorem codeFree_missingElements (s : OpenSegment) : CodeFree s.missingElements := by
  intro x hx
  rw [missingElements_kind s x hx]
  decide

theorem codeFree_advance {frames : List Frame} {t : OpenSegment} {complete : Bool}
    (h : v.advance s complete = (frames, t, found))
    (hcodes : v.config.validateCodeValues = false) : CodeFree found := by
  intro x hx
  rcases advance_kind h x hx with hkind | hkind
  · rw [hkind]
    decide
  · rw [hcodes] at hkind
    exact hkind.ne_code

/-- Nothing that an event finds is about codes when they are not checked. -/
theorem Effect.codeFree (h : Effect v e w raw) (hcodes : v.config.validateCodeValues = false) :
    CodeFree raw := by
  cases h with
  | start | mark => exact fun x hx => nomatch hx
  | take ho hs hm ht => exact codeFree_of_isSequence fun x hx => Match.take_kind ht hx
  | skip ho hs hm =>
      refine codeFree_of_isSequence fun x hx => ?_
      rw [List.mem_singleton.1 hx, Violation.Kind.isSequence, misplaced_kind, Bool.or_true]
  | value ho hs ha => exact codeFree_advance ha hcodes
  | close ho hs ha =>
      exact codeFree_append.2 ⟨codeFree_advance ha hcodes, codeFree_missingElements _⟩
  | finish ho hs =>
      exact codeFree_of_isSequence fun x hx => isSequence_of_isShortage (closeAll_kind hx)

theorem feed_codeFree (hcodes : v.config.validateCodeValues = false) (events : List Event) :
    CodeFree (v.feed events).2 := by
  induction events generalizing v with
  | nil => exact fun x hx => nomatch hx
  | cons e rest ih =>
      cases h : v.handle e with
      | error err =>
          rw [feed_of_error h]
          exact ih hcodes
      | ok r =>
          obtain ⟨w, found⟩ := r
          obtain ⟨u, raw, he, hjudged⟩ := handle_ok h
          rw [feed_of_ok h]
          refine codeFree_append.2 ⟨fun x hx => ?_, ih ?_⟩
          · rw [hjudged.1] at hx
            obtain ⟨y, hy, rfl⟩ := List.mem_map.1 hx
            exact he.codeFree hcodes y hy
          · rw [hjudged.config_eq, he.config_eq]
            exact hcodes

/-! ### Two versions -/

/-- Findings without those that depend on constraints. -/
def unconstrained (found : List Violation) : List Violation :=
  found.filter fun x => !x.kind.isConstraint

theorem matches_of_unversioned
    (h : events.map Event.unversioned = events'.map Event.unversioned) :
    List.Forall₂ (Event.Matches fun _ _ => True) events events' := by
  have hall : List.Forall₂ (· = ·) (events.map Event.unversioned)
      (events'.map Event.unversioned) := List.forall₂_eq_eq_eq ▸ h
  rw [List.forall₂_map_left_iff, List.forall₂_map_right_iff] at hall
  exact hall.imp fun _ _ => Event.matches_of_unversioned

section Runs

variable {config : Config} {codes codes' : Bool} {keep : Violation.Kind → Bool}
  {ρ : Option String → Option String → Prop}

/-- When two configurations judge alike, the findings kept are the same after judging. -/
theorem filter_of_sameFindings {found' : List Violation}
    (h : SameFindings keep (config.checking codes) (config.checking codes') found found') :
    found.filter (fun x => keep x.kind) = found'.filter fun x => keep x.kind := by
  obtain ⟨raw, raw', rfl, rfl, hraw⟩ := h
  rw [filter_judged, filter_judged, hraw]
  rfl

/-- Where nothing ends validation, runs in lockstep find the same, of the kinds kept. -/
theorem feed_filter (schema : Schema) (hc : config.NeverHalts) (hρ : ρ none none)
    (hchecks : ChecksAlike ρ keep codes codes')
    (he : List.Forall₂ (Event.Matches ρ) events events') :
    let v := Validator.feed { schema, config := config.checking codes } events
    let v' := Validator.feed { schema, config := config.checking codes' } events'
    Alike ρ v.1 v'.1 ∧ v.1.config = config.checking codes ∧
      v'.1.config = config.checking codes' ∧
      v.2.filter (fun x => keep x.kind) = v'.2.filter fun x => keep x.kind := by
  intro v v'
  obtain ⟨halike, hconfig, hconfig', hfound⟩ :=
    feed_alike he (.new hρ schema (config.checking codes) (config.checking codes')) hchecks
      (feed_not_failed (hc.checking codes) State.noConfusion events)
      (feed_not_failed (hc.checking codes') State.noConfusion events')
  exact ⟨halike, hconfig, hconfig', filter_of_sameFindings hfound⟩

/-- Where nothing ends validation, the version of a document and the check of code lists decide
only which values are too short, too long or not a code. Two runs that differ in nothing else go
through the same states with the same number of open loops, refuse the same events, and report the
same otherwise. For one version the run that does not check codes reports what the other one
reports, without the values that are not codes. -/
theorem answers_agree_unconstrained (schema : Schema) (hc : config.NeverHalts)
    (codes codes' : Bool) (h : events.map Event.unversioned = events'.map Event.unversioned) :
    let run (codes : Bool) (events : List Event) (k : Nat) :=
      Validator.feed { schema, config := config.checking codes } (events.take k)
    (∀ k, (run codes events k).1.state = (run codes' events' k).1.state ∧
      (run codes events k).1.depth = (run codes' events' k).1.depth ∧
      unconstrained (run codes events k).2 = unconstrained (run codes' events' k).2 ∧
      ∀ e e', e.unversioned = e'.unversioned →
        (run codes events k).1.answer unconstrained e =
          (run codes' events' k).1.answer unconstrained e') ∧
    ∀ k, (run false events k).2 =
      (run true events k).2.filter fun x => x.kind != .invalidCodeValue := by
  intro run
  refine ⟨fun k => ?_, fun k => ?_⟩
  · have htake : (events.take k).map Event.unversioned =
        (events'.take k).map Event.unversioned := by
      rw [List.map_take, List.map_take, h]
    have hchecks := checksAlike_unconstrained codes codes'
    obtain ⟨halike, hconfig, hconfig', hfound⟩ :=
      feed_filter schema hc trivial hchecks (matches_of_unversioned htake)
    refine ⟨halike.state_eq, congrArg List.length halike.frames_eq, hfound, fun e e' he => ?_⟩
    refine halike.answer_eq (Event.matches_of_unversioned he) (by rwa [hconfig, hconfig'])
      fun hsame => ?_
    rw [hconfig, hconfig'] at hsame
    exact filter_of_sameFindings hsame
  · have hsame : List.Forall₂ (Event.Matches Eq) (events.take k) (events.take k) :=
      List.forall₂_same.2 fun e _ => .refl (fun _ => rfl) e
    obtain ⟨-, -, -, hfound⟩ :=
      feed_filter schema hc rfl (checksAlike_without_codes false true) hsame
    -- The run without code lists has nothing to leave out.
    have hfree : CodeFree (run false events k).2 := feed_codeFree rfl (events.take k)
    have hself : (run false events k).2.filter (fun x => x.kind != .invalidCodeValue) =
        (run false events k).2 :=
      List.filter_eq_self.2 fun x hx => bne_iff_ne.2 (hfree x hx)
    exact hself.symm.trans hfound

/-- A schema with a code of at most two digits, or of five in version 2. -/
def revisedSchema : Schema where
  name := "REVISED"
  root := ⟨"ROOT", [⟨.segment ⟨"A", "A", [{ content := .simple {
    id := "E"
    kind := .integer
    maxLength := 2
    codes := ⟨[("7", "seven")]⟩
    overrides := [{ range := ⟨some "2", none⟩, maxLength := some 5 }] } }], []⟩,
    0, .unbounded⟩], []⟩
  tags := ["A"]

/-- A value that is too long, not a code and not a number is only not a number where five digits are
allowed and codes are not checked. -/
theorem answers_agree_unconstrained_revised :
    let events (version : Option String) := document version [⟨"A",
      [.element ⟨⟨1, none⟩, 0, "12x45"⟩], by simp [Event.isInside]⟩]
    let run (codes : Bool) (version : Option String) := Validator.feed
      { schema := revisedSchema, config := lenient.checking codes } ((events version).take 3)
    (run true none).2.map (·.kind) = [.tooLong, .invalidCodeValue, .invalidDateOrTimeOrNumber] ∧
      (run false (some "2")).2.map (·.kind) = [.invalidDateOrTimeOrNumber] ∧
      lenient.NeverHalts ∧
      (run true none).1.depth = (run false (some "2")).1.depth ∧
      unconstrained (run true none).2 = unconstrained (run false (some "2")).2 ∧
      (run false none).2 = (run true none).2.filter fun x => x.kind != .invalidCodeValue := by
  intro events run
  have hsame : (events none).map Event.unversioned = (events (some "2")).map Event.unversioned :=
    rfl
  obtain ⟨hpoints, hcodes⟩ :=
    answers_agree_unconstrained revisedSchema lenient_neverHalts true false hsame
  obtain ⟨-, hdepth, hfound, -⟩ := hpoints 3
  exact ⟨rfl, rfl, lenient_neverHalts, hdepth, hfound, hcodes 3⟩

end Runs

end Validator

end Interchange
