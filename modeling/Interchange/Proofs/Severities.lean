import Interchange.Proofs.Lockstep
import Interchange.Proofs.Verdict

/-!
# What a configuration changes

Apart from the check of code lists a configuration gives severities and says when validation ends.
Two validators with configurations that agree on code lists therefore run in lockstep as long as
neither has failed: they answer every event alike up to severities, and what is open is the same
(`answers_agree_until_failed`). The one that fails first has then returned the beginning of what
the other one returns.
-/

namespace Interchange

/-- A violation without the severity that it has been given. -/
def Violation.unjudged (x : Violation) : Violation := { x with severity := .error }

theorem unjudged_judge (c : Config) (x : Violation) : (c.judge x).unjudged = x.unjudged := rfl

/-- Findings without their severities. -/
def unjudged (found : List Violation) : List Violation := found.map Violation.unjudged

theorem unjudged_append (found more : List Violation) :
    unjudged (found ++ more) = unjudged found ++ unjudged more :=
  List.map_append

/-- Findings of which every kind is compared are the same up to severities. -/
theorem SameFindings.unjudged_eq {c c' : Config} {found found' : List Violation}
    (h : SameFindings (fun _ => true) c c' found found') :
    unjudged found = unjudged found' := by
  obtain ⟨raw, raw', rfl, rfl, hraw⟩ := h
  simp only [List.filter_true] at hraw
  simp only [unjudged, List.map_map, Function.comp_def, unjudged_judge, hraw]

/-- Checks of a value for one version are the same when they treat code lists alike. -/
theorem checksAlike_of_eq {codes codes' : Bool} (h : codes = codes') :
    ChecksAlike Eq (fun _ => true) codes codes' := by
  rintro version _ rfl type value
  rw [h]

namespace Validator

variable {v w : Validator} {e : Event} {events : List Event} {found : List Violation}

/-- A run that fails does so with one event, and returns nothing after it. -/
theorem feed_failed (h : (v.feed events).1.state = .failed) (hv : v.state ≠ .failed) :
    ∃ first e rest w found, events = first ++ e :: rest ∧
      (v.feed first).1.state ≠ .failed ∧ (v.feed first).1.handle e = .ok (w, found) ∧
      (v.feed events).2 = (v.feed first).2 ++ found := by
  induction events generalizing v with
  | nil => exact absurd h hv
  | cons e rest ih =>
      cases hhandle : v.handle e with
      | error err =>
          rw [feed_of_error hhandle] at h
          obtain ⟨first, e', rest', w, found, rfl, hfirst, hlast, hall⟩ := ih h hv
          refine ⟨e :: first, e', rest', w, found, rfl, ?_, ?_, ?_⟩
          · rwa [feed_of_error hhandle]
          · rwa [feed_of_error hhandle]
          · rwa [feed_of_error hhandle, feed_of_error hhandle]
      | ok r =>
          obtain ⟨w, found⟩ := r
          rw [feed_of_ok hhandle] at h
          by_cases hw : w.state = .failed
          · refine ⟨[], e, rest, w, found, rfl, hv, hhandle, ?_⟩
            rw [feed_of_ok hhandle, feed_of_failed hw, List.append_nil]
            rfl
          · obtain ⟨first, e', rest', w', found', rfl, hfirst, hlast, hall⟩ := ih h hw
            refine ⟨e :: first, e', rest', w', found', rfl, ?_, ?_, ?_⟩
            · rwa [feed_of_ok hhandle]
            · rwa [feed_of_ok hhandle]
            · rw [feed_of_ok hhandle, feed_of_ok hhandle, hall, List.append_assoc]

/-! ### Two configurations -/

section Runs

variable {schema : Schema} {c c' : Config}

/-- As long as neither run has failed the validators are alike, and what they have returned is the
same up to severities. -/
theorem feed_agree (hcodes : c.validateCodeValues = c'.validateCodeValues) (events : List Event)
    (h : (Validator.feed { schema, config := c } events).1.state ≠ .failed)
    (h' : (Validator.feed { schema, config := c' } events).1.state ≠ .failed) :
    let v := Validator.feed { schema, config := c } events
    let v' := Validator.feed { schema, config := c' } events
    Alike Eq v.1 v'.1 ∧ (∀ e, v.1.answer unjudged e = v'.1.answer unjudged e) ∧
      unjudged v.2 = unjudged v'.2 := by
  intro v v'
  have hevents : List.Forall₂ (Event.Matches Eq) events events :=
    List.forall₂_same.2 fun e _ => .refl (fun _ => rfl) e
  obtain ⟨halike, hc, hc', hfound⟩ :=
    feed_alike hevents (.new rfl schema c c') (checksAlike_of_eq hcodes) h h'
  refine ⟨halike, fun e => ?_, hfound.unjudged_eq⟩
  have hchecks := checksAlike_of_eq (show v.1.config.validateCodeValues =
    v'.1.config.validateCodeValues by rw [hc, hc']; exact hcodes)
  exact halike.answer_eq (.refl (fun _ => rfl) e) hchecks SameFindings.unjudged_eq

/-- The run that fails no later than the other returns a beginning of what the other returns. -/
theorem feed_prefix (hcodes : c.validateCodeValues = c'.validateCodeValues)
    (hfirst : ∀ k, (Validator.feed { schema, config := c' } (events.take k)).1.state = .failed →
      (Validator.feed { schema, config := c } (events.take k)).1.state = .failed) :
    unjudged (Validator.feed { schema, config := c } events).2 <+:
      unjudged (Validator.feed { schema, config := c' } events).2 := by
  by_cases hfailed : (Validator.feed { schema, config := c } events).1.state = .failed
  · obtain ⟨first, e, rest, w, found, rfl, hopen, hhandle, hall⟩ :=
      feed_failed hfailed State.noConfusion
    -- Until the event that ends the one run, the other one has not failed either.
    have hopen' : (Validator.feed { schema, config := c' } first).1.state ≠ .failed := by
      intro hf
      have hlength := hfirst first.length
      rw [List.take_left] at hlength
      exact hopen (hlength hf)
    obtain ⟨-, hanswer, hbefore⟩ := feed_agree hcodes first hopen hopen'
    have hlast := hanswer e
    rw [answer_of_ok hhandle] at hlast
    cases hhandle' : (Validator.feed { schema, config := c' } first).1.handle e with
    | error err =>
        rw [answer_of_error hhandle'] at hlast
        cases hlast
    | ok r =>
        obtain ⟨w', found'⟩ := r
        rw [answer_of_ok hhandle', Except.ok.injEq] at hlast
        rw [hall, feed_append, feed_of_ok hhandle', unjudged_append, unjudged_append,
          unjudged_append, hbefore, hlast, ← List.append_assoc]
        exact List.prefix_append _ _
  · have hopen' : (Validator.feed { schema, config := c' } events).1.state ≠ .failed := by
      intro hf
      have hlength := hfirst events.length
      rw [List.take_length] at hlength
      exact hfailed (hlength hf)
    obtain ⟨-, -, hsame⟩ := feed_agree hcodes events hfailed hopen'
    exact ⟨[], (List.append_nil _).trans hsame⟩

/-- Of two configurations that agree on code lists neither changes what is found or what is open:
as long as neither run has failed, what is open is the same, and every event is answered alike, up
to severities. So the run that fails no later than the other returns a beginning of what the other
returns. -/
theorem answers_agree_until_failed (schema : Schema)
    (hcodes : c.validateCodeValues = c'.validateCodeValues) (events : List Event) :
    let run (config : Config) (k : Nat) := Validator.feed { schema, config } (events.take k)
    (∀ k, (run c k).1.state ≠ .failed → (run c' k).1.state ≠ .failed →
      ((run c k).1.frames = (run c' k).1.frames ∧ (run c k).1.segment = (run c' k).1.segment ∧
        (run c k).1.version = (run c' k).1.version ∧
        (run c k).1.segmentCount = (run c' k).1.segmentCount) ∧
      (∀ e, (run c k).1.answer unjudged e = (run c' k).1.answer unjudged e) ∧
      unjudged (run c k).2 = unjudged (run c' k).2) ∧
    ((∀ k, (run c' k).1.state = .failed → (run c k).1.state = .failed) →
      unjudged (Validator.feed { schema, config := c } events).2 <+:
        unjudged (Validator.feed { schema, config := c' } events).2) := by
  intro run
  refine ⟨fun k h h' => ?_, feed_prefix hcodes⟩
  obtain ⟨halike, hanswer, hfound⟩ := feed_agree hcodes (events.take k) h h'
  exact ⟨⟨halike.frames_eq, halike.segment_eq, halike.version, halike.segmentCount_eq⟩,
    hanswer, hfound⟩

/-- A segment that no loop can take ends the one run, and the other one goes on to the end. Both
report it alike. -/
theorem answers_agree_until_failed_unknown :
    let run (config : Config) (k : Nat) := Validator.feed { schema := requiredSchema, config }
      ((document none [barePassage "A", barePassage "Z"]).take k)
    (run {} 6).1.state = .failed ∧ (run lenient 6).1.state = .complete ∧
      (run {} 3).1.frames = (run lenient 3).1.frames ∧
      (run {} 3).1.answer unjudged (.segmentStart "Z") =
        (run lenient 3).1.answer unjudged (.segmentStart "Z") ∧
      unjudged (run {} 6).2 <+: unjudged (run lenient 6).2 := by
  intro run
  have hnever (k : Nat) : (run lenient k).1.state ≠ .failed :=
    feed_not_failed lenient_neverHalts State.noConfusion _
  have hopen : (run {} 3).1.state ≠ .failed := by
    rw [show (run {} 3).1.state = .inInterchange from rfl]
    decide
  obtain ⟨hlock, hfirst⟩ := answers_agree_until_failed requiredSchema
    (show ({} : Config).validateCodeValues = lenient.validateCodeValues from rfl)
    (document none [barePassage "A", barePassage "Z"])
  obtain ⟨⟨hframes, -⟩, hanswer, -⟩ := hlock 3 hopen (hnever 3)
  exact ⟨rfl, rfl, hframes, hanswer _, hfirst fun k hfailed => absurd hfailed (hnever k)⟩

end Runs

end Validator

end Interchange
