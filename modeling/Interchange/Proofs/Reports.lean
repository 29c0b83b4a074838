import Mathlib.Algebra.BigOperators.Group.List.Basic
import Mathlib.Algebra.GroupWithZero.Nat
import Interchange.Proofs.Severities

/-!
# Reports on streams

The events of a document follow a simple protocol (`Place.next?`), which says what may come next
and does not look at the schema. A validator accepts what the protocol allows (`At.accepts`) and
nothing else (`Effect.progress`), as long as validation goes on.

So there is a report on a stream exactly when the events up to the one that ends validation are the
beginning of a document. The report then has every violation that was returned, the failures apart
from the others, and nothing that comes after the event that ends validation makes a difference
(`ofEvents_of_processed`).
-/

namespace Interchange

/-! ### Counting -/

namespace Report

variable {r : Report}

/-- Kinds that do not occur add nothing. -/
theorem sum_filter_pos (counts : List (Violation.Kind × Nat)) :
    ((counts.filter (0 < ·.2)).map (·.2)).sum = (counts.map (·.2)).sum := by
  induction counts with
  | nil => rfl
  | cons entry rest ih =>
      by_cases h : 0 < entry.2
      · simp [h, ih]
      · simp [ih, Nat.eq_zero_of_not_pos h]

/-- Every violation is of one kind. -/
theorem sum_countP_kind (found : List Violation) :
    (Violation.Kind.all.map fun kind => found.countP (·.kind == kind)).sum = found.length := by
  induction found with
  | nil => rfl
  | cons x rest ih =>
      have hone : (Violation.Kind.all.map fun kind => if x.kind == kind then 1 else 0).sum = 1 := by
        cases x.kind <;> rfl
      simp only [List.countP_cons, List.sum_map_add, ih, hone, List.length_cons]

theorem sum_countByKind (r : Report) : (r.countByKind.map (·.2)).sum = r.violations.length := by
  rw [countByKind, sum_filter_pos, List.map_map]
  exact sum_countP_kind r.violations

/-- The two groups of a report are all that has been recorded. -/
theorem length_violations_record (found : List Violation) :
    (({} : Report).record found).violations.length = found.length := by
  rw [violations, errors_record, warnings_record, List.nil_append, List.nil_append,
    List.length_append]
  exact (List.length_eq_length_filter_add fun x : Violation => x.severity.isFailure).symm

end Report

/-! ### The protocol of events -/

/-- Where the events of a document have got to. -/
inductive Place where
  /-- The interchange has not started. -/
  | before
  /-- Between two segments. -/
  | between
  /-- Inside a segment. -/
  | inside
  /-- The interchange has ended. -/
  | after
  deriving DecidableEq, Repr

namespace Place

/-- The place after one more event, where that event may come. -/
def next? : Place → Event → Option Place
  | before, .interchangeStart _ => some between
  | between, .segmentStart _ => some inside
  | between, .interchangeEnd => some after
  | inside, .segmentEnd => some between
  | inside, .compositeStart _ _ | inside, .compositeEnd _ _ | inside, .element _ => some inside
  | _, _ => none

/-- The place after some more events. -/
def follow? (p : Place) (events : List Event) : Option Place := events.foldlM next? p

theorem follow?_append (p : Place) (first rest : List Event) :
    p.follow? (first ++ rest) = (p.follow? first).bind fun q => q.follow? rest :=
  List.foldlM_append

theorem follow?_body {body : List Event} (h : ∀ e ∈ body, e.isInside = true) :
    inside.follow? body = some inside := by
  induction body with
  | nil => rfl
  | cons e rest ih =>
      obtain ⟨he, hrest⟩ := List.forall_mem_cons.1 h
      have hnext : inside.next? e = some inside := by
        cases e with
        | compositeStart | compositeEnd | element => rfl
        | interchangeStart | segmentStart | segmentEnd | interchangeEnd => cases he
      rw [follow?, List.foldlM_cons, hnext]
      exact ih hrest

theorem follow?_passage (p : Passage) : between.follow? p.events = some between := by
  change inside.follow? (p.body ++ [.segmentEnd]) = some between
  rw [follow?_append, follow?_body p.inside]
  rfl

theorem follow?_passages (doc : List Passage) :
    between.follow? (doc.flatMap Passage.events) = some between := by
  induction doc with
  | nil => rfl
  | cons p doc ih =>
      rw [List.flatMap_cons, follow?_append, follow?_passage]
      exact ih

theorem follow?_document (version : Option String) (doc : List Passage) :
    before.follow? (document version doc) = some after := by
  change between.follow? (doc.flatMap Passage.events ++ [.interchangeEnd]) = some after
  rw [follow?_append, follow?_passages]
  rfl

/-- What may come in a document may come next. -/
theorem next?_of_prefix {version : Option String} {doc : List Passage} {first rest : List Event}
    {e : Event} {p : Place} (hp : before.follow? first = some p)
    (h : first ++ e :: rest <+: document version doc) : ∃ q, p.next? e = some q := by
  obtain ⟨others, hothers⟩ := h
  have hend := follow?_document version doc
  rw [← hothers, List.append_assoc, follow?_append, hp] at hend
  cases hnext : p.next? e with
  | some q => exact ⟨q, rfl⟩
  | none =>
      rw [Option.bind_some, List.cons_append, follow?, List.foldlM_cons, hnext] at hend
      cases hend

end Place

namespace Validator

variable {schema : Schema} {config : Config} {v w : Validator} {e : Event} {r : Report}
  {events read rest more first : List Event} {found raw : List Violation}

/-- A validator is at a place of a document. -/
inductive At (v : Validator) : Place → Prop
  | before (hv : v.state = .awaitingInterchange) : At v .before
  | between (ho : v.IsOpen) (hs : v.segment = none) : At v .between
  | inside {s : OpenSegment} (ho : v.IsOpen) (hs : v.segment = some s) : At v .inside
  | after (hv : v.state = .complete) : At v .after

/-- What may come next is accepted. -/
theorem At.accepts {p q : Place} (h : v.At p) (hnext : p.next? e = some q) :
    ∃ w raw, Effect v e w raw := by
  cases h with
  | before hv =>
      cases e <;> cases hnext
      exact ⟨_, _, .start hv⟩
  | between ho hs =>
      cases e <;> cases hnext
      · rename_i tag
        cases hm : locate? tag v.frames with
        | none => exact ⟨_, _, .skip ho hs hm⟩
        | some m => exact ⟨_, _, .take ho hs hm rfl⟩
      · exact ⟨_, _, .finish ho hs⟩
  | inside ho hs =>
      cases e <;> cases hnext
      · exact ⟨_, _, .mark ho hs rfl rfl⟩
      · exact ⟨_, _, .value ho hs rfl⟩
      · exact ⟨_, _, .mark ho hs rfl rfl⟩
      · exact ⟨_, _, .close ho hs rfl⟩
  | after => cases e <;> cases hnext

namespace Progress

/-- What has been read leads to the place of the validator. -/
theorem place (h : Progress v events) : ∃ p, v.At p ∧ Place.before.follow? events = some p := by
  cases h with
  | before hv => exact ⟨_, .before hv, rfl⟩
  | between ho hs => exact ⟨_, .between ho hs, Place.follow?_passages _⟩
  | @inside _ doc tag body _ ho hs hbody =>
      refine ⟨_, .inside ho hs, ?_⟩
      change Place.between.follow? (doc.flatMap Passage.events ++ .segmentStart tag :: body) = _
      rw [Place.follow?_append, Place.follow?_passages]
      exact Place.follow?_body hbody
  | ended hv => exact ⟨_, .after hv, Place.follow?_document _ _⟩

/-- An event that continues a document is accepted. -/
theorem accepts {version : Option String} {doc : List Passage} (h : Progress v read)
    (hbegins : read ++ e :: rest <+: document version doc) : ∃ w raw, Effect v e w raw := by
  obtain ⟨p, hat, hfollow⟩ := h.place
  obtain ⟨q, hnext⟩ := Place.next?_of_prefix hfollow hbegins
  exact hat.accepts hnext

/-- What has been read is the beginning of a document. -/
theorem exists_document (h : Progress v events) :
    ∃ version doc, events <+: document version doc := by
  by_cases hv : v.state = .complete
  · obtain ⟨version, doc, rfl⟩ := h.complete_iff.1 hv
    exact ⟨version, doc, List.prefix_refl _⟩
  · obtain ⟨rest, version, doc, -, hdoc⟩ := h.cut hv
    exact ⟨version, doc, rest, hdoc⟩

/-- The number of errors says nothing about what has been read. -/
theorem withErrors (h : Progress v events) (errors : Nat) :
    Progress { v with errorCount := errors } events := by
  cases h with
  | before hv hs => exact .before hv hs
  | between ho hs => exact .between ho hs
  | inside ho hs hbody => exact .inside ho hs hbody
  | ended hv => exact .ended hv

end Progress

/-! ### The events that are read -/

/-- The events up to the first that makes validation fail, that one included. -/
def processed (v : Validator) : List Event → List Event
  | [] => []
  | e :: rest =>
      match v.handle e with
      | .error _ => e :: v.processed rest
      | .ok (w, _) => if w.state = .failed then [e] else e :: w.processed rest

theorem processed_of_error {err : Error} (h : v.handle e = .error err) :
    v.processed (e :: rest) = e :: v.processed rest := by
  rw [processed, h]

theorem processed_of_failed (h : v.handle e = .ok (w, found)) (hw : w.state = .failed) :
    v.processed (e :: rest) = [e] := by
  rw [processed, h]
  exact if_pos hw

theorem processed_of_ok (h : v.handle e = .ok (w, found)) (hw : w.state ≠ .failed) :
    v.processed (e :: rest) = e :: w.processed rest := by
  rw [processed, h]
  exact if_neg hw

/-- They are the beginning of the stream. -/
theorem processed_begins (v : Validator) (events : List Event) : v.processed events <+: events := by
  induction v, events using processed.induct with
  | case1 => exact List.prefix_refl []
  | case2 v e rest err h ih =>
      rw [processed_of_error h]
      exact List.cons_prefix_cons.2 ⟨rfl, ih⟩
  | case3 v e rest w found h hw =>
      rw [processed_of_failed h hw]
      exact List.cons_prefix_cons.2 ⟨rfl, List.nil_prefix⟩
  | case4 v e rest w found h hw ih =>
      rw [processed_of_ok h hw]
      exact List.cons_prefix_cons.2 ⟨rfl, ih⟩

/-- They are the whole stream unless validation fails. -/
theorem processed_eq_self (h : (v.feed (v.processed events)).1.state ≠ .failed) :
    v.processed events = events := by
  induction v, events using processed.induct with
  | case1 => rfl
  | case2 v e rest err hhandle ih =>
      rw [processed_of_error hhandle] at h ⊢
      rw [feed_of_error hhandle] at h
      rw [ih h]
  | case3 v e rest w found hhandle hw =>
      rw [processed_of_failed hhandle hw, feed_of_ok hhandle] at h
      exact absurd hw h
  | case4 v e rest w found hhandle hw ih =>
      rw [processed_of_ok hhandle hw] at h ⊢
      rw [feed_of_ok hhandle] at h
      rw [ih h]

/-- Before the last of them validation has not failed. -/
theorem feed_before_processed (hv : v.state ≠ .failed) (h : first <+: v.processed events)
    (hne : first ≠ v.processed events) : (v.feed first).1.state ≠ .failed := by
  induction v, events using processed.induct generalizing first with
  | case1 =>
      rw [processed, List.prefix_nil] at h
      exact absurd h hne
  | case2 v e rest err hhandle ih =>
      rw [processed_of_error hhandle] at h hne
      rcases List.prefix_cons_iff.1 h with rfl | ⟨first, rfl, hfirst⟩
      · exact hv
      · rw [feed_of_error hhandle]
        exact ih hv hfirst fun heq => hne (by rw [heq])
  | case3 v e rest w found hhandle hw =>
      rw [processed_of_failed hhandle hw] at h hne
      rcases List.prefix_cons_iff.1 h with rfl | ⟨first, rfl, hfirst⟩
      · exact hv
      · exact absurd (by rw [List.prefix_nil.1 hfirst]) hne
  | case4 v e rest w found hhandle hw ih =>
      rw [processed_of_ok hhandle hw] at h hne
      rcases List.prefix_cons_iff.1 h with rfl | ⟨first, rfl, hfirst⟩
      · exact hv
      · rw [feed_of_ok hhandle]
        exact ih hw hfirst fun heq => hne (by rw [heq])

theorem readAll_of_error {err : Error} (h : v.handle e = .error err) (r : Report) :
    v.readAll r (e :: rest) = .error err := by
  rw [readAll, h]
  rfl

theorem readAll_of_failed (h : v.handle e = .ok (w, found)) (hw : w.state = .failed) (r : Report) :
    v.readAll r (e :: rest) = .ok (w, r.record found) := by
  rw [readAll, h]
  exact if_pos hw

theorem readAll_of_ok (h : v.handle e = .ok (w, found)) (hw : w.state ≠ .failed) (r : Report) :
    v.readAll r (e :: rest) = w.readAll (r.record found) rest := by
  rw [readAll, h]
  exact if_neg hw

/-- What comes after an event that makes validation fail is not read. -/
theorem readAll_processed_append (hv : v.state ≠ .failed)
    (h : (v.feed (v.processed events)).1.state = .failed) (r : Report) (more : List Event) :
    v.readAll r (v.processed events ++ more) = v.readAll r events := by
  induction v, events using processed.induct generalizing r with
  | case1 => exact absurd h hv
  | case2 v e rest err hhandle =>
      rw [processed_of_error hhandle, List.cons_append, readAll_of_error hhandle,
        readAll_of_error hhandle]
  | case3 v e rest w found hhandle hw =>
      rw [processed_of_failed hhandle hw, List.cons_append, readAll_of_failed hhandle hw,
        readAll_of_failed hhandle hw]
  | case4 v e rest w found hhandle hw ih =>
      rw [processed_of_ok hhandle hw] at h ⊢
      rw [feed_of_ok hhandle] at h
      rw [List.cons_append, readAll_of_ok hhandle hw, readAll_of_ok hhandle hw]
      exact ih hw h _

/-- Events are read to the end or to the one that makes validation fail, and then they continue a
document; or one of them is refused, and then they do not. -/
theorem readAll_cases (hp : Progress v read) (r : Report) (events : List Event) :
    (∃ w found, v.handleAll (v.processed events) = .ok (w, found) ∧
      v.readAll r events = .ok (w, r.record found) ∧
        ∃ version doc, read ++ v.processed events <+: document version doc) ∨
    ((∃ err, v.readAll r events = .error err) ∧
      ∀ version doc, ¬ read ++ v.processed events <+: document version doc) := by
  induction v, events using processed.induct generalizing r read with
  | case1 v =>
      refine .inl ⟨v, [], rfl, rfl, ?_⟩
      rw [processed, List.append_nil]
      exact hp.exists_document
  | case2 v e rest err hhandle =>
      refine .inr ⟨⟨err, readAll_of_error hhandle r⟩, fun version doc hbegins => ?_⟩
      rw [processed_of_error hhandle] at hbegins
      obtain ⟨w, raw, heffect⟩ := hp.accepts hbegins
      obtain ⟨w, found, hok, -⟩ := heffect.handle
      rw [hhandle] at hok
      cases hok
  | case3 v e rest w found hhandle hw =>
      obtain ⟨u, raw, heffect, -⟩ := handle_ok hhandle
      rw [processed_of_failed hhandle hw]
      refine .inl ⟨w, found, ?_, readAll_of_failed hhandle hw r,
        (heffect.progress hp).exists_document⟩
      exact handleAll_cons_eq_ok.2 ⟨w, found, [], hhandle, rfl, (List.append_nil found).symm⟩
  | case4 v e rest w found hhandle hw ih =>
      obtain ⟨u, raw, heffect, hjudged⟩ := handle_ok hhandle
      have hread : Progress w (read ++ [e]) := by
        rw [hjudged.eq_of_not_failed hw]
        exact (heffect.progress hp).withErrors _
      rw [processed_of_ok hhandle hw, readAll_of_ok hhandle hw, List.append_cons]
      rcases ih hread (r.record found) with ⟨u, more, hall, hrest, hdoc⟩ | hrefused
      · refine .inl ⟨u, found ++ more, ?_, ?_, hdoc⟩
        · exact handleAll_cons_eq_ok.2 ⟨w, found, more, hhandle, hall, rfl⟩
        · rw [hrest, Report.record_append]
      · exact .inr hrefused

/-! ### Reports -/

theorem ofEvents_of_readAll (h : ({ schema, config } : Validator).readAll {} events = .ok (w, r)) :
    Report.ofEvents schema config events = .ok (r.finish w.state) :=
  bind_eq_ok.2 ⟨(w, r), h, rfl⟩

/-- A stream is read up to the first event that makes validation fail. There is a report on it
unless what is read does not begin a document. The report has what a new validator returns for the
events that are read, the failures as errors and the others as warnings, each group in its order,
and the state of that validator. What comes after an event that makes validation fail makes no
difference. -/
theorem ofEvents_of_processed (schema : Schema) (config : Config) (events : List Event) :
    let new : Validator := { schema, config }
    let part := new.processed events
    (part <+: events ∧ ((new.feed part).1.state ≠ .failed → part = events) ∧
      ∀ first, first <+: part → first ≠ part → (new.feed first).1.state ≠ .failed) ∧
    ((∃ err, Report.ofEvents schema config events = .error err) ↔
      ¬ ∃ version doc, part <+: document version doc) ∧
    ((∃ version doc, part <+: document version doc) →
      ∃ w found r, new.handleAll part = .ok (w, found) ∧
        Report.ofEvents schema config events = .ok r ∧
        r.errors = found.filter (·.severity.isFailure) ∧
        r.warnings = found.filter (!·.severity.isFailure) ∧
        (r.isValid = true ↔ r.errors = []) ∧
        (r.countByKind.map (·.2)).sum = found.length ∧ r.state = w.state) ∧
    ((new.feed part).1.state = .failed → ∀ more,
      Report.ofEvents schema config (part ++ more) = Report.ofEvents schema config events) := by
  intro new part
  have hnew : new.state ≠ .failed := State.noConfusion
  refine ⟨⟨processed_begins new events, processed_eq_self, fun first h hne =>
    feed_before_processed hnew h hne⟩, ?_, ?_, fun hfailed more => ?_⟩
  · rcases readAll_cases (v := new) (.before rfl rfl) {} events with
      ⟨w, found, -, hread, hdoc⟩ | ⟨⟨err, hread⟩, hdoc⟩
    · constructor
      · rintro ⟨err, herr⟩
        rw [ofEvents_of_readAll hread] at herr
        cases herr
      · exact fun hnot => absurd hdoc hnot
    · refine ⟨fun _ ⟨version, doc, hbegins⟩ => hdoc version doc hbegins, fun _ => ⟨err, ?_⟩⟩
      exact bind_eq_error.2 (.inl hread)
  · rintro ⟨version, doc, hbegins⟩
    rcases readAll_cases (v := new) (.before rfl rfl) {} events with
      ⟨w, found, hall, hread, -⟩ | ⟨-, hdoc⟩
    · refine ⟨w, found, _, hall, ofEvents_of_readAll hread, ?_, ?_, List.isEmpty_iff, ?_, rfl⟩
      · exact Report.errors_record {} found
      · exact Report.warnings_record {} found
      · rw [Report.sum_countByKind]
        exact Report.length_violations_record found
    · exact absurd hbegins (hdoc version doc)
  · unfold Report.ofEvents
    rw [readAll_processed_append hnew hfailed]

/-- A segment that no loop can take ends validation. Neither the rest of the document makes a
difference nor events that have no place. -/
theorem ofEvents_of_processed_unknown :
    let events := document none [barePassage "A", barePassage "Z"]
    let part := ({ schema := requiredSchema, config := {} } : Validator).processed events
    part = events.take 4 ∧ (∃ version doc, part <+: document version doc) ∧
      ∃ r, Report.ofEvents requiredSchema {} events = .ok r ∧
        r.errors.map (·.kind) = [.segmentNotInSchema] ∧ r.warnings = [] ∧ r.state = .failed ∧
        (r.countByKind.map (·.2)).sum = 1 ∧
        Report.ofEvents requiredSchema {} (part ++ [.segmentStart "A", .interchangeStart none]) =
          .ok r := by
  intro events part
  have hpart : part = events.take 4 := rfl
  have hbegins : ∃ version doc, part <+: document version doc :=
    ⟨none, _, by rw [hpart]; exact List.take_prefix 4 events⟩
  obtain ⟨-, -, hreport, happend⟩ := ofEvents_of_processed requiredSchema {} events
  obtain ⟨w, found, r, hall, hr, herrors, hwarnings, -, hcount, hstate⟩ := hreport hbegins
  obtain ⟨w', found', hall', hkinds, hfailures, hfailed⟩ : ∃ w' found',
      ({ schema := requiredSchema, config := {} } : Validator).handleAll part = .ok (w', found') ∧
        found'.map (·.kind) = [.segmentNotInSchema] ∧
        found'.filter (!·.severity.isFailure) = [] ∧ w'.state = .failed :=
    ⟨_, _, rfl, rfl, rfl, rfl⟩
  obtain ⟨rfl, rfl⟩ := Prod.mk.inj (Except.ok.inj (hall.symm.trans hall'))
  have hlength : found.length = 1 := by
    rw [← List.length_map (·.kind), hkinds]
    rfl
  refine ⟨hpart, hbegins, r, hr, ?_, hwarnings.trans hfailures, hstate.trans hfailed,
    hcount.trans hlength, ?_⟩
  · have hnone := List.filter_eq_nil_iff.1 hfailures
    rw [herrors, List.filter_eq_self.2 fun x hx => by simpa using hnone x hx, hkinds]
  · rw [happend rfl, hr]

end Validator

end Interchange
