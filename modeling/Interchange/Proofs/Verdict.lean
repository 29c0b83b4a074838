import Interchange.Proofs.Ledger
import Interchange.Report

/-!
# What a valid report says

A report is valid when no finding is a failure. Nothing can end validation then, and every event
has been read (`readAll_clean`). What has been read is a document or the beginning of one
(`Progress`).

So a valid report in the state complete is that of a whole document, and everything that is
missing from it has been reported (`valid_report`). The state matters: a stream that is cut off
can have a valid report as well, see `valid_of_cut`.
-/

namespace Interchange

namespace Report

variable {r : Report}

theorem errors_record (r : Report) (found : List Violation) :
    (r.record found).errors = r.errors ++ found.filter (·.severity.isFailure) := by
  unfold record
  induction found generalizing r with
  | nil => simp
  | cons x rest ih =>
      rw [List.foldl_cons, ih, add]
      cases hx : x.severity.isFailure <;> simp [hx]

theorem warnings_record (r : Report) (found : List Violation) :
    (r.record found).warnings = r.warnings ++ found.filter (!·.severity.isFailure) := by
  unfold record
  induction found generalizing r with
  | nil => simp
  | cons x rest ih =>
      rw [List.foldl_cons, ih, add]
      cases hx : x.severity.isFailure <;> simp [hx]

theorem record_append (r : Report) (found more : List Violation) :
    r.record (found ++ more) = (r.record found).record more :=
  List.foldl_append

end Report

namespace Validator

variable {schema : Schema} {config : Config} {v v' w : Validator} {e : Event} {r r' : Report}
  {events rest : List Event} {found raw : List Violation}

/-! ### Runs without failures -/

/-- None of the findings makes a document invalid. -/
def Clean (found : List Violation) : Prop := ∀ x ∈ found, x.severity.isFailure = false

theorem judge_clean (hc : Clean (w.judge raw).2) (hw : w.errorCount = 0) :
    w.judge raw = (w, raw.map w.config.judge) := by
  have hfound : (w.judge raw).2 = raw.map w.config.judge := (judged_judge w raw).1
  rw [hfound] at hc
  have hcount : (raw.map w.config.judge).countP (·.severity.isFailure) = 0 :=
    List.countP_eq_zero.2 fun x hx => by simp [hc x hx]
  have hfatal : (raw.map w.config.judge).any (·.isFatal) = false := by
    rw [List.any_eq_false]
    intro x hx hfatal
    have hclean := hc x hx
    rw [eq_of_beq hfatal] at hclean
    cases hclean
  have hself : { w with errorCount := 0 } = w := by rw [← hw]
  unfold judge
  dsimp only
  rw [hfatal, hcount, hw, Nat.add_zero, hself, if_neg]
  simp
  omega

/-- An accepted event whose findings are clean has its effect and no other. -/
theorem handle_clean (h : v.handle e = .ok (v', found)) (hc : Clean found)
    (hv : v.errorCount = 0) :
    ∃ raw, Effect v e v' raw ∧ found = raw.map v.config.judge := by
  obtain ⟨w, raw, he, hjudge | ⟨rfl, rfl, rfl⟩⟩ := handle_judge h
  · rw [← he.errorCount_eq] at hv
    have hclean : w.judge raw = (w, raw.map w.config.judge) := judge_clean (by rwa [hjudge]) hv
    rw [hjudge, he.config_eq] at hclean
    cases hclean
    exact ⟨raw, he, rfl⟩
  · exact ⟨[], he, rfl⟩

/-- Reading on adds to the report. -/
theorem readAll_record (h : v.readAll r events = .ok (w, r')) : ∃ found, r' = r.record found := by
  induction events generalizing v r with
  | nil =>
      cases h
      exact ⟨[], rfl⟩
  | cons e rest ih =>
      rw [readAll] at h
      obtain ⟨⟨v₁, first⟩, -, h⟩ := bind_eq_ok.1 h
      dsimp only at h
      split at h
      · cases h
        exact ⟨first, rfl⟩
      · obtain ⟨more, rfl⟩ := ih h
        exact ⟨first ++ more, (r.record_append first more).symm⟩

/-- The first event of a run that is not refused. -/
theorem readAll_cons (h : v.readAll r (e :: rest) = .ok (w, r')) :
    ∃ v₁ first, v.handle e = .ok (v₁, first) ∧
      (v₁.state ≠ .failed → v₁.readAll (r.record first) rest = .ok (w, r')) ∧
      ∃ more, r' = (r.record first).record more := by
  rw [readAll] at h
  obtain ⟨⟨v₁, first⟩, hhandle, h⟩ := bind_eq_ok.1 h
  dsimp only at h
  refine ⟨v₁, first, hhandle, ?_⟩
  split at h
  · rename_i hfailed
    cases h
    exact ⟨fun hne => absurd hfailed hne, [], rfl⟩
  · exact ⟨fun _ => h, readAll_record h⟩

/-- A run at whose end the report has no errors has read every event, and nothing has ended
validation. -/
theorem readAll_clean (h : v.readAll r events = .ok (w, r')) (hr : r'.errors = [])
    (hv : v.errorCount = 0) :
    ∃ raw, Effects v events w raw ∧ v.feed events = (w, raw.map v.config.judge) ∧
      r' = r.record (raw.map v.config.judge) := by
  induction events generalizing v r with
  | nil =>
      cases h
      exact ⟨[], .nil _, rfl, rfl⟩
  | cons e rest ih =>
      obtain ⟨v₁, first, hhandle, hrest, others, hrecord⟩ := readAll_cons h
      have hclean : Clean first := by
        rw [hrecord, Report.errors_record, Report.errors_record, List.append_eq_nil_iff,
          List.append_eq_nil_iff] at hr
        exact fun x hx => by simpa using List.filter_eq_nil_iff.1 hr.1.2 x hx
      obtain ⟨raw, he, rfl⟩ := handle_clean hhandle hclean hv
      obtain ⟨more, heffects, hfeed, rfl⟩ :=
        ih (hrest he.not_failed) (he.errorCount_eq.trans hv)
      rw [he.config_eq] at hfeed ⊢
      refine ⟨raw ++ more, .cons he heffects, ?_, ?_⟩
      · rw [feed, hhandle]
        dsimp only
        rw [hfeed, List.map_append]
      · rw [List.map_append, Report.record_append]

/-! ### What has been read -/

/-- How far a validator is in the events that it has read. -/
inductive Progress (v : Validator) : List Event → Prop
  | before (hv : v.state = .awaitingInterchange) (hs : v.segment = none) : Progress v []
  | between {version : Option String} {doc : List Passage} (ho : v.IsOpen)
      (hs : v.segment = none) :
      Progress v (.interchangeStart version :: doc.flatMap Passage.events)
  | inside {version : Option String} {doc : List Passage} {tag : String} {body : List Event}
      {s : OpenSegment} (ho : v.IsOpen) (hs : v.segment = some s)
      (hbody : ∀ e ∈ body, e.isInside = true) :
      Progress v (.interchangeStart version :: (doc.flatMap Passage.events ++
        .segmentStart tag :: body))
  | ended {version : Option String} {doc : List Passage} (hv : v.state = .complete) :
      Progress v (document version doc)

namespace Progress

theorem nothing (h : Progress v events) (hv : v.state = .awaitingInterchange) :
    events = [] ∧ v.segment = none := by
  cases h with
  | before _ hs => exact ⟨rfl, hs⟩
  | between ho => exact absurd hv ho.started
  | inside ho => exact absurd hv ho.started
  | ended hc =>
      rw [hv] at hc
      cases hc

/-- A validator that is between two segments has read some. -/
theorem segments (h : Progress v events) (ho : v.IsOpen) (hs : v.segment = none) :
    ∃ (version : Option String) (doc : List Passage),
      events = .interchangeStart version :: doc.flatMap Passage.events := by
  cases h with
  | before hv => exact absurd hv ho.started
  | between => exact ⟨_, _, rfl⟩
  | inside _ hs' => rw [hs] at hs'; cases hs'
  | ended hv => exact absurd hv ho.not_complete

/-- One that is inside a segment has read the start of it. -/
theorem start {s : OpenSegment} (h : Progress v events) (ho : v.IsOpen)
    (hs : v.segment = some s) :
    ∃ (version : Option String) (doc : List Passage) (tag : String) (body : List Event),
      (∀ e ∈ body, e.isInside = true) ∧ events = .interchangeStart version ::
        (doc.flatMap Passage.events ++ .segmentStart tag :: body) := by
  cases h with
  | before _ hs' => rw [hs] at hs'; cases hs'
  | between _ hs' => rw [hs] at hs'; cases hs'
  | inside _ _ hbody => exact ⟨_, _, _, _, hbody, rfl⟩
  | ended hv => exact absurd hv ho.not_complete

end Progress

theorem Effect.progress (h : Effect v e w raw) (hp : Progress v events) :
    Progress w (events ++ [e]) := by
  have tagged {tag : String} (ho : v.IsOpen) (hs : v.segment = none) {w : Validator}
      {s : OpenSegment} (hw : w.IsOpen) (hws : w.segment = some s) :
      Progress w (events ++ [.segmentStart tag]) := by
    obtain ⟨version, doc, rfl⟩ := hp.segments ho hs
    exact .inside hw hws fun e he => nomatch he
  have inside {s : OpenSegment} (ho : v.IsOpen) (hs : v.segment = some s)
      (he : e.isInside = true) {w : Validator} {t : OpenSegment} (hw : w.IsOpen)
      (hws : w.segment = some t) : Progress w (events ++ [e]) := by
    obtain ⟨version, doc, tag, body, hbody, rfl⟩ := hp.start ho hs
    rw [List.cons_append, List.append_assoc, List.cons_append]
    refine .inside hw hws (List.forall_mem_append.2 ⟨hbody, ?_⟩)
    exact fun x hx => by rwa [List.mem_singleton.1 hx]
  cases h with
  | @start version hw =>
      obtain ⟨rfl, hs⟩ := hp.nothing hw
      exact @Progress.between _ version [] (.inl rfl) hs
  | take ho hs => exact tagged ho hs (isOpen_stateOf _ _ rfl) rfl
  | skip ho hs => exact tagged ho hs (isOpen_stateOf _ _ rfl) rfl
  | mark ho hs hi => exact inside ho hs hi ho hs
  | value ho hs => exact inside ho hs rfl ho rfl
  | close ho hs =>
      obtain ⟨version, doc, tag, body, hbody, rfl⟩ := hp.start ho hs
      have hread : Event.interchangeStart version :: (doc.flatMap Passage.events ++
          .segmentStart tag :: body) ++ [.segmentEnd] =
          .interchangeStart version :: (doc ++ [(⟨tag, body, hbody⟩ : Passage)]).flatMap
            Passage.events := by
        simp [Passage.events]
      rw [hread]
      exact .between ho rfl
  | finish ho hs =>
      obtain ⟨version, doc, rfl⟩ := hp.segments ho hs
      exact .ended rfl

theorem Effects.progress {read : List Event} (h : Effects v events w raw)
    (hp : Progress v read) : Progress w (read ++ events) := by
  induction h generalizing read with
  | nil =>
      rw [List.append_nil]
      exact hp
  | cons he _ ih =>
      have hrest := ih (he.progress hp)
      rwa [List.append_assoc] at hrest

theorem end_not_mem_events (p : Passage) : Event.interchangeEnd ∉ p.events := by
  unfold Passage.events
  intro h
  rcases List.mem_cons.1 h with h | h
  · cases h
  · rcases List.mem_append.1 h with h | h
    · have hinside := p.inside _ h
      cases hinside
    · cases List.mem_singleton.1 h

theorem end_not_mem_passages (doc : List Passage) :
    Event.interchangeEnd ∉ doc.flatMap Passage.events := by
  intro h
  obtain ⟨p, -, hp⟩ := List.mem_flatMap.1 h
  exact end_not_mem_events p hp

namespace Progress

theorem not_failed (h : Progress v events) : v.state ≠ .failed := by
  cases h with
  | before hv | ended hv =>
      rw [hv]
      decide
  | between ho | inside ho => exact ho.not_failed

/-- The end of an interchange is read last. -/
theorem complete_of_end (h : Progress v events) (hend : Event.interchangeEnd ∈ events) :
    v.state = .complete := by
  cases h with
  | before => cases hend
  | between =>
      rcases List.mem_cons.1 hend with h | h
      · cases h
      · exact absurd h (end_not_mem_passages _)
  | inside _ _ hbody =>
      rcases List.mem_cons.1 hend with h | h
      · cases h
      · rcases List.mem_append.1 h with h | h
        · exact absurd h (end_not_mem_passages _)
        · rcases List.mem_cons.1 h with h | h
          · cases h
          · have hinside := hbody _ h
            cases hinside
  | ended hv => exact hv

/-- What has been read is a document when the interchange is over, and only then. -/
theorem complete_iff (h : Progress v events) :
    v.state = .complete ↔ ∃ version doc, events = document version doc := by
  constructor
  · intro hv
    cases h with
    | before hw => rw [hv] at hw; cases hw
    | between ho => exact absurd hv ho.not_complete
    | inside ho => exact absurd hv ho.not_complete
    | ended => exact ⟨_, _, rfl⟩
  · rintro ⟨version, doc, rfl⟩
    exact h.complete_of_end (by simp [document])

/-- Otherwise it is the beginning of one. -/
theorem cut (h : Progress v events) (hv : v.state ≠ .complete) :
    ∃ rest version doc, rest ≠ [] ∧ events ++ rest = document version doc := by
  cases h with
  | before =>
      exact ⟨document none [], none, [], List.cons_ne_nil _ _, rfl⟩
  | @between version doc =>
      exact ⟨[.interchangeEnd], version, doc, List.cons_ne_nil _ _, rfl⟩
  | @inside version doc tag body s _ _ hbody =>
      refine ⟨[.segmentEnd, .interchangeEnd], version, doc ++ [⟨tag, body, hbody⟩],
        List.cons_ne_nil _ _, ?_⟩
      simp [document, Passage.events]
  | ended hc => exact absurd hc hv

end Progress

/-! ### Valid reports -/

/-- In a run to the end of an interchange every occurrence of a loop is over, and what is missing
from them has been reported. -/
theorem Balanced.settled {g : Ledger} (h : Balanced v g raw) (hv : v.state = .complete) :
    g.current = [] ∧ g.closed.length = g.log.countP (·.child.isLoop) + 1 ∧
      ((raw.filter (·.kind.isShortage)).map placeless).Perm
        (g.closed.flatMap Account.shortages) := by
  obtain ⟨hframes, hcurrent⟩ := h.over hv
  refine ⟨hcurrent, ?_, ?_⟩
  · have hcensus := h.census
    rw [hv, if_neg (by decide), hcurrent] at hcensus
    exact hcensus
  · have hshortages := h.shortages
    rwa [hframes, List.flatMap_nil, List.append_nil] at hshortages

/-- A valid report in the state complete is that of a whole document: every occurrence of a loop
that was opened is over, and each of its children that occurred too few times has been reported,
as a warning. In any other state the stream ends before its document does. -/
theorem valid_report (hb : schema.Bound) (h : Report.ofEvents schema config events = .ok r)
    (hvalid : r.isValid = true) :
    let ledger := Ledger.after {} { schema, config } events
    (r.state = .complete ↔ ∃ version doc, events = document version doc) ∧
      (r.state = .complete → ledger.current = [] ∧
        ledger.closed.length = ledger.log.countP (·.child.isLoop) + 1 ∧
        ((r.warnings.filter (·.kind.isShortage)).map placeless).Perm
          (ledger.closed.flatMap Account.shortages)) ∧
      (r.state ≠ .complete → r.state ≠ .failed ∧
        ∃ rest version doc, rest ≠ [] ∧ events ++ rest = document version doc) := by
  intro ledger
  obtain ⟨⟨v, report⟩, hread, h⟩ := bind_eq_ok.1 h
  cases h
  have herrors : report.errors = [] := List.isEmpty_iff.1 hvalid
  obtain ⟨raw, heffects, hfeed, hreport⟩ := readAll_clean hread herrors rfl
  have hprogress : Progress v events := heffects.progress (.before rfl rfl)
  refine ⟨hprogress.complete_iff, fun hv => ?_, fun hv => ⟨hprogress.not_failed, hprogress.cut hv⟩⟩
  obtain ⟨more, hbalanced, hmore⟩ :=
    (balanced_new schema config).feed hb.audited hfeed hprogress.not_failed
  obtain ⟨hcurrent, hclosed, hshortages⟩ := hbalanced.settled hv
  refine ⟨hcurrent, hclosed, ?_⟩
  -- All findings are among the warnings, since none is an error.
  have hwarnings : report.warnings = raw.map config.judge := by
    rw [hreport, Report.errors_record] at herrors
    rw [hreport, Report.warnings_record]
    refine List.filter_eq_self.2 fun x hx => ?_
    simpa using List.filter_eq_nil_iff.1 (List.append_eq_nil_iff.1 herrors).2 x hx
  change ((report.warnings.filter _).map _).Perm _
  rw [hwarnings, hmore, filter_judged, List.map_map]
  exact hshortages

/-- A schema whose documents have one segment. -/
def requiredSchema : Schema where
  name := "REQUIRED"
  root := ⟨"ROOT", [⟨.segment ⟨"A", "A", [], []⟩, 1, .bounded 1⟩], []⟩
  tags := ["A"]

theorem requiredSchema_bound : requiredSchema.Bound :=
  .tree (show Schema.bind "REQUIRED" requiredSchema.root = .ok requiredSchema from rfl)

/-- The report on a document with that segment is valid, and its root loop is over. -/
theorem valid_report_required :
    ∃ r, requiredSchema.Bound ∧
      Report.ofEvents requiredSchema {} (document none [barePassage "A"]) = .ok r ∧
      r.isValid = true ∧ r.state = .complete ∧
      (Ledger.after {} { schema := requiredSchema, config := {} }
        (document none [barePassage "A"])).closed.length = 1 := by
  obtain ⟨r, h, hvalid, hstate⟩ : ∃ r,
      Report.ofEvents requiredSchema {} (document none [barePassage "A"]) = .ok r ∧
        r.isValid = true ∧ r.state = .complete := ⟨_, rfl, rfl, rfl⟩
  obtain ⟨-, hcomplete, -⟩ := valid_report requiredSchema_bound h hvalid
  exact ⟨r, requiredSchema_bound, h, hvalid, hstate, (hcomplete hstate).2.1⟩

/-- The report on a stream that is cut off before the segment is valid as well. -/
theorem valid_of_cut :
    ∃ r, requiredSchema.Bound ∧
      Report.ofEvents requiredSchema {} [.interchangeStart none] = .ok r ∧ r.isValid = true ∧
      r.state = .inInterchange ∧
      ¬ ∃ version doc, [.interchangeStart none] = document version doc := by
  refine ⟨_, requiredSchema_bound, rfl, rfl, rfl, ?_⟩
  rintro ⟨version, doc, h⟩
  have hrest := (List.cons.inj h).2
  simp at hrest

end Validator

end Interchange
