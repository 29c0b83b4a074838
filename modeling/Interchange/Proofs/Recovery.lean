import Interchange.Proofs.Invariant
import Interchange.Proofs.Streaming
import Interchange.Proofs.Verdict

/-!
# Skipped segments

A segment that no open loop can take is reported and skipped, and it leaves no trace: what is open
is the same before and after it, and without it the document is read as before, but for the numbers
of the segments behind it (`skipped_leaves_no_trace`).

A validator looks at the number of segments only to say where a finding lies. So a validator that
has counted one more of them does the same for every event, with every finding one segment later
(`Effect.later`). The tag of the last segment is looked at between segments only, for what is
missing at the end of the interchange (`Effects.retag`, `closeAll_retagged`).
-/

namespace Interchange

/-! ### One segment later -/

/-- The same place one segment later in the stream. -/
def Location.later (l : Location) : Location := { l with segmentIndex := l.segmentIndex + 1 }

/-- The same finding one segment later in the stream. -/
def Violation.later (x : Violation) : Violation := { x with location := x.location.later }

/-- The same finding with another tag as that of the last segment. -/
def Violation.retagged (tag : Option String) (x : Violation) : Violation :=
  { x with location := { x.location with segmentTag := tag } }

/-- A finding behind a skipped segment: one segment later than without it, and with the tag of that
segment when it is the last one. -/
def Violation.behind (tag : String) (last : Bool) (x : Violation) : Violation :=
  if last then x.later.retagged (some tag) else x.later

theorem judge_later (c : Config) (x : Violation) : c.judge x.later = (c.judge x).later := rfl

theorem judge_retagged (c : Config) (tag : Option String) (x : Violation) :
    c.judge (x.retagged tag) = (c.judge x).retagged tag := rfl

theorem judge_behind (c : Config) (tag : String) (last : Bool) (x : Violation) :
    c.judge (x.behind tag last) = (c.judge x).behind tag last := by
  unfold Violation.behind
  cases last with
  | false => exact judge_later c x
  | true => exact (judge_retagged c (some tag) x.later).trans (by rw [judge_later]; rfl)

namespace Validator

variable {schema : Schema} {config : Config} {v w : Validator} {e : Event} {f : Frame}
  {frames outer : List Frame} {s t : OpenSegment} {p : Passage} {doc before after : List Passage}
  {tag : String} {version : Option String} {complete : Bool} {events : List Event}
  {found raw first : List Violation}

/-- The same segment one segment later in the stream. -/
def OpenSegment.later (s : OpenSegment) : OpenSegment := { s with index := s.index + 1 }

/-- The validator when one more segment has been counted. -/
def later (v : Validator) : Validator :=
  { v with segmentCount := v.segmentCount + 1, segment := v.segment.map OpenSegment.later }

namespace OpenSegment

@[simp] theorem location_later (s : OpenSegment) : s.later.location = s.location.later := rfl

theorem push_later (s : OpenSegment) (x : ElementValue) : s.later.push x = (s.push x).later := rfl

theorem unresolved_later {β : Type} (s : OpenSegment) (is : List (Implementation β))
    (owner : String) : s.later.unresolved is owner = (s.unresolved is owner).later := by
  unfold unresolved
  cases is <;> rfl

theorem transparent_later : Transparent later :=
  ⟨fun _ => rfl, fun _ => rfl, fun _ => rfl, fun _ _ _ => rfl, fun _ => rfl⟩

theorem checkValue_later (d : Segment) (version : Option String) (codes : Bool)
    (location : Location) (flagged : List (Nat × Nat)) (x : ElementValue) :
    checkValue d version codes location.later flagged x =
      let r := checkValue d version codes location flagged x
      (r.1.map Violation.later, r.2) := by
  simp only [checkValue]
  by_cases hempty : x.isEmpty = true
  · simp only [if_pos hempty, List.map_nil]
  · simp only [if_neg hempty]
    cases d.element? x.position.element with
    | none => dsimp only; split <;> rfl
    | some element =>
        dsimp only
        by_cases hmax : element.maxOccurs ≤ x.repetition
        · simp only [if_pos hmax]
          split <;> rfl
        · simp only [if_neg hmax]
          cases d.lookup x.position with
          | simple type =>
              simp only [List.map_map]
              rfl
          | noSuchComponent => rfl
          | noSuchElement => rfl

theorem checkValues_later (d : Segment) (version : Option String) (codes : Bool)
    (location : Location) (flagged : List (Nat × Nat)) (xs : List ElementValue) :
    checkValues d version codes location.later flagged xs =
      let r := checkValues d version codes location flagged xs
      (r.1.map Violation.later, r.2) := by
  induction xs generalizing flagged with
  | nil => rfl
  | cons x rest ih => simp only [checkValues, checkValue_later, ih, List.map_append]

theorem checkNew_later (s : OpenSegment) (version : Option String) (codes : Bool) :
    s.later.checkNew version codes =
      ((s.checkNew version codes).1.later, (s.checkNew version codes).2.map Violation.later) := by
  unfold checkNew
  rw [show s.later.definition = s.definition from rfl, location_later]
  cases s.definition with
  | none => rfl
  | some d =>
      simp only [checkValues_later]
      rfl

theorem missing_later (s : OpenSegment) (position : Position) (repetition : Nat)
    (message : String) :
    s.later.missing position repetition message =
      (s.missing position repetition message).later := rfl

theorem missingComponents_later (s : OpenSegment) (number repetition place : Nat)
    (components : List Component) :
    s.later.missingComponents number repetition place components =
      (s.missingComponents number repetition place components).map Violation.later := by
  induction components generalizing place with
  | nil => rfl
  | cons c rest ih =>
      simp only [missingComponents, ih, List.map_append, missing_later]
      rw [show s.later.read = s.read from rfl]
      split <;> rfl

theorem missingIn_later (s : OpenSegment) (number : Nat) (element : Element) :
    s.later.missingIn number element = (s.missingIn number element).map Violation.later := by
  unfold missingIn
  rw [show s.later.read = s.read from rfl]
  cases presentRepetitions s.read number element with
  | nil => dsimp only; split <;> rfl
  | cons repetition rest =>
      dsimp only
      cases element.content with
      | simple _ => rfl
      | composite composite => simp only [missingComponents_later, List.map_flatMap]

theorem missingElements_later (s : OpenSegment) :
    s.later.missingElements = s.missingElements.map Violation.later := by
  have hfrom (number : Nat) (elements : List Element) :
      s.later.missingFrom number elements =
        (s.missingFrom number elements).map Violation.later := by
    induction elements generalizing number with
    | nil => rfl
    | cons element rest ih => simp only [missingFrom, missingIn_later, ih, List.map_append]
  unfold missingElements
  rw [show s.later.definition = s.definition from rfl]
  cases s.definition with
  | none => rfl
  | some d => exact hfrom 1 d.elements

end OpenSegment

theorem decide?_later (frames : List Frame) (s : OpenSegment) (complete : Bool) :
    decide? frames s.later complete =
      (decide? frames s complete).map fun r => (r.1, r.2.1.later, r.2.2.map Violation.later) :=
  decide?_change OpenSegment.transparent_later (fun _ => rfl)
    fun _ owner => s.unresolved_later _ owner

theorem advance_later (v : Validator) (s : OpenSegment) (complete : Bool) :
    v.later.advance s.later complete =
      let r := v.advance s complete
      (r.1, r.2.1.later, r.2.2.map Violation.later) := by
  unfold advance
  rw [show v.later.frames = v.frames from rfl, decide?_later]
  cases decide? v.frames s complete with
  | none => rfl
  | some r =>
      simp only [Option.map_some, OpenSegment.checkNew_later, List.map_append]
      rfl

/-- What is missing lies at the place at hand, seen in the same way. -/
theorem Frame.missing_moved {g : Location → Location}
    (hg : ∀ l path, g { l with schemaPath := path } = { g l with schemaPath := path })
    (f : Frame) (start stop : Nat) (here : Location) :
    f.missing start stop (g here) =
      (f.missing start stop here).map fun x => { x with location := g x.location } := by
  unfold missing
  rw [List.map_map]
  refine List.map_congr_left fun entry _ => ?_
  have hplace : g (f.shortage here entry).location =
      { g here with schemaPath := f.path ++ "/" ++ entry.1.id } := hg here _
  rw [Function.comp_apply, hplace]
  rfl

theorem closeAll_moved {g : Location → Location}
    (hg : ∀ l path, g { l with schemaPath := path } = { g l with schemaPath := path })
    (frames : List Frame) (here : Location) :
    closeAll frames (g here) =
      (closeAll frames here).map fun x => { x with location := g x.location } := by
  simp only [closeAll, Frame.close, Frame.missing_moved hg, List.map_flatMap]

theorem closeAll_later (frames : List Frame) (here : Location) :
    closeAll frames here.later = (closeAll frames here).map Violation.later :=
  closeAll_moved (fun _ _ => rfl) frames here

/-- What is missing when loops are closed shows the tag of the last segment. -/
theorem closeAll_retagged (frames : List Frame) (here : Location) (tag : Option String) :
    closeAll frames { here with segmentTag := tag } =
      (closeAll frames here).map (Violation.retagged tag) :=
  closeAll_moved (g := fun l => { l with segmentTag := tag }) (fun _ _ => rfl) frames here

theorem openChild_later (f : Frame) (outer : List Frame) (c : Child) (index : Nat)
    (tag : String) :
    openChild f outer c (index + 1) tag =
      ((openChild f outer c index tag).1, (openChild f outer c index tag).2.later) := by
  unfold openChild
  cases c.target <;> rfl

theorem Match.take_later (m : Match) (here : Location) (index : Nat) (tag : String) :
    m.take here.later (index + 1) tag =
      let r := m.take here index tag
      ((r.1.1, r.1.2.later), r.2.map Violation.later) := by
  have hmissing : m.frame.missing m.frame.cursor m.index here.later =
      (m.frame.missing m.frame.cursor m.index here).map Violation.later :=
    Frame.missing_moved (fun _ _ => rfl) m.frame m.frame.cursor m.index here
  have hexcess (path : String) (c : Child) (count : Nat) :
      excess path c count (index + 1) tag =
        (excess path c count index tag).map Violation.later := by
    unfold excess
    split <;> rfl
  simp only [Match.take, openChild_later, closeAll_later, hmissing, hexcess, List.map_append]

/-- One segment more in the count makes no difference to what an event does, and every finding lies
one segment later. -/
theorem Effect.later (h : Effect v e w raw) :
    Effect v.later e w.later (raw.map Violation.later) := by
  have hsegment {s : OpenSegment} (hs : v.segment = some s) : v.later.segment = some s.later := by
    unfold Validator.later
    rw [hs]
    rfl
  have hnone (hs : v.segment = none) : v.later.segment = none := by
    unfold Validator.later
    rw [hs]
    rfl
  cases h with
  | start hw => exact .start hw
  | @take tag m frames s found ho hs hm ht =>
      have htake := m.take_later (v.counting tag).here (v.segmentCount + 1) tag
      rw [ht] at htake
      exact .take ho (hnone hs) hm htake
  | skip ho hs hm => exact .skip ho (hnone hs) hm
  | mark ho hs hi he => exact .mark ho (hsegment hs) hi he
  | @value x frames s t found ho hs ha =>
      have hadvance := v.advance_later (s.push x) false
      rw [ha, ← OpenSegment.push_later] at hadvance
      exact .value ho (hsegment hs) hadvance
  | @close frames s t found ho hs ha =>
      have hadvance := v.advance_later s true
      rw [ha] at hadvance
      rw [List.map_append, ← OpenSegment.missingElements_later]
      exact .close ho (hsegment hs) hadvance
  | finish ho hs =>
      rw [← closeAll_later]
      exact .finish ho (hnone hs)

theorem Effects.later (h : Effects v events w raw) :
    Effects v.later events w.later (raw.map Violation.later) := by
  induction h with
  | nil => exact .nil _
  | cons he _ ih =>
      rw [List.map_append]
      exact .cons he.later ih

/-- The start of a segment makes its own tag the last one. -/
theorem Effects.retag (h : Effects v (.segmentStart tag :: events) w raw) (last : Option String) :
    Effects { v with lastTag := last } (.segmentStart tag :: events) w raw := by
  cases h with
  | cons he hrest =>
      refine .cons ?_ hrest
      cases he with
      | take ho hs hm ht => exact .take ho hs hm ht
      | skip ho hs hm => exact .skip ho hs hm
      | mark _ _ hi => cases hi

/-! ### Skipping a segment -/

/-- A segment that no loop can take is reported and changes only the count and the last tag,
whatever is inside it. -/
theorem effects_skipped (hv : v.Ready) (hstate : v.state = stateOf v.frames)
    (hm : locate? p.tag v.frames = none) :
    Effects v p.events { v.later with lastTag := some p.tag }
      [misplaced v.schema v.frames (v.segmentCount + 1) p.tag] := by
  have hbody := effects_body_of_decided
    (v := { v.counting p.tag with segment := some (v.skipped p.tag), state := stateOf v.frames })
    (isOpen_stateOf _ v.frames rfl) rfl rfl p.inside
  have hafter : { v.counting p.tag with segment := none, state := stateOf v.frames } =
      { v.later with lastTag := some p.tag } := by
    unfold Validator.later counting
    rw [hv.segment, ← hstate]
    rfl
  have hrun := Effects.cons (.skip hv.isOpen hv.segment hm) hbody
  rw [show _ = _ from hafter] at hrun
  exact hrun

/-- A tag is reported as misplaced where no loop can take it, and only there. -/
theorem locate?_of_misplaced {w : Validator} {found : List Violation}
    (h : v.handle (.segmentStart tag) = .ok (w, found))
    (hkind : ∃ x ∈ found, x.kind.isMisplacement = true) : locate? tag v.frames = none := by
  obtain ⟨u, raw, he, hjudged⟩ := handle_ok h
  obtain ⟨x, hx, hkind⟩ := hkind
  rw [hjudged.1] at hx
  obtain ⟨y, hy, rfl⟩ := List.mem_map.1 hx
  cases he with
  | skip _ _ hm => exact hm
  | mark _ _ hi => cases hi
  | take _ _ _ ht =>
      -- What is found when a tag is taken is a shortage or an excess.
      obtain ⟨hshortage, hexcess⟩ := not_shortage_or_excess hkind
      obtain ⟨-, rfl⟩ := Match.take_eq ht
      rcases List.mem_append.1 hy with hy | hy
      · rcases List.mem_append.1 hy with hy | hy
        · exact absurd (closeAll_kind hy) (by simpa [Config.judge] using hshortage)
        · exact absurd (missing_kind hy) (by simpa [Config.judge] using hshortage)
      · exact absurd (excess_kind hy) (by simpa [Config.judge] using hexcess)

/-! ### Documents with a skipped segment -/

theorem Effects.phase (h : Effects v events w raw) (ha : v.schema.root.Audited) (hv : Phase v) :
    Phase w := by
  induction h with
  | nil => exact hv
  | cons he _ ih => exact ih (by rwa [he.schema_eq]) (he.phase ha hv)

theorem Phase.state_of_between (h : Phase v) (hv : v.Ready) : v.state = stateOf v.frames := by
  cases h with
  | outside hn => exact absurd hv.isOpen hn
  | between ho => exact ho
  | inside ho => exact ho

theorem Ready.later (hv : v.Ready) (last : Option String) :
    Ready { v.later with lastTag := last } := by
  refine ⟨hv.isOpen, ?_⟩
  unfold Validator.later
  rw [hv.segment]
  rfl

/-- Some segments are read one after the other. -/
theorem effects_segments (hv : v.Ready) (hp : Phase v) (ha : v.schema.root.Audited)
    (doc : List Passage) :
    ∃ w raw, Effects v (doc.flatMap Passage.events) w raw ∧ w.Ready ∧ w.schema = v.schema ∧
      w.config = v.config := by
  induction doc generalizing v with
  | nil => exact ⟨v, [], .nil v, hv, rfl, rfl⟩
  | cons p doc ih =>
      obtain ⟨hstack, -⟩ := hp.between_of hv.isOpen hv.segment
      obtain ⟨w, raw, hrun, hw, hschema, hconfig, -⟩ :=
        effects_passage hv (fun f hf => (hstack.sound f hf).toTidy) p
      obtain ⟨u, more, hrest, hu, hschema', hconfig'⟩ :=
        ih hw (hrun.phase ha hp) (by rwa [hschema])
      exact ⟨u, raw ++ more, hrun.append hrest, hu, hschema'.trans hschema,
        hconfig'.trans hconfig⟩

theorem effects_finish (hv : v.Ready) :
    Effects v [.interchangeEnd] { v with state := .complete, frames := [] }
      (closeAll v.frames v.here) := by
  have h := Effects.cons (.finish hv.isOpen hv.segment) (.nil _)
  rwa [List.append_nil] at h

/-- What comes in front of a segment of a document is read as a whole. -/
theorem effects_before (hb : schema.Bound) (config : Config) (version : Option String)
    (before : List Passage) :
    ∃ v raw, Effects { schema, config }
        (.interchangeStart version :: before.flatMap Passage.events) v raw ∧
      v.Ready ∧ Phase v ∧ v.schema = schema ∧ v.config = config := by
  have hstart : Effect { schema, config } (.interchangeStart version) _ [] := .start rfl
  have hopened := hstart.phase hb.audited (.outside (by rintro (h | h) <;> cases h) rfl rfl)
  obtain ⟨v, raw, hrun, hv, hschema, hconfig⟩ :=
    effects_segments ⟨.inl rfl, rfl⟩ hopened hb.audited before
  exact ⟨v, raw, hrun.cons_quiet hstart, hv, hrun.phase hb.audited hopened, hschema, hconfig⟩

/-- The rest of a document is read in the same way behind a skipped segment. -/
theorem effects_behind (hv : v.Ready) (hp : Phase v) (ha : v.schema.root.Audited)
    (after : List Passage) (tag : String) :
    ∃ u u' raw, u.state = .complete ∧ u'.state = .complete ∧
      Effects v (after.flatMap Passage.events ++ [.interchangeEnd]) u raw ∧
      Effects { v.later with lastTag := some tag }
        (after.flatMap Passage.events ++ [.interchangeEnd]) u'
        (raw.map (Violation.behind tag after.isEmpty)) := by
  cases after with
  | nil =>
      have hlast := effects_finish (hv.later (some tag))
      rw [show here { v.later with lastTag := some tag } =
          { v.here.later with segmentTag := some tag } from rfl,
        closeAll_retagged, closeAll_later, List.map_map] at hlast
      exact ⟨{ v with state := .complete, frames := [] }, _, _, rfl, rfl, effects_finish hv, hlast⟩
  | cons q after =>
      obtain ⟨w, raw, hrun, hw, -, -⟩ := effects_segments hv hp ha (q :: after)
      have hall := hrun.append (effects_finish hw)
      exact ⟨{ w with state := .complete, frames := [] }, _, _, rfl, rfl, hall,
        hall.later.retag (some tag)⟩

/-- Whatever is inside a segment that no loop can take, there is one finding, and what is open stays
as it is. -/
theorem handleAll_skipped (hv : v.Ready) (hstate : v.state = stateOf v.frames)
    (hc : v.config.NeverHalts) (hm : locate? tag v.frames = none) (errors : Nat) (body : List Event)
    (hbody : ∀ e ∈ body, e.isInside = true) :
    ∃ u, handleAll { v with errorCount := errors } (.segmentStart tag :: (body ++ [.segmentEnd])) =
        .ok (u, [v.config.judge (misplaced v.schema v.frames (v.segmentCount + 1) tag)]) ∧
      u.frames = v.frames ∧ u.state = v.state ∧ u.segment = v.segment := by
  have hskipped := effects_skipped (p := ⟨tag, body, hbody⟩) hv hstate hm
  obtain ⟨errors', hrun⟩ := (hskipped.runsTo errors).ok hc
  exact ⟨_, hrun, rfl, rfl, (hv.later (some tag)).segment.trans hv.segment.symm⟩

/-- The document with a skipped segment and the document without it. -/
theorem handleAll_without_skipped (hb : schema.Bound) (hc : config.NeverHalts)
    (hbefore : Effects { schema, config }
      (.interchangeStart version :: before.flatMap Passage.events) v first)
    (hv : v.Ready) (hp : Phase v) (hschema : v.schema = schema) (hconfig : v.config = config)
    (hm : locate? p.tag v.frames = none) (after : List Passage) :
    ∃ rest last last', last.state = .complete ∧ last'.state = .complete ∧
      handleAll { schema, config } (document version (before ++ after)) =
        .ok (last, first.map config.judge ++ rest) ∧
      handleAll { schema, config } (document version (before ++ p :: after)) =
        .ok (last', first.map config.judge ++
          v.config.judge (misplaced v.schema v.frames (v.segmentCount + 1) p.tag) ::
            rest.map (Violation.behind p.tag after.isEmpty)) := by
  obtain ⟨u, u', rest, hu, hu', hwithout, hwith⟩ :=
    effects_behind hv hp (by rw [hschema]; exact hb.audited) after p.tag
  have hall := (effects_skipped hv (hp.state_of_between hv) hm).append hwith
  obtain ⟨n, hwithout⟩ := ((hbefore.append hwithout).runsTo 0).ok hc
  obtain ⟨n', hwith⟩ := ((hbefore.append hall).runsTo 0).ok hc
  refine ⟨rest.map config.judge, { u with errorCount := n }, { u' with errorCount := n' }, hu, hu',
    ?_, ?_⟩
  · rw [document, List.flatMap_append, List.append_assoc]
    rw [List.map_append] at hwithout
    exact hwithout
  · have hrest : (rest.map (Violation.behind p.tag after.isEmpty)).map config.judge =
        (rest.map config.judge).map (Violation.behind p.tag after.isEmpty) := by
      rw [List.map_map, List.map_map]
      exact List.map_congr_left fun x _ => judge_behind config p.tag after.isEmpty x
    rw [document, List.flatMap_append, List.flatMap_cons, List.append_assoc, List.append_assoc]
    rw [List.map_append, List.map_append, hrest] at hwith
    rw [hconfig]
    exact hwith

/-- A segment of a document that no open loop can take is reported once, whatever is inside it, and
what is open is the same before and after it. Without it the document is read as before: the same is
found in front of it and behind it, but for the numbers of the segments behind it and, where it is
the last one, for its tag in what is missing at the end. -/
theorem skipped_leaves_no_trace (hb : schema.Bound) (hc : config.NeverHalts)
    (version : Option String) (before after : List Passage) (p : Passage) :
    let new : Validator := { schema, config }
    ∃ v first, new.handleAll (.interchangeStart version :: before.flatMap Passage.events) =
        .ok (v, first) ∧
      ∃ w found, v.handle (.segmentStart p.tag) = .ok (w, found) ∧
        ((∃ x ∈ found, x.kind.isMisplacement = true) → ∃ x, found = [x] ∧
          (∀ body : List Event, (∀ e ∈ body, e.isInside = true) → ∃ u,
            v.handleAll (.segmentStart p.tag :: (body ++ [.segmentEnd])) = .ok (u, [x]) ∧
              u.frames = v.frames ∧ u.state = v.state ∧ u.segment = v.segment) ∧
          ∃ rest last last', last.state = .complete ∧ last'.state = .complete ∧
            new.handleAll (document version (before ++ after)) = .ok (last, first ++ rest) ∧
            new.handleAll (document version (before ++ p :: after)) =
              .ok (last', first ++ x :: rest.map (Violation.behind p.tag after.isEmpty))) := by
  intro new
  obtain ⟨v, raw, hbefore, hready, hphase, hschema, hconfig⟩ :=
    effects_before hb config version before
  have hstate := hphase.state_of_between hready
  have hnever : v.config.NeverHalts := by rwa [hconfig]
  obtain ⟨errors, hfirst⟩ := (hbefore.runsTo 0).ok hc
  refine ⟨_, _, hfirst, ?_⟩
  cases hm : locate? p.tag v.frames with
  | some m =>
      obtain ⟨w, found, hhandle, -⟩ :=
        ((Effect.take hready.isOpen hready.segment hm rfl).withErrors errors).handle
      refine ⟨w, found, hhandle, fun hkind => ?_⟩
      have hnone := locate?_of_misplaced hhandle hkind
      exact absurd (hm.symm.trans hnone) (by simp)
  | none =>
      obtain ⟨w, found, hhandle, hfound, -⟩ :=
        ((Effect.skip hready.isOpen hready.segment hm).withErrors errors).handle
      refine ⟨w, found, hhandle, fun _ => ⟨_, hfound,
        handleAll_skipped hready hstate hnever hm errors, ?_⟩⟩
      exact handleAll_without_skipped hb hc hbefore hready hphase hschema hconfig hm after

/-- An unknown segment between two occurrences of one that may occur once. The excess is one segment
later with it than without it. -/
theorem skipped_leaves_no_trace_unknown :
    let new : Validator := { schema := requiredSchema, config := lenient }
    requiredSchema.Bound ∧ lenient.NeverHalts ∧
      ∃ x y last last', x.kind = .segmentNotInSchema ∧ y.kind = .segmentExceedsMaximumUse ∧
        y.location.segmentIndex = 2 ∧
        new.handleAll (document none [barePassage "A", barePassage "A"]) = .ok (last, [y]) ∧
        new.handleAll (document none [barePassage "A", barePassage "Z", barePassage "A"]) =
          .ok (last', [x, y.later]) := by
  intro new
  obtain ⟨v, first, hfirst, w, found, hstart, hskipped⟩ :=
    skipped_leaves_no_trace requiredSchema_bound lenient_neverHalts none [barePassage "A"]
      [barePassage "A"] (barePassage "Z")
  obtain ⟨v', w', x', hfirst', hstart', hkind⟩ : ∃ v' w' x',
      new.handleAll (.interchangeStart none :: [barePassage "A"].flatMap Passage.events) =
          .ok (v', []) ∧
        v'.handle (.segmentStart "Z") = .ok (w', [x']) ∧ x'.kind = .segmentNotInSchema :=
    ⟨_, _, _, rfl, rfl, rfl⟩
  obtain ⟨rfl, rfl⟩ := Prod.mk.inj (Except.ok.inj (hfirst.symm.trans hfirst'))
  obtain ⟨rfl, rfl⟩ := Prod.mk.inj (Except.ok.inj (hstart.symm.trans hstart'))
  obtain ⟨x, hfound, -, rest, last, last', -, -, hwithout, hwith⟩ :=
    hskipped ⟨x', List.mem_singleton_self _, by rw [hkind]; rfl⟩
  obtain rfl := List.singleton_inj.1 hfound
  obtain ⟨u, y, hwithout', hexcess, hindex⟩ : ∃ u y,
      new.handleAll (document none [barePassage "A", barePassage "A"]) = .ok (u, [y]) ∧
        y.kind = .segmentExceedsMaximumUse ∧ y.location.segmentIndex = 2 :=
    ⟨_, _, rfl, rfl, rfl⟩
  obtain ⟨rfl, rfl⟩ := Prod.mk.inj (Except.ok.inj (hwithout.symm.trans hwithout'))
  exact ⟨requiredSchema_bound, lenient_neverHalts, x', y, last, last', hkind, hexcess, hindex,
    hwithout, hwith⟩

end Validator

end Interchange
