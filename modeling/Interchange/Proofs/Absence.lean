import Mathlib.Data.List.Forall2
import Interchange.Proofs.Halting
import Interchange.Proofs.Recovery
import Interchange.Proofs.Stability

/-!
# Empty values

A value that carries no data is as good as no value. Where the values of each segment come in
increasing order, any of the empty ones can be left out of a document, and what is found in each
segment, what is open after it and the state at the end are the same (`empty_as_absent`).

An empty value can be what decides on an implementation, and without it the decision is made later.
But it is the decision that all values of the segment make at once (`decideAll_eq_decide?`), and for
that a position where nothing stands reads as empty (`valueIn?_thinned`). What is checked and what
is missing depends only on the values that carry data.
-/

namespace Interchange

/-! ### Lists without some elements -/

/-- The second list is the first one without some elements that satisfy `p`. -/
inductive Thinned {α : Type} (p : α → Bool) : List α → List α → Prop
  | nil : Thinned p [] []
  | keep {x : α} {xs ys : List α} (h : Thinned p xs ys) : Thinned p (x :: xs) (x :: ys)
  | drop {x : α} {xs ys : List α} (hx : p x = true) (h : Thinned p xs ys) :
      Thinned p (x :: xs) ys

namespace Thinned

variable {α : Type} {p : α → Bool} {x : α} {xs ys : List α}

theorem sublist (h : Thinned p xs ys) : ys.Sublist xs := by
  induction h with
  | nil => exact .slnil
  | keep _ ih => exact .cons_cons _ ih
  | drop _ _ ih => exact .cons _ ih

/-- An element that is left out satisfies `p`. -/
theorem mem_or (h : Thinned p xs ys) (hx : x ∈ xs) : x ∈ ys ∨ p x = true := by
  induction h with
  | nil => cases hx
  | keep _ ih =>
      rcases List.mem_cons.1 hx with rfl | hx
      · exact .inl List.mem_cons_self
      · exact (ih hx).imp_left (List.mem_cons_of_mem _)
  | drop hp _ ih =>
      rcases List.mem_cons.1 hx with rfl | hx
      · exact .inr hp
      · exact ih hx

theorem filter_eq (h : Thinned p xs ys) : xs.filter (!p ·) = ys.filter (!p ·) := by
  induction h with
  | nil => rfl
  | keep _ ih => rw [List.filter_cons, List.filter_cons, ih]
  | drop hp _ ih => rw [List.filter_cons_of_neg (by simp [hp]), ih]

end Thinned

/-- Whether an event brings a value that carries no data. -/
def Event.isBlank (e : Event) : Bool := e.value?.any (·.isEmpty)

/-- The same segment without some of its empty values. -/
structure Passage.Thins (p p' : Passage) : Prop where
  tag_eq : p'.tag = p.tag
  body : Thinned Event.isBlank p.body p'.body

theorem Thinned.values {body body' : List Event} (h : Thinned Event.isBlank body body') :
    Thinned ElementValue.isEmpty (body.filterMap Event.value?) (body'.filterMap Event.value?) := by
  induction h with
  | nil => exact .nil
  | @keep e _ _ _ ih =>
      cases he : e.value? with
      | none => rwa [List.filterMap_cons_none he, List.filterMap_cons_none he]
      | some x =>
          rw [List.filterMap_cons_some he, List.filterMap_cons_some he]
          exact .keep ih
  | @drop e _ _ hblank _ ih =>
      cases he : e.value? with
      | none => rwa [List.filterMap_cons_none he]
      | some x =>
          rw [List.filterMap_cons_some he]
          refine .drop ?_ ih
          simpa [Event.isBlank, he] using hblank

/-! ### Values without data -/

section Values

variable {values values' : List ElementValue}

theorem Increasing.thinned (hi : Increasing values)
    (h : Thinned ElementValue.isEmpty values values') : Increasing values' :=
  List.Pairwise.sublist h.sublist hi

/-- A position where nothing stands reads as empty once the segment is complete. -/
theorem valueIn?_thinned (hi : Increasing values)
    (h : Thinned ElementValue.isEmpty values values') (d : Discriminator) :
    d.valueIn? values' true = d.valueIn? values true := by
  cases hf' : values'.find? fun e => e.repetition == 0 && e.position.sameSlot d.position with
  | some x =>
      obtain ⟨hrepetition, hslot⟩ : x.repetition = 0 ∧ x.position.sameSlot d.position = true := by
        simpa using List.find?_some hf'
      have hx := List.mem_of_find?_eq_some hf'
      rw [Discriminator.valueIn?_of_mem (hi.thinned h) hx hrepetition hslot,
        Discriminator.valueIn?_of_mem hi (h.sublist.subset hx) hrepetition hslot]
  | none =>
      cases hf : values.find? fun e => e.repetition == 0 && e.position.sameSlot d.position with
      | none => simp [Discriminator.valueIn?, hf, hf']
      | some x =>
          -- It was left out, so it is empty.
          have hempty : x.isEmpty = true := by
            have hslot := List.find?_some hf
            refine (h.mem_or (List.mem_of_find?_eq_some hf)).resolve_left fun hx => ?_
            exact List.find?_eq_none.1 hf' x hx hslot
          simp [Discriminator.valueIn?, hf, hf', eq_of_beq hempty]

end Values

namespace Validator

variable {schema : Schema} {config : Config} {v w : Validator} {s t : OpenSegment}
  {values values' : List ElementValue} {version : Option String} {codes : Bool}
  {p p' : Passage} {doc doc' : List Passage} {body body' : List Event} {f : Frame}
  {frames : List Frame} {events events' : List Event} {raw found : List Violation}

/-! ### Segments with other values -/

namespace OpenSegment

/-- The segment with other values, none of them checked. -/
def refill (s : OpenSegment) (values : List ElementValue) : OpenSegment :=
  { s with read := values.reverse, unchecked := values.reverse }

@[simp] theorem values_refill (s : OpenSegment) (values : List ElementValue) :
    (s.refill values).values = values := List.reverse_reverse values

theorem Fresh.pushAll_eq (h : s.Fresh) (values : List ElementValue) :
    s.pushAll values = s.refill values := by
  unfold pushAll refill
  rw [h.read, h.unchecked, List.append_nil]

theorem transparent_refill (values : List ElementValue) : Transparent (·.refill values) :=
  ⟨fun _ => rfl, fun _ => rfl, fun _ => rfl, fun _ _ _ => rfl, fun _ => rfl⟩

theorem checkValues_thinned (h : Thinned ElementValue.isEmpty values values') (d : Segment)
    (location : Location) (flagged : List (Nat × Nat)) :
    checkValues d version codes location flagged values' =
      checkValues d version codes location flagged values := by
  induction h generalizing flagged with
  | nil => rfl
  | keep _ ih => simp only [checkValues, ih]
  | drop hx _ ih => simp only [checkValues, checkValue_of_isEmpty d location flagged hx, ih,
      List.nil_append]

/-- Empty values are not checked. -/
theorem checkNew_refill (h : Thinned ElementValue.isEmpty values values') (s : OpenSegment) :
    ((s.refill values').checkNew version codes).2 =
      ((s.refill values).checkNew version codes).2 := by
  unfold checkNew refill
  cases s.definition with
  | none => rfl
  | some d =>
      dsimp only
      rw [List.reverse_reverse, List.reverse_reverse]
      exact congrArg Prod.fst (checkValues_thinned h d _ _)

/-- And they do not count as present. -/
theorem missingElements_refill (h : Thinned ElementValue.isEmpty values values')
    (s : OpenSegment) : (s.refill values').missingElements = (s.refill values).missingElements := by
  have hdata : (s.refill values').read.filter (!·.isEmpty) =
      (s.refill values).read.filter (!·.isEmpty) := by
    simp only [refill, List.filter_reverse, h.filter_eq]
  unfold missingElements
  rw [show (s.refill values').definition = s.definition from rfl,
    show (s.refill values).definition = s.definition from rfl]
  cases s.definition with
  | none => rfl
  | some d => exact missingFrom_congr hdata rfl 1 d.elements

end OpenSegment

/-! ### The decision -/

section Decision

variable (hread : ∀ d : Discriminator, d.valueIn? values' true = d.valueIn? values true)

include hread

theorem select_refill {β : Type} (is : List (Implementation β)) :
    Implementation.select is values' true = Implementation.select is values true := by
  refine Implementation.selectFrom_congr fun a _ => ?_
  rw [Implementation.selected?, Implementation.selected?, hread]

theorem OpenSegment.unresolved_refill {β : Type} (s : OpenSegment)
    (is : List (Implementation β)) (owner : String) :
    (s.refill values').unresolved is owner = (s.refill values).unresolved is owner := by
  unfold OpenSegment.unresolved
  cases is with
  | nil => rfl
  | cons a rest =>
      simp only [List.head?_cons, Option.map_some, Option.bind_some, OpenSegment.values_refill,
        hread]
      rfl

/-- Values that read the same everywhere make the same decision. -/
theorem decide?_refill (frames : List Frame) (s : OpenSegment) :
    decide? frames (s.refill values') true =
      (decide? frames (s.refill values) true).map fun r => (r.1, r.2.1.refill values', r.2.2) := by
  have hselect {β : Type} (is : List (Implementation β)) :
      Implementation.select is (s.refill values').values true =
        Implementation.select is (s.refill values).values true := by
    rw [OpenSegment.values_refill, OpenSegment.values_refill, select_refill hread]
  have hsame : decide? frames ((s.refill values).refill values') true =
      (decide? frames (s.refill values) true).map
        fun r => (r.1, r.2.1.refill values', r.2.2.map id) :=
    decide?_change (OpenSegment.transparent_refill values') (fun _ => hselect _)
      fun _ owner => s.unresolved_refill hread _ owner
  simp only [List.map_id] at hsame
  exact hsame

end Decision

/-! ### Segments -/

/-- Inside a segment that has just started, the values that are left make the reports and leave the
loops that all of them do. -/
theorem effects_body_thinned (ho : v.IsOpen) (hs : v.segment = some s) (hfresh : s.Fresh)
    (hposition : ∀ {β : Type} {is : List (Implementation β)}, Awaits v.frames s is →
      Implementation.SamePosition is)
    (hbody : ∀ e ∈ body, e.isInside = true) (h : Thinned Event.isBlank body body')
    (hi : Increasing (body.filterMap Event.value?)) :
    ∃ frames raw,
      Effects v (body ++ [.segmentEnd]) { v with frames, segment := none } raw ∧
        Effects v (body' ++ [.segmentEnd]) { v with frames, segment := none } raw := by
  have hbody' : ∀ e ∈ body', e.isInside = true := fun e he => hbody e (h.sublist.subset he)
  have hvalues := h.values
  have hi' := hi.thinned hvalues
  have hnone : s.values = [] := by rw [OpenSegment.values, hfresh.read, List.reverse_nil]
  obtain ⟨frames, t, report, hd⟩ : ∃ frames t report,
      decideAll v.frames s (body.filterMap Event.value?) = (frames, t, report) := ⟨_, _, _, rfl⟩
  have hdecide := decideAll_eq_decide? hposition (by rw [hnone]; exact hi.inStreamOrder)
  have hdecide' := decideAll_eq_decide? hposition (by rw [hnone]; exact hi'.inStreamOrder)
  rw [hd, hfresh.pushAll_eq] at hdecide
  -- Without some empty values the decision is the same, about a segment with fewer values.
  rw [hfresh.pushAll_eq, decide?_refill (valueIn?_thinned hi hvalues), hdecide, Option.map_some,
    Option.some.injEq] at hdecide'
  have ht : t.refill (body.filterMap Event.value?) = t := by
    rw [(decides_of_decide? hdecide).segment_eq]
    rfl
  have hrun := effects_body ho hs hbody hd
  have hrun' := effects_body ho hs hbody' hdecide'.symm
  rw [OpenSegment.checkNew_refill hvalues, OpenSegment.missingElements_refill hvalues, ht] at hrun'
  exact ⟨frames, _, hrun, hrun'⟩

theorem effect_segmentStart (hv : v.Ready) (tag : String) :
    ∃ w raw, Effect v (.segmentStart tag) w raw := by
  cases hm : locate? tag v.frames with
  | some m => exact ⟨_, _, .take hv.isOpen hv.segment hm rfl⟩
  | none => exact ⟨_, _, .skip hv.isOpen hv.segment hm⟩

/-- A segment starts, and with the values that are left it is read as with all of them. -/
theorem effects_passage_thinned (hv : v.Ready) (hp : Phase v) (ha : v.schema.root.Audited)
    (h : p.Thins p') (hi : Increasing p.values) :
    ∃ w first u raw, Effect v (.segmentStart p.tag) w first ∧
      Effects w (p.body ++ [.segmentEnd]) u raw ∧ Effects w (p'.body ++ [.segmentEnd]) u raw ∧
      u.Ready ∧ Phase u := by
  obtain ⟨w, first, he⟩ := effect_segmentStart hv p.tag
  have hwithin := (hp.between_of hv.isOpen hv.segment).1.within
  obtain ⟨s, hs, ho, hfresh, hposition⟩ := he.started ha hwithin
  obtain ⟨frames, raw, hrun, hrun'⟩ :=
    effects_body_thinned ho hs hfresh hposition p.inside h.body hi
  refine ⟨w, first, _, raw, he, hrun, hrun', ⟨ho, rfl⟩, hrun.phase ?_ (he.phase ha hp)⟩
  rw [he.schema_eq]
  exact ha

theorem effects_segments_thinned (hv : v.Ready) (hp : Phase v) (ha : v.schema.root.Audited)
    (h : List.Forall₂ Passage.Thins doc doc') (hi : ∀ p ∈ doc, Increasing p.values) :
    ∃ u raw, Effects v (doc.flatMap Passage.events) u raw ∧
      Effects v (doc'.flatMap Passage.events) u raw ∧ u.Ready ∧ Phase u := by
  induction h generalizing v with
  | nil => exact ⟨v, [], .nil v, .nil v, hv, hp⟩
  | @cons p p' doc doc' hthins _ ih =>
      obtain ⟨hip, hi⟩ := List.forall_mem_cons.1 hi
      obtain ⟨w, first, u, raw, he, hrun, hrun', hu, hpu⟩ :=
        effects_passage_thinned hv hp ha hthins hip
      have hschema : u.schema = v.schema := hrun.schema_eq.trans he.schema_eq
      obtain ⟨last, more, hrest, hrest', hlast, hplast⟩ := ih hu hpu (by rwa [hschema]) hi
      have he' : Effect v (.segmentStart p'.tag) w first := by rwa [hthins.tag_eq]
      exact ⟨last, _, (Effects.cons he hrun).append hrest, (Effects.cons he' hrun').append hrest',
        hlast, hplast⟩

/-! ### Documents -/

theorem handle_errorCount {e : Event} (h : v.handle e = .ok (w, found)) :
    w.errorCount = v.errorCount + found.countP (·.severity.isFailure) := by
  obtain ⟨u, raw, he, hjudge | ⟨-, rfl, rfl⟩⟩ := handle_judge h
  · have hcount := judge_errorCount u raw
    rwa [← (judged_judge u raw).1, hjudge, he.errorCount_eq] at hcount
  · rw [he.errorCount_eq]
    rfl

/-- The errors that a run adds are those that it returns. -/
theorem handleAll_errorCount (h : v.handleAll events = .ok (w, found)) :
    w.errorCount = v.errorCount + found.countP (·.severity.isFailure) := by
  induction events generalizing v found with
  | nil =>
      cases h
      rfl
  | cons e rest ih =>
      obtain ⟨v₁, first, more, he, hrest, rfl⟩ := handleAll_cons_eq_ok.1 h
      rw [ih hrest, handle_errorCount he, List.countP_append, Nat.add_assoc]

/-- Events with the same effects are read with the same result when nothing ends validation. -/
theorem Effects.read_alike (h : Effects v events w raw) (h' : Effects v events' w raw)
    (hc : v.config.NeverHalts) (errors : Nat) :
    ∃ count found, handleAll { v with errorCount := errors } events =
        .ok ({ w with errorCount := count }, found) ∧
      handleAll { v with errorCount := errors } events' =
        .ok ({ w with errorCount := count }, found) := by
  obtain ⟨count, hrun⟩ := (h.runsTo errors).ok hc
  obtain ⟨count', hrun'⟩ := (h'.runsTo errors).ok hc
  have hcount : count = count' :=
    (handleAll_errorCount hrun).trans (handleAll_errorCount hrun').symm
  rw [← hcount] at hrun'
  exact ⟨count, _, hrun, hrun'⟩

/-- What comes in front of a segment of a document is read as a whole, with the values that are left
as with all of them. -/
theorem effects_before_thinned (hb : schema.Bound) (config : Config) (version : Option String)
    (h : List.Forall₂ Passage.Thins doc doc') (hi : ∀ p ∈ doc, Increasing p.values) :
    ∃ v raw,
      Effects { schema, config } (.interchangeStart version :: doc.flatMap Passage.events) v raw ∧
        Effects { schema, config } (.interchangeStart version :: doc'.flatMap Passage.events) v
          raw ∧
        v.Ready ∧ Phase v := by
  have hstart : Effect { schema, config } (.interchangeStart version) _ [] := .start rfl
  have hopened := hstart.phase hb.audited (.outside (by rintro (h | h) <;> cases h) rfl rfl)
  obtain ⟨v, raw, hrun, hrun', hready, hphase⟩ :=
    effects_segments_thinned ⟨.inl rfl, rfl⟩ hopened hb.audited h hi
  exact ⟨v, raw, hrun.cons_quiet hstart, hrun'.cons_quiet hstart, hready, hphase⟩

/-- From its start on, a segment is read with the values that are left as with all of them. -/
theorem read_passage_thinned (hv : v.Ready) (hp : Phase v) (ha : v.schema.root.Audited)
    (hc : v.config.NeverHalts) (h : p.Thins p') (hi : Increasing p.values) (errors : Nat) :
    ∃ v₁ first w found,
      ({ v with errorCount := errors }).handle (.segmentStart p.tag) = .ok (v₁, first) ∧
        ({ v with errorCount := errors }).handle (.segmentStart p'.tag) = .ok (v₁, first) ∧
        v₁.handleAll (p.body ++ [.segmentEnd]) = .ok (w, found) ∧
        v₁.handleAll (p'.body ++ [.segmentEnd]) = .ok (w, found) := by
  obtain ⟨w, first, u, raw, he, hbody, hbody', -, -⟩ := effects_passage_thinned hv hp ha h hi
  have hcw : w.config.NeverHalts := by rwa [he.config_eq]
  obtain ⟨v₁, found, hhandle, -, count, rfl | ⟨hends, -⟩⟩ := (he.withErrors errors).handle
  · obtain ⟨_, found', hend, hend'⟩ := hbody.read_alike hbody' hcw count
    refine ⟨_, found, _, found', hhandle, ?_, hend, hend'⟩
    rw [h.tag_eq]
    exact hhandle
  · exact absurd hcw hends

/-- Where nothing that is found ends validation and the values of each segment come in increasing
order, a document without some of its empty values is read as the document with them. In each
segment the same is found, in the same order, whatever is found in front of it and at its start is
the same, and the validator is the same before and after it; and so it is at the end. -/
theorem empty_as_absent (hb : schema.Bound) (hc : config.NeverHalts) (version : Option String)
    (h : List.Forall₂ Passage.Thins doc doc') (hi : ∀ p ∈ doc, Increasing p.values) :
    let new : Validator := { schema, config }
    (∀ n p p', doc[n]? = some p → doc'[n]? = some p' →
      ∃ v past v₁ first w found,
        new.handleAll (.interchangeStart version :: (doc.take n).flatMap Passage.events) =
            .ok (v, past) ∧
          new.handleAll (.interchangeStart version :: (doc'.take n).flatMap Passage.events) =
            .ok (v, past) ∧
          v.handle (.segmentStart p.tag) = .ok (v₁, first) ∧
          v.handle (.segmentStart p'.tag) = .ok (v₁, first) ∧
          v₁.handleAll (p.body ++ [.segmentEnd]) = .ok (w, found) ∧
          v₁.handleAll (p'.body ++ [.segmentEnd]) = .ok (w, found)) ∧
      ∃ last found, last.state = .complete ∧
        new.handleAll (document version doc) = .ok (last, found) ∧
        new.handleAll (document version doc') = .ok (last, found) := by
  intro new
  constructor
  · intro n p p' hp hp'
    have hthins : p.Thins p' := by
      obtain ⟨hlt, rfl⟩ := List.getElem?_eq_some_iff.1 hp
      obtain ⟨hlt', rfl⟩ := List.getElem?_eq_some_iff.1 hp'
      exact h.get hlt hlt'
    obtain ⟨v, raw, hrun, hrun', hready, hphase⟩ := effects_before_thinned hb config version
      (List.forall₂_take n h) fun q hq => hi q (List.mem_of_mem_take hq)
    have ha : v.schema.root.Audited := by
      rw [hrun.schema_eq]
      exact hb.audited
    have hcv : v.config.NeverHalts := by
      rw [hrun.config_eq]
      exact hc
    obtain ⟨count, past, hpast, hpast'⟩ := hrun.read_alike hrun' hc 0
    obtain ⟨v₁, first, w, found, hpassage⟩ := read_passage_thinned hready hphase ha hcv hthins
      (hi p (List.mem_of_getElem? hp)) count
    exact ⟨_, past, v₁, first, w, found, hpast, hpast', hpassage⟩
  · obtain ⟨v, raw, hrun, hrun', hready, -⟩ := effects_before_thinned hb config version h hi
    have hfinish := effects_finish hready
    obtain ⟨count, found, hall, hall'⟩ :=
      (hrun.append hfinish).read_alike (hrun'.append hfinish) hc 0
    exact ⟨_, found, rfl, hall, hall'⟩

/-- A segment with elements of some texts. -/
def textPassage (tag : String) (texts : List (Nat × String)) : Passage where
  tag := tag
  body := texts.map fun t => .element ⟨⟨t.1, none⟩, 0, t.2⟩
  inside := by
    intro e he
    obtain ⟨t, -, rfl⟩ := List.mem_map.1 he
    rfl

/-- An empty element beyond the declared ones, and one that decides. Without it what comes next
decides, and the report is the same. -/
theorem empty_as_absent_paired :
    let new : Validator := { schema := pairedSchema, config := lenient }
    let doc := [textPassage "A" [(1, "x"), (2, "q"), (3, "")], textPassage "A" [(1, ""), (2, "q")]]
    let doc' := [textPassage "A" [(1, "x"), (2, "q")], textPassage "A" [(2, "q")]]
    pairedSchema.Bound ∧ lenient.NeverHalts ∧ List.Forall₂ Passage.Thins doc doc' ∧
      (∀ p ∈ doc, Increasing p.values) ∧
      ∃ last found, last.state = .complete ∧
        new.handleAll (document none doc) = .ok (last, found) ∧
        new.handleAll (document none doc') = .ok (last, found) ∧
        found.map (·.kind) = [.unresolvedImplementation, .tooManyDataElements] := by
  intro new doc doc'
  have hthins : List.Forall₂ Passage.Thins doc doc' :=
    .cons ⟨rfl, .keep (.keep (.drop rfl .nil))⟩ (.cons ⟨rfl, .drop rfl (.keep .nil)⟩ .nil)
  have hi : ∀ p ∈ doc, Increasing p.values := by decide
  obtain ⟨-, last, found, hlast, hall, hall'⟩ :=
    empty_as_absent pairedSchema_bound lenient_neverHalts none hthins hi
  obtain ⟨w, reports, hrun, hkinds⟩ : ∃ w reports,
      new.handleAll (document none doc) = .ok (w, reports) ∧
        reports.map (·.kind) = [.unresolvedImplementation, .tooManyDataElements] :=
    ⟨_, _, rfl, rfl⟩
  obtain ⟨rfl, rfl⟩ := Prod.mk.inj (Except.ok.inj (hall.symm.trans hrun))
  exact ⟨pairedSchema_bound, lenient_neverHalts, hthins, hi, last, found, hlast, hall, hall',
    hkinds⟩

end Validator

end Interchange
