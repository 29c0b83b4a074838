import Interchange.Proofs.Definitions
import Interchange.Proofs.Frames
import Interchange.Proofs.Streaming

/-!
# The reports of a segment

Every loop that is open belongs to the tree of the schema (`Reachable.within`), so that in a
bound schema the implementations that a segment waits for look at one position
(`Opened.samePosition`). The reports of a segment are those of the decision that settles while
its values arrive and of one check of all of them after it. They do not depend on how the values
arrive, as long as these arrive in the order of the stream (`segment_reports`).

Values that come out of order can miss their discriminator: a position that has been passed
counts as empty (`segment_out_of_order`).
-/

namespace Interchange.Validator

variable {schema : Schema} {config : Config} {root : Loop} {v v₁ w : Validator} {e : Event}
  {frames frames' outer : List Frame} {f : Frame} {child : Child} {index : Nat} {tag : String}
  {s t : OpenSegment} {found raw : List Violation}

/-! ### Open loops belong to the tree -/

/-- The lists of children that a loop can have are held by the root loop. -/
def Frame.Within (root : Loop) (f : Frame) : Prop := ∀ cs ∈ f.loop.lists, root.Holds cs

theorem Frame.children_mem_lists (f : Frame) : f.children ∈ f.loop.lists := by
  unfold Frame.children
  split
  · split
    · rename_i i hi
      exact Loop.body_mem_lists (List.mem_of_getElem? hi)
    · exact Loop.children_mem_lists _
  all_goals exact Loop.children_mem_lists _

theorem Frame.Within.holds (h : f.Within root) : root.Holds f.children :=
  h _ f.children_mem_lists

@[simp] theorem Frame.settled_loop (f : Frame) (choice : Selection) :
    (f.settled choice).loop = f.loop := by
  unfold Frame.settled
  split
  · split <;> rfl
  all_goals rfl

theorem Opened.within (h : Opened f outer child frames s) (hf : f.Within root)
    (ho : ∀ g ∈ outer, g.Within root) (hc : child ∈ f.children) : ∀ g ∈ frames, g.Within root := by
  have hframes : ∀ g ∈ f :: outer, g.Within root := by
    intro g hg
    rcases List.mem_cons.1 hg with rfl | hg
    · exact hf
    · exact ho g hg
  cases h with
  | segment => exact hframes
  | loop ht =>
      intro g hg
      rcases List.mem_cons.1 hg with rfl | hg
      · exact fun cs hcs => hf.holds.inside hc ht hcs
      · exact hframes g hg

theorem within_settledFrames (choose : {β : Type} → List (Implementation β) → Selection)
    (h : ∀ f ∈ frames, f.Within root) : ∀ f ∈ settledFrames frames s choose, f.Within root := by
  unfold settledFrames
  split
  · intro g hg
    rcases List.mem_cons.1 hg with rfl | hg
    · unfold Frame.Within
      rw [Frame.settled_loop]
      exact h _ List.mem_cons_self
    · exact h g (List.mem_cons_of_mem _ hg)
  · exact h

/-- Reading values changes nothing but what has been checked, or makes the decision. -/
theorem advance_cases {complete : Bool} (h : v.advance s complete = (frames, t, found)) :
    frames = v.frames ∧ t = s ∨
      frames = settledFrames v.frames s (Implementation.select · s.values complete) ∧
        t.undecided = none := by
  cases hd : decide? v.frames s complete with
  | none =>
      rw [advance_of_none hd] at h
      cases h
      exact .inl ⟨rfl, rfl⟩
  | some d =>
      rw [advance_of_some hd] at h
      cases h
      have hdecides := decides_of_decide? hd
      have hundecided : d.2.1.undecided = none := by rw [hdecides.segment_eq]
      exact .inr ⟨hdecides.frames_eq, OpenSegment.undecided_checkNew.trans hundecided⟩

theorem Located.within {m : Match} (h : Located tag frames m)
    (hw : ∀ f ∈ frames, f.Within root) :
    m.frame.Within root ∧ (∀ f ∈ m.outer, f.Within root) ∧ m.child ∈ m.frame.children := by
  rw [h.frames_eq] at hw
  refine ⟨hw _ (by simp), fun f hf => hw _ (by simp [hf]), ?_⟩
  exact List.mem_of_getElem? (Frame.childFrom?_eq_some.1 h.found).2.1

theorem Effect.within (h : Effect v e w raw) (hv : ∀ f ∈ v.frames, f.Within v.schema.root) :
    ∀ f ∈ w.frames, f.Within w.schema.root := by
  have hadvanced {s t : OpenSegment} {complete : Bool} {frames : List Frame}
      {found : List Violation} (ha : v.advance s complete = (frames, t, found)) :
      ∀ f ∈ frames, f.Within v.schema.root := by
    rcases advance_cases ha with ⟨rfl, -⟩ | ⟨rfl, -⟩
    · exact hv
    · exact within_settledFrames _ hv
  cases h with
  | start =>
      intro f hf
      obtain rfl := List.mem_singleton.1 hf
      exact fun cs hcs => .own hcs
  | take _ _ hm ht =>
      obtain ⟨hframe, houter, hchild⟩ := (locate?_eq_some.1 hm).within hv
      exact (Match.take_eq ht).1.within hframe houter hchild
  | skip => exact hv
  | mark => exact hv
  | value _ _ ha => exact hadvanced ha
  | close _ _ ha => exact hadvanced ha
  | finish =>
      intro f hf
      cases hf

/-- The loops that are open belong to the tree of the schema. -/
theorem Reachable.within (h : Reachable schema config v) :
    v.schema = schema ∧ v.config = config ∧ ∀ f ∈ v.frames, f.Within schema.root := by
  refine h.induction (motive := fun v => v.schema = schema ∧ v.config = config ∧
    ∀ f ∈ v.frames, f.Within schema.root) ⟨rfl, rfl, fun f hf => nomatch hf⟩ ?_ ?_ ?_ ?_
  · rintro v w e raw ⟨rfl, rfl, hv⟩ he
    rw [← he.schema_eq]
    exact ⟨rfl, he.config_eq, he.within hv⟩
  · exact fun h => h
  · rintro v errors ⟨rfl, rfl, -⟩
    exact ⟨rfl, rfl, fun f hf => nomatch hf⟩
  · rintro v ⟨rfl, rfl, -⟩
    exact ⟨rfl, rfl, fun f hf => nomatch hf⟩

/-! ### The start of a segment -/

/-- In an audited tree the implementations that a segment waits for look at one position. -/
theorem Opened.samePosition {β : Type} {is : List (Implementation β)}
    (h : Opened f outer child frames s) (ha : root.Audited) (hf : root.Holds f.children)
    (hc : child ∈ f.children) (hw : Awaits frames s is) : Implementation.SamePosition is := by
  cases h with
  | segment ht _ hd hu =>
      cases hw with
      | loop hl =>
          rw [hu] at hl
          split at hl <;> cases hl
      | segment _ hd' =>
          rw [hd] at hd'
          cases hd'
          exact ha.segmentPosition hf hc ht
  | loop ht _ _ hu =>
      cases hw with
      | loop _ hframes =>
          cases hframes
          exact ha.position hf hc ht
      | segment hl =>
          rw [hu] at hl
          split at hl <;> cases hl

/-- A segment that starts has read nothing, and the implementations that it waits for look at
one position. -/
theorem Effect.started (h : Effect v (.segmentStart tag) w raw) (ha : v.schema.root.Audited)
    (hv : ∀ f ∈ v.frames, f.Within v.schema.root) :
    ∃ s, w.segment = some s ∧ w.IsOpen ∧ s.Fresh ∧
      ∀ {β : Type} {is : List (Implementation β)}, Awaits w.frames s is →
        Implementation.SamePosition is := by
  cases h with
  | take _ _ hm ht =>
      obtain ⟨hframe, -, hchild⟩ := (locate?_eq_some.1 hm).within hv
      have hopened := (Match.take_eq ht).1
      exact ⟨_, rfl, isOpen_stateOf _ _ rfl, hopened.fresh,
        hopened.samePosition ha hframe.holds hchild⟩
  | skip =>
      refine ⟨_, rfl, isOpen_stateOf _ _ rfl, ⟨rfl, rfl, rfl⟩, fun h => ?_⟩
      cases h with
      | loop hu => cases hu
      | segment hu => cases hu
  | mark _ _ hi => cases hi

/-- So it is in every state that can be reached. -/
theorem segment_started (ha : schema.root.Audited) (hr : Reachable schema config v)
    (h : v.handle (.segmentStart tag) = .ok (v₁, found)) (hs : v₁.segment = some s) :
    v₁.IsOpen ∧ s.Fresh ∧ ∀ {β : Type} {is : List (Implementation β)},
      Awaits v₁.frames s is → Implementation.SamePosition is := by
  obtain ⟨rfl, -, hwithin⟩ := hr.within
  obtain ⟨w, raw, he, -, errors, rfl | ⟨-, rfl⟩⟩ := handle_ok h
  · obtain ⟨s', hs', hstarted⟩ := he.started ha hwithin
    obtain rfl : s' = s := Option.some.inj (hs'.symm.trans hs)
    exact hstarted
  · cases hs

/-! ### The reports of a segment -/

/-- The violations of the values of a segment when each is checked once, in order of arrival,
against its definition. -/
def OpenSegment.checks (s : OpenSegment) (version : Option String) (codes : Bool) :
    List Violation :=
  match s.definition with
  | none => []
  | some definition => (checkValues definition version codes s.location [] s.values).1

theorem Decides.checks {choose : {β : Type} → List (Implementation β) → Selection}
    {values : List ElementValue} {version : Option String} {codes : Bool}
    (h : Decides frames (s.pushAll values) choose frames' t found) (hs : s.Fresh) :
    t.values = values ∧ (t.checkNew version codes).2 = t.checks version codes := by
  have hread : t.read = values.reverse := by
    rw [h.segment_eq, OpenSegment.pushAll, hs.read, List.append_nil]
  have hunchecked : t.unchecked = values.reverse := by
    rw [h.segment_eq, OpenSegment.pushAll, hs.unchecked, List.append_nil]
  have hflagged : t.flagged = [] := by
    rw [h.segment_eq, OpenSegment.pushAll, hs.flagged]
  have hvalues : t.values = values := by
    rw [OpenSegment.values, hread, List.reverse_reverse]
  refine ⟨hvalues, ?_⟩
  unfold OpenSegment.checkNew OpenSegment.checks
  cases t.definition with
  | none => rfl
  | some definition => rw [hunchecked, hflagged, hvalues, List.reverse_reverse]

/-- The reports of a segment are those of its decision, of one check of all its values against
the definition that is decided on, and of what is missing from that definition, whichever of the
values decides. The decision is the one that settles while the values arrive (`decideAll`): it gives
the segment its definition and its path, and leaves the loops that are open afterwards. It reports
an implementation that cannot be told, and nothing else. When the values come in the order of the
stream it is the decision that all of them make at once. -/
theorem segment_reports {body : List Event} (hb : schema.Bound) (hr : Reachable schema config v)
    (h : v.handle (.segmentStart tag) = .ok (v₁, found)) (hs : v₁.segment = some s)
    (hbody : ∀ e ∈ body, e.isInside = true) :
    let values := body.filterMap Event.value?
    ∃ frames t report,
      decideAll v₁.frames s values = (frames, t, report) ∧
      RunsTo v₁ (body ++ [.segmentEnd]) { v₁ with frames, segment := none }
        (report ++ t.checks v₁.version v₁.config.validateCodeValues ++ t.missingElements) ∧
      t.values = values ∧
      report.map (·.kind) =
        (if awaited v₁.frames s (Implementation.settle · values) = some .noMatch then
          [.unresolvedImplementation] else []) ∧
      (InStreamOrder values →
        awaited v₁.frames s (Implementation.settle · values) =
            awaited v₁.frames s (Implementation.select · values true) ∧
          decide? v₁.frames (s.pushAll values) true = some (frames, t, report)) := by
  intro values
  obtain ⟨ho, hfresh, hposition⟩ := segment_started hb.audited hr h hs
  have hnone : s.values = [] := by rw [OpenSegment.values, hfresh.read, List.reverse_nil]
  obtain ⟨frames, t, report, hd⟩ : ∃ frames t report,
      decideAll v₁.frames s values = (frames, t, report) := ⟨_, _, _, rfl⟩
  have hdecides := decideAll_decides hd
  obtain ⟨hvalues, hchecks⟩ := hdecides.checks hfresh
  have hrun := (effects_body ho hs hbody hd).runsTo v₁.errorCount
  rw [hchecks] at hrun
  refine ⟨frames, t, report, hd, hrun, hvalues, ?_, fun horder => ⟨?_, ?_⟩⟩
  · have hkinds := hdecides.kinds_eq
    rw [hnone] at hkinds
    exact hkinds
  · exact awaited_congr fun ha => Implementation.settle_eq_select (hposition ha) horder
  · rw [decideAll_eq_decide? hposition (by rwa [hnone]), hd]

/-! ### Values out of order -/

/-- An element of any text. -/
def textElement : Element := { content := .simple { id := "E", kind := .string } }

/-- A segment without elements whose implementation has two; the first says that it is meant. -/
def pairedSegment : Segment where
  id := "A"
  tag := "A"
  elements := []
  implementations := [⟨"X", ⟨⟨1, none⟩, ["x"]⟩, ⟨"AX", "A", [textElement, textElement], []⟩⟩]

/-- A schema with that segment alone. -/
def pairedSchema : Schema where
  name := "PAIRED"
  root := ⟨"ROOT", [⟨.segment pairedSegment, 0, .unbounded⟩], []⟩
  tags := ["A"]

/-- A validator for it that has read the start of an interchange. -/
def pairedStart : Validator where
  schema := pairedSchema
  config := {}
  state := .inInterchange
  frames := [Frame.ofRoot pairedSchema.root]

theorem pairedSchema_bound : pairedSchema.Bound :=
  .tree (show Schema.bind "PAIRED" pairedSchema.root = .ok pairedSchema from rfl)

theorem pairedStart_reachable : Reachable pairedSchema {} pairedStart :=
  .handle (e := .interchangeStart none) .new rfl

/-- The reports of the segment in the order of the stream: its two values are as they should
be. -/
theorem segment_reports_paired :
    ∃ (v₁ : Validator) (s : OpenSegment) (frames : List Frame) (t : OpenSegment)
      (report : List Violation), pairedSchema.Bound ∧ Reachable pairedSchema {} pairedStart ∧
      pairedStart.handle (.segmentStart "A") = .ok (v₁, []) ∧ v₁.segment = some s ∧
      RunsTo v₁
        [.element ⟨⟨1, none⟩, 0, "x"⟩, .element ⟨⟨2, none⟩, 0, "q"⟩, .segmentEnd]
        { v₁ with frames, segment := none }
        (report ++ t.checks v₁.version v₁.config.validateCodeValues ++ t.missingElements) ∧
      report = [] ∧ t.checks v₁.version v₁.config.validateCodeValues = [] := by
  have hinside : ∀ e ∈ [Event.element ⟨⟨1, none⟩, 0, "x"⟩, .element ⟨⟨2, none⟩, 0, "q"⟩],
      e.isInside = true := by decide
  obtain ⟨frames, t, report, -, hrun, -, -, horder⟩ :=
    segment_reports pairedSchema_bound pairedStart_reachable
      (show pairedStart.handle (.segmentStart "A") = .ok (_, []) from rfl) rfl hinside
  obtain ⟨-, hdecide⟩ := horder (by decide)
  cases hdecide
  exact ⟨_, _, _, _, _, pairedSchema_bound, pairedStart_reachable, rfl, rfl, hrun, rfl, rfl⟩

/-- Out of the order of the stream the reports are not those of all values at once: these
select the implementation, and still it is reported that none can be told. -/
theorem segment_out_of_order :
    ∃ (v₁ : Validator) (s : OpenSegment), pairedSchema.Bound ∧
      Reachable pairedSchema {} pairedStart ∧
      pairedStart.handle (.segmentStart "A") = .ok (v₁, []) ∧ v₁.segment = some s ∧
      awaited v₁.frames s
        (Implementation.select · [⟨⟨2, none⟩, 0, "q"⟩, ⟨⟨1, none⟩, 0, "x"⟩] true) =
          some (.resolved 0) ∧
      ∃ v₂ found,
        v₁.handleAll
          [.element ⟨⟨2, none⟩, 0, "q"⟩, .element ⟨⟨1, none⟩, 0, "x"⟩, .segmentEnd] =
            .ok (v₂, found) ∧
        v₂.state ≠ .failed ∧
        found.map (·.kind) =
          [.unresolvedImplementation, .tooManyDataElements, .tooManyDataElements] :=
  ⟨_, _, pairedSchema_bound, pairedStart_reachable, rfl, rfl, rfl, _, _, rfl, by decide, rfl⟩

end Interchange.Validator
