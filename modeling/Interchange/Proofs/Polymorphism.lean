import Interchange.Proofs.Invariant
import Interchange.Proofs.Kinds

/-!
# Definitions with implementations

The definition in effect for a segment can itself have implementations. When the segment is a
child of an open loop, the values choose one of them, or exactly one report says that they do
not (`polymorphic_decided`).

A segment that opens a loop waits for the implementation of the loop and for nothing else. When
its own definition has implementations, its values are checked against the elements of that
definition, and nothing says so: see `polymorphic_unreported`.
-/

namespace Interchange

namespace Implementation

variable {β : Type} {is : List (Implementation β)} {values : List ElementValue} {n : Nat}
  {complete : Bool} {i : Implementation β}

theorem selectFrom_accepts {index : Nat} {waiting : Bool}
    (h : selectFrom values complete index waiting is = .resolved n)
    (hi : is[n - index]? = some i) : i.selected? values complete = some true := by
  induction is generalizing index waiting with
  | nil => cases hi
  | cons a rest ih =>
      rw [selectFrom] at h
      split at h
      · rename_i ha
        cases h
        rw [Nat.sub_self] at hi
        cases hi
        exact ha
      all_goals
        obtain ⟨hle, -⟩ := selectFrom_resolved h
        rw [show n - index = (n - (index + 1)) + 1 by omega] at hi
        exact ih h hi

/-- The discriminator of a selected implementation accepts the value that it reads. -/
theorem select_accepts (h : select is values complete = .resolved n) (hi : is[n]? = some i) :
    i.selected? values complete = some true :=
  selectFrom_accepts h (by rwa [Nat.sub_zero])

end Implementation

namespace Validator

variable {schema : Schema} {config : Config} {root l : Loop} {v v₁ : Validator}
  {frames frames' outer : List Frame} {f g : Frame} {c : Child} {m : Match}
  {s t : OpenSegment} {tag : String} {found report : List Violation} {complete : Bool}
  {values : List ElementValue} {d : Segment}

/-! ### Reports on implementations -/

/-- How many reports say that no implementation matches. -/
def unresolvedCount (found : List Violation) : Nat :=
  found.countP (·.kind == .unresolvedImplementation)

theorem unresolvedCount_append (found more : List Violation) :
    unresolvedCount (found ++ more) = unresolvedCount found + unresolvedCount more :=
  List.countP_append

theorem unresolvedCount_eq_zero (h : ∀ x ∈ found, x.kind ≠ .unresolvedImplementation) :
    unresolvedCount found = 0 := by
  unfold unresolvedCount
  rw [List.countP_eq_zero]
  intro x hx
  simpa using h x hx

/-- Only the kinds of the reports count. -/
theorem unresolvedCount_of_kinds {kinds : List Violation.Kind}
    (h : found.map (·.kind) = kinds) :
    unresolvedCount found = kinds.count .unresolvedImplementation := by
  rw [← h, List.count_eq_countP, List.countP_map]
  rfl

theorem unresolvedCount_judged (found : List Violation) :
    unresolvedCount (found.map config.judge) = unresolvedCount found := by
  unfold unresolvedCount
  rw [List.countP_map]
  rfl

theorem OpenSegment.checks_kind (s : OpenSegment) (version : Option String) (codes : Bool) :
    ∀ x ∈ s.checks version codes, x.kind.isElement = true := by
  unfold OpenSegment.checks
  cases s.definition with
  | none => exact fun x hx => nomatch hx
  | some definition => exact fun x hx => (checkValues_report _ _ _ _ _ _ x hx).1.isElement

/-- What is found when the values are checked is not about implementations. -/
theorem unresolvedCount_elements (s : OpenSegment) (version : Option String) (codes : Bool) :
    unresolvedCount (s.checks version codes ++ s.missingElements) = 0 := by
  refine unresolvedCount_eq_zero (List.forall_mem_append.2 ⟨fun x hx hkind => ?_, fun x hx => ?_⟩)
  · have helement := s.checks_kind version codes x hx
    rw [hkind] at helement
    cases helement
  · rw [missingElements_kind s x hx]
    decide

/-- Nor is what is found when a tag is taken. -/
theorem unresolvedCount_take {here : Location} {index : Nat}
    (h : m.take here index tag = ((frames, s), found)) : unresolvedCount found = 0 := by
  refine unresolvedCount_eq_zero fun x hx hkind => ?_
  have hsequence := Match.take_kind h hx
  rw [hkind] at hsequence
  cases hsequence

/-! ### Decisions about a segment that has just started -/

/-- A segment that is a child of its own decides among its own implementations. -/
theorem Decision.of_segment (h : Decision complete f s g t report) (hd : s.definition = some d)
    (hu : s.undecided = if d.isPolymorphic then some .segment else none) :
    (d.isPolymorphic = false ∧ t.definition = some d ∧ report = []) ∨
      (∃ n i, Implementation.select d.implementations s.values complete = .resolved n ∧
        d.implementations[n]? = some i ∧ t.definition = some i.body ∧ report = []) ∨
      (Implementation.select d.implementations s.values complete = .noMatch ∧
        t.definition = some d ∧ report.map (·.kind) = [.unresolvedImplementation]) := by
  have hnot : s.undecided ≠ some .loop := by
    rw [hu]
    split <;> simp
  cases h with
  | settled hn =>
      refine .inl ⟨?_, hd, rfl⟩
      rw [hu] at hn
      split at hn
      · cases hn
      · simpa using ‹¬ d.isPolymorphic = true›
  | @segment d' n i _ hd' hc hi =>
      rw [hd] at hd'
      cases hd'
      exact .inr (.inl ⟨n, i, hc, hi, rfl, rfl⟩)
  | @noSegment d' _ hd' hc =>
      rw [hd] at hd'
      cases hd'
      exact .inr (.inr ⟨hc, hd, rfl⟩)
  | loop hl => exact absurd hl hnot
  | noLoop hl => exact absurd hl hnot

/-- A segment that opens a loop takes the leading segment of the list that is decided on. It is
reported when no implementation of the loop matches. -/
theorem Decision.of_loop (h : Decision complete f s g t report) (hf : f.loop = l)
    (hd : s.definition = l.leadingSegment?)
    (hu : s.undecided = if l.isPolymorphic then some .loop else none) :
    t.definition = Loop.leadingSegmentOf?
        (l.childrenBy (Implementation.select l.implementations s.values complete)) ∧
      (report = [] ∨ l.isPolymorphic = true ∧ t.definition = l.leadingSegment?) := by
  have hnot : s.undecided ≠ some .segment := by
    rw [hu]
    split <;> simp
  subst hf
  cases h with
  | settled hn =>
      have hplain : f.loop.isPolymorphic = false := by
        rw [hu] at hn
        split at hn
        · cases hn
        · simpa using ‹¬ f.loop.isPolymorphic = true›
      rw [Loop.childrenBy_of_plain hplain]
      exact ⟨hd, .inl rfl⟩
  | @loop n i leading _ hc hi hl =>
      refine ⟨?_, .inl rfl⟩
      rw [hc, Loop.childrenBy, hi]
      exact hl.symm
  | noLoop hl hc =>
      rw [hc]
      refine ⟨hd, .inr ⟨?_, hd⟩⟩
      rw [hu] at hl
      split at hl
      · assumption
      · cases hl
  | segment hl => exact absurd hl hnot
  | noSegment hl => exact absurd hl hnot

/-- The decision of a segment that has read nothing, at the point where it is made. -/
theorem Inside.decision_at (h : Inside root frames s) (ha : root.Audited) (hs : s.Fresh)
    (hd : decideAll frames s values = (frames', t, report)) :
    ∃ f outer g read rest complete u, frames = f :: outer ∧ values = read ++ rest ∧
      Decision complete f (s.pushAll read) g u report ∧ t = u.pushAll rest ∧
      (s.pushAll read).values = read ∧
      ∀ {β : Type} {is : List (Implementation β)}, Awaits frames s is →
        Implementation.settle is values = Implementation.select is read complete := by
  have hnone : s.values = [] := by rw [OpenSegment.values, hs.read, List.reverse_nil]
  obtain ⟨read, rest, complete, u, rfl, hdecide, rfl, hsettle⟩ := decideAll_at hd
  have hread : (s.pushAll read).values = read := by
    rw [OpenSegment.values_pushAll, hnone, List.nil_append]
  obtain ⟨f, outer, rfl⟩ := List.exists_cons_of_ne_nil h.stack.ne_nil
  have hinside : Inside root (f :: outer) (s.pushAll read) := h.congr rfl rfl rfl rfl
  obtain ⟨g, -, hdecision⟩ := hinside.decision ha hdecide
  refine ⟨f, outer, g, read, rest, complete, u, rfl, rfl, hdecision, rfl, hread, fun hw => ?_⟩
  have hchoice := hsettle hw
  rwa [hnone, hread] at hchoice

/-- A segment whose tag is taken. -/
theorem segment_taken (ha : schema.root.Audited) (hr : Reachable schema config v)
    (hm : locate? tag v.frames = some m) (h : v.handle (.segmentStart tag) = .ok (v₁, found))
    (hs : v₁.segment = some s) :
    v₁.IsOpen ∧ Inside schema.root v₁.frames s ∧
      Opened (m.frame.enter m.index) m.outer m.child v₁.frames s ∧
      schema.root.Holds m.frame.children ∧ m.child ∈ m.frame.children ∧
      unresolvedCount found = 0 := by
  obtain ⟨rfl, -, hwithin⟩ := hr.within
  have hphase := hr.phase ha
  obtain ⟨hframe, -, hchild⟩ := (locate?_eq_some.1 hm).within hwithin
  obtain ⟨w, raw, he, rfl, errors, rfl | ⟨-, rfl⟩⟩ := handle_ok h
  · cases he with
    | take ho hn hm' ht =>
        rw [hm] at hm'
        cases hm'
        cases hs
        obtain ⟨-, hinside, -⟩ := (hphase.take ha ho hn hm ht).inside_of rfl
        refine ⟨isOpen_stateOf _ _ rfl, hinside, (Match.take_eq ht).1, hframe.holds, hchild, ?_⟩
        rw [unresolvedCount_judged, unresolvedCount_take ht]
    | skip _ _ hm' =>
        rw [hm] at hm'
        cases hm'
    | mark _ _ hi => cases hi
  · cases hs

/-! ### Segments whose definition has implementations -/

/-- The definition in effect for a segment that enters a child: its own, or the leading segment
of the list of children on which the loop settles. -/
def definitionFor? (c : Child) (values : List ElementValue) : Option Segment :=
  match c.target with
  | .segment d => some d
  | .loop l =>
      Loop.leadingSegmentOf? (l.childrenBy (Implementation.settle l.implementations values))

/-- The values of a segment choose one of the implementations of its definition, or one report
says that they do not. -/
inductive Told (base : Segment) (values : List ElementValue) (t : Option Segment)
    (unresolved : Nat) : Prop
  /-- The discriminator of the implementation accepts what had come when it was chosen. -/
  | chosen {n : Nat} {i : Implementation Segment}
      (hc : Implementation.settle base.implementations values = .resolved n)
      (hi : base.implementations[n]? = some i)
      (ha : ∃ read rest complete, values = read ++ rest ∧ i.selected? read complete = some true)
      (hd : t = some i.body) (hp : i.body.isPolymorphic = false) (hn : unresolved = 0)
  | reported (hc : Implementation.settle base.implementations values = .noMatch)
      (hd : t = some base) (hn : unresolved = 1)

/-- A segment with its own place in an open loop. -/
theorem Inside.told (h : Inside root frames s) (ha : root.Audited) (hs : s.Fresh)
    (hd : s.definition = some d)
    (hu : s.undecided = if d.isPolymorphic then some .segment else none)
    (hbody : ∀ i ∈ d.implementations, i.body.isPolymorphic = false)
    (hall : decideAll frames s values = (frames', t, report)) :
    (d.isPolymorphic = false → t.definition = some d) ∧
      (d.isPolymorphic = true → Told d values t.definition (unresolvedCount report)) := by
  obtain ⟨f, outer, g, read, rest, complete, u, rfl, rfl, hdecision, rfl, hread, hsettle⟩ :=
    h.decision_at ha hs hall
  have hcases := hdecision.of_segment (d := d) hd hu
  rw [hread] at hcases
  constructor
  · intro hplain
    have himplementations : d.implementations = [] := by
      simpa [Segment.isPolymorphic] using hplain
    rcases hcases with ⟨-, hdefinition, -⟩ | ⟨n, i, -, hi, -⟩ | ⟨-, hdefinition, -⟩
    · exact hdefinition
    · rw [himplementations] at hi
      cases hi
    · exact hdefinition
  · intro hp
    have hchoice := hsettle (.segment (by rw [hu, if_pos hp]) hd)
    rcases hcases with ⟨hn, -⟩ | ⟨n, i, hc, hi, hdefinition, rfl⟩ | ⟨hc, hdefinition, hkinds⟩
    · rw [hp] at hn
      cases hn
    · exact .chosen (hchoice.trans hc) hi
        ⟨read, rest, complete, rfl, Implementation.select_accepts hc hi⟩ hdefinition
        (hbody i (List.mem_of_getElem? hi)) rfl
    · exact .reported (hchoice.trans hc) hdefinition (unresolvedCount_of_kinds hkinds)

/-- A segment that opens a loop. -/
theorem Inside.led (h : Inside root frames s) (ha : root.Audited) (hs : s.Fresh)
    (hf : frames.head?.map (·.loop) = some l) (hd : s.definition = l.leadingSegment?)
    (hu : s.undecided = if l.isPolymorphic then some .loop else none)
    (hall : decideAll frames s values = (frames', t, report)) :
    t.definition = Loop.leadingSegmentOf?
        (l.childrenBy (Implementation.settle l.implementations values)) ∧
      (report = [] ∨ l.isPolymorphic = true ∧ t.definition = l.leadingSegment?) := by
  obtain ⟨f, outer, g, read, rest, complete, u, rfl, rfl, hdecision, rfl, hread, hsettle⟩ :=
    h.decision_at ha hs hall
  obtain rfl := Option.some.inj hf
  obtain ⟨hdefinition, hreport⟩ := hdecision.of_loop (l := f.loop) rfl hd hu
  rw [hread] at hdefinition
  refine ⟨hdefinition.trans ?_, hreport⟩
  cases hp : f.loop.isPolymorphic with
  | false => rw [Loop.childrenBy_of_plain hp, Loop.childrenBy_of_plain hp]
  | true => rw [hsettle (.loop (by rw [hu, if_pos hp]) rfl)]

/-- What is decided about a child that has just been opened, when the values come. -/
theorem Opened.decided (h : Opened f outer c frames s) (ha : root.Audited)
    (hinside : Inside root frames s) {cs : List Child} (hcs : root.Holds cs) (hc : c ∈ cs)
    (hall : decideAll frames s values = (frames', t, report)) :
    ∃ base, definitionFor? c values = some base ∧
      (base.isPolymorphic = false → t.definition = some base) ∧
      (base.isPolymorphic = true →
        if c.isLoop then t.definition = some base ∧ unresolvedCount report = 0
        else Told base values t.definition (unresolvedCount report)) := by
  have hs := h.fresh
  cases h with
  | @segment d _ ht _ hd hu =>
      obtain ⟨hplain, htold⟩ := hinside.told ha hs hd hu
        (fun i hi => (ha.segmentBody hcs hc ht hi).2) hall
      refine ⟨d, by rw [definitionFor?, ht], hplain, ?_⟩
      rw [if_neg (by simp [Reference.isLoop, ht])]
      exact htold
  | @loop l path _ ht _ hd hu =>
      obtain ⟨hled, hreport⟩ := hinside.led (l := l) ha hs rfl hd hu hall
      obtain ⟨leading, base, rest, hlist, htarget, -⟩ :=
        ha.childrenBy hcs hc ht (Implementation.settle l.implementations values)
      have hbase : Loop.leadingSegmentOf? (l.childrenBy
          (Implementation.settle l.implementations values)) = some base := by
        rw [hlist, Loop.leadingSegmentOf?_cons htarget]
      rw [hbase] at hled
      refine ⟨base, by rw [definitionFor?, ht]; exact hbase, fun _ => hled, fun hp => ?_⟩
      rw [if_pos (by simp [Reference.isLoop, ht])]
      refine ⟨hled, ?_⟩
      rcases hreport with rfl | ⟨hpolymorphic, hleading⟩
      · rfl
      · -- The loop and its own leading segment do not both have implementations.
        rw [hled] at hleading
        rw [ha.plainLeading hcs hc ht hpolymorphic hleading.symm] at hp
        cases hp

/-- A segment whose definition has implementations is checked against one of them, which its
values choose, or it is reported exactly once that they choose none. A segment that opens a loop
is an exception: it is checked against the elements of its definition without a report. -/
theorem polymorphic_decided {body : List Event} (hb : schema.Bound)
    (hr : Reachable schema config v) (hm : locate? tag v.frames = some m)
    (h : v.handle (.segmentStart tag) = .ok (v₁, found)) (hs : v₁.segment = some s)
    (hbody : ∀ e ∈ body, e.isInside = true) :
    let values := body.filterMap Event.value?
    ∃ (base : Segment) (frames : List Frame) (t : OpenSegment) (report raw : List Violation),
      definitionFor? m.child values = some base ∧ t.values = values ∧
      raw = report ++ t.checks v₁.version v₁.config.validateCodeValues ++ t.missingElements ∧
      RunsTo v₁ (body ++ [.segmentEnd]) { v₁ with frames, segment := none } raw ∧
      (base.isPolymorphic = false → t.definition = some base) ∧
      (base.isPolymorphic = true →
        if m.child.isLoop then t.definition = some base ∧ unresolvedCount (found ++ raw) = 0
        else Told base values t.definition (unresolvedCount (found ++ raw))) := by
  intro values
  have ha := hb.audited
  obtain ⟨ho, hinside, hopened, hholds, hmem, hfound⟩ := segment_taken ha hr hm h hs
  obtain ⟨frames, t, report, hd⟩ : ∃ frames t report,
      decideAll v₁.frames s values = (frames, t, report) := ⟨_, _, _, rfl⟩
  obtain ⟨hvalues, hchecks⟩ := (decideAll_decides hd).checks hopened.fresh
  have hrun := (effects_body ho hs hbody hd).runsTo v₁.errorCount
  rw [hchecks] at hrun
  obtain ⟨base, hbase, hplain, hpolymorphic⟩ := hopened.decided ha hinside hholds hmem hd
  refine ⟨base, frames, t, report, _, hbase, hvalues, rfl, hrun, hplain, ?_⟩
  -- Only the decision reports on implementations.
  have hcount : unresolvedCount (found ++ (report ++
      t.checks v₁.version v₁.config.validateCodeValues ++ t.missingElements)) =
      unresolvedCount report := by
    rw [List.append_assoc, unresolvedCount_append, unresolvedCount_append,
      unresolvedCount_elements, hfound]
    omega
  rw [hcount]
  exact hpolymorphic

/-- A segment that is a child of the root loop, with a value that selects its implementation. -/
theorem polymorphic_decided_paired :
    ∃ (m : Match) (v₁ : Validator) (s : OpenSegment) (base : Segment) (frames : List Frame)
      (t : OpenSegment) (raw : List Violation), pairedSchema.Bound ∧
      Reachable pairedSchema {} pairedStart ∧ locate? "A" pairedStart.frames = some m ∧
      pairedStart.handle (.segmentStart "A") = .ok (v₁, []) ∧ v₁.segment = some s ∧
      definitionFor? m.child [⟨⟨1, none⟩, 0, "x"⟩] = some base ∧ base.isPolymorphic = true ∧
      RunsTo v₁ [.element ⟨⟨1, none⟩, 0, "x"⟩, .segmentEnd] { v₁ with frames, segment := none }
        raw ∧
      Told base [⟨⟨1, none⟩, 0, "x"⟩] t.definition (unresolvedCount raw) := by
  have hinside : ∀ e ∈ [Event.element ⟨⟨1, none⟩, 0, "x"⟩], e.isInside = true := by decide
  obtain ⟨base, frames, t, report, raw, hbase, -, -, hrun, -, hpolymorphic⟩ :=
    polymorphic_decided pairedSchema_bound pairedStart_reachable
      (show locate? "A" pairedStart.frames = some _ from rfl)
      (show pairedStart.handle (.segmentStart "A") = .ok (_, []) from rfl) rfl hinside
  cases hbase
  exact ⟨_, _, _, _, frames, t, raw, pairedSchema_bound, pairedStart_reachable, rfl, rfl, rfl, rfl,
    rfl, hrun, hpolymorphic rfl⟩

/-- A schema with a loop that opens with a segment that has an implementation. -/
def ledSchema : Schema where
  name := "LED"
  root := ⟨"ROOT", [⟨.loop ⟨"L", [⟨.segment { singleSegment "A" with
    implementations := [⟨"X", ⟨⟨1, none⟩, ["x"]⟩, ⟨"AX", "A", [textElement, textElement], []⟩⟩] },
    1, .bounded 1⟩], []⟩, 0, .unbounded⟩], []⟩
  tags := ["A"]

/-- A segment that opens a loop is not reported although its values choose none of the
implementations of its definition. -/
theorem polymorphic_unreported :
    ∃ (v : Validator) (m : Match) (v₁ : Validator) (base : Segment) (v₂ : Validator),
      ledSchema.Bound ∧ Reachable ledSchema {} v ∧ locate? "A" v.frames = some m ∧
      v.handle (.segmentStart "A") = .ok (v₁, []) ∧
      definitionFor? m.child [⟨⟨1, none⟩, 0, "z"⟩] = some base ∧ base.isPolymorphic = true ∧
      Implementation.settle base.implementations [⟨⟨1, none⟩, 0, "z"⟩] = .noMatch ∧
      v₁.handleAll [.element ⟨⟨1, none⟩, 0, "z"⟩, .segmentEnd] = .ok (v₂, []) ∧
      v₂.state ≠ .failed := by
  have hb : ledSchema.Bound :=
    .tree (show Schema.bind "LED" ledSchema.root = .ok ledSchema from rfl)
  have hr : Reachable ledSchema {} _ := .handle (e := .interchangeStart none) .new rfl
  exact ⟨_, _, _, _, _, hb, hr, rfl, rfl, rfl, rfl, rfl, rfl, by decide⟩

end Validator

end Interchange
