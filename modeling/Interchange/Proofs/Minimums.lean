import Interchange.Proofs.Conformance
import Interchange.Proofs.Invariant
import Interchange.Proofs.Loading

/-!
# Minimums of elements

A description gives every use of an element a minimum and a maximum number of repetitions. Of the
minimum the tree keeps whether it is 0 (`assemble_lowered`), and one that is above the maximum is
not refused, as it would be for a child of a loop (`toSchema_lowered`).

So at the end of a segment an element is missing when its minimum is not 0 and no repetition below
its maximum carries data (`minimums_kept`). That is what a minimum of 0 or 1 asks for. A larger one
is not enforced (`minimum_of_two_ignored`).

The definition of an open segment is traced to its description through the stack of open loops,
which belong to the tree (`Inside.builtSegment`), and through the segments of the tree, whose
elements are those of a definition, use by use (`BuiltSegment.elements`).
-/

namespace Interchange

/-! ### Loading -/

namespace Schema.Description

/-- The use with a minimum of at most one. -/
def ElementUse.lowered (use : ElementUse) : ElementUse :=
  { use with minOccurs := min use.minOccurs 1 }

/-- The definition with such uses. -/
def Segment.lowered (s : Segment) : Segment :=
  { s with elements := s.elements.map ElementUse.lowered }

/-- The description with no minimum of an element above one. -/
def lowered (d : Description) : Description :=
  { d with segments := d.segments.map Segment.lowered }

theorem segment?_lowered (d : Description) (id : String) :
    d.lowered.segment? id = (d.segment? id).map Segment.lowered := by
  unfold segment? lowered
  rw [List.find?_map]
  rfl

/-- Of a minimum only whether it is 0 makes a difference. -/
theorem assemble_lowered {m : Type → Type} [Monad m] [LawfulMonad m]
    [MonadLiftT (Except Error) m] (contentOf : String → m Content)
    (segmentOf : String → m Interchange.Segment) (s : Segment) :
    s.lowered.assemble contentOf segmentOf = s.assemble contentOf segmentOf := by
  have hmin (use : ElementUse) : 0 < min use.minOccurs 1 ↔ 0 < use.minOccurs := by omega
  simp only [Segment.assemble, Segment.lowered, ElementUse.lowered, List.mapM_map, hmin,
    Function.comp_def]

theorem resolveSegment_lowered (d : Description) (inProgress : List String) (id : String) :
    d.lowered.resolveSegment inProgress id = d.resolveSegment inProgress id := by
  induction inProgress, id using resolveSegment.induct d with
  | case1 inProgress id ih =>
      have hlowered := d.segment?_lowered id
      cases hfound : d.segment? id with
      | none =>
          rw [hfound] at hlowered
          rw [resolveSegment_of_none hfound, resolveSegment_of_none hlowered]
      | some s =>
          rw [hfound] at hlowered
          by_cases hid : id ∈ inProgress
          · rw [resolveSegment_of_mem hfound hid, resolveSegment_of_mem hlowered hid]
          · rw [resolveSegment_of_not_mem hfound hid, resolveSegment_of_not_mem hlowered hid,
              assemble_lowered, funext (ih s hfound hid)]
            rfl

theorem resolveLoop_lowered (d : Description) (inProgress : List String) (id : String) :
    d.lowered.resolveLoop inProgress id = d.resolveLoop inProgress id := by
  induction inProgress, id using resolveLoop.induct d with
  | case1 inProgress id ih =>
      have hlowered : d.lowered.loop? id = d.loop? id := rfl
      cases hfound : d.loop? id with
      | none => rw [resolveLoop_of_none hfound, resolveLoop_of_none (hlowered.trans hfound)]
      | some l =>
          by_cases hid : id ∈ inProgress
          · rw [resolveLoop_of_mem hfound hid, resolveLoop_of_mem (hlowered.trans hfound) hid]
          · rw [resolveLoop_of_not_mem hfound hid,
              resolveLoop_of_not_mem (hlowered.trans hfound) hid, funext (ih l hfound hid),
              funext (d.resolveSegment_lowered (id :: inProgress))]
            rfl

/-- A description means what it means with lower minimums: nothing is refused for one. -/
theorem toSchema_lowered (d : Description) : d.lowered.toSchema = d.toSchema := by
  have hfault : d.lowered.idFault? = d.idFault? := by
    have hids : (d.segments.map Segment.lowered).map (·.id) = d.segments.map (·.id) := by
      rw [List.map_map]
      rfl
    unfold idFault? lowered
    simp only [hids]
  have hresolve : d.lowered.resolve = d.resolve := by
    unfold resolve
    rw [hfault, resolveLoop_lowered]
    rfl
  unfold toSchema
  rw [hresolve]
  rfl

end Schema.Description

/-! ### Counting repetitions and reports -/

instance (values : List ElementValue) (slot : Nat × Nat) : Decidable (Carries values slot) :=
  inferInstanceAs (Decidable (∃ x ∈ values, x.isEmpty = false ∧ x.slot = slot))

/-- How many repetitions of an element, below a maximum, carry data. -/
def filled (values : List ElementValue) (number max : Nat) : Nat :=
  (List.range max).countP fun repetition => Carries values (number, repetition)

/-- The report that the element with a number is missing, as a whole. -/
def Violation.isMissing (x : Violation) (number : Nat) : Bool :=
  x.kind == .requiredElementMissing && x.location.position == some ⟨number, none⟩

theorem filled_eq_zero {values : List ElementValue} {number max : Nat} :
    filled values number max = 0 ↔ ∀ repetition < max, ¬ Carries values (number, repetition) := by
  simp [filled, List.countP_eq_zero]

@[simp] theorem filled_reverse {values : List ElementValue} {number max : Nat} :
    filled values.reverse number max = filled values number max := by
  simp [filled]

namespace Validator

variable {schema : Schema} {config : Config} {v : Validator} {s t : OpenSegment}
  {frames : List Frame} {found : List Violation} {complete : Bool} {definition : Segment}
  {element : Element} {elements : List Element} {number other : Nat}

namespace OpenSegment

theorem filled_eq_zero_iff {values : List ElementValue} :
    filled values other element.maxOccurs = 0 ↔ presentRepetitions values other element = [] := by
  rw [filled_eq_zero, List.eq_nil_iff_forall_not_mem]
  simp only [mem_presentRepetitions, not_and]

/-- An element is reported once when it is required and no repetition carries data. -/
theorem countP_missingIn : (s.missingIn other element).countP (·.isMissing number) =
    if other = number ∧ element.required = true ∧ filled s.read other element.maxOccurs = 0
      then 1 else 0 := by
  simp only [filled_eq_zero_iff]
  unfold missingIn
  split
  · rename_i hnone
    by_cases hrequired : element.required = true
    · rw [if_pos hrequired]
      by_cases hnumber : other = number
      · subst hnumber
        simp [missing, Violation.isMissing, Location.narrow, hrequired, hnone]
      · simp [missing, Violation.isMissing, Location.narrow, hnumber]
    · simp [hrequired]
  · rename_i hsome
    rw [if_neg fun h => hsome h.2.2]
    split
    · rfl
    · refine List.countP_eq_zero.2 fun x hx => ?_
      obtain ⟨repetition, -, hx⟩ := List.mem_flatMap.1 hx
      obtain ⟨place, message, rfl⟩ := missing_of_mem_missingComponents hx
      simp [missing, Violation.isMissing, Location.narrow]

theorem countP_missingFrom_of_lt (h : number < other) :
    (s.missingFrom other elements).countP (·.isMissing number) = 0 := by
  induction elements generalizing other with
  | nil => rfl
  | cons element rest ih =>
      rw [missingFrom, List.countP_append, countP_missingIn, ih (by omega), if_neg (by omega)]

/-- Only the element with a number is reported for it. -/
theorem countP_missingFrom {place : Nat} (h : elements[place]? = some element) :
    (s.missingFrom other elements).countP (·.isMissing (other + place)) =
      if element.required = true ∧ filled s.read (other + place) element.maxOccurs = 0
        then 1 else 0 := by
  induction elements generalizing other place with
  | nil => cases h
  | cons first rest ih =>
      rw [missingFrom, List.countP_append, countP_missingIn]
      cases place with
      | zero =>
          cases h
          rw [countP_missingFrom_of_lt (by omega)]
          simp
      | succ place =>
          rw [List.getElem?_cons_succ] at h
          have hplace : other + (place + 1) = other + 1 + place := by omega
          rw [if_neg (by omega), Nat.zero_add, hplace]
          exact ih h

theorem countP_missingElements (hd : s.definition = some definition)
    (he : definition.element? number = some element) :
    s.missingElements.countP (·.isMissing number) =
      if element.required = true ∧ filled s.read number element.maxOccurs = 0 then 1 else 0 := by
  cases number with
  | zero => cases he
  | succ place =>
      rw [missingElements, hd, Nat.add_comm]
      exact countP_missingFrom he

end OpenSegment

/-! ### The end of a segment -/

/-- Reading keeps the values. -/
theorem advance_read (h : v.advance s complete = (frames, t, found)) : t.read = s.read := by
  cases hd : decide? v.frames s complete with
  | none =>
      rw [advance_of_none hd] at h
      cases h
      rfl
  | some decision =>
      rw [advance_of_some hd] at h
      cases h
      obtain ⟨flagged, hchecked⟩ :=
        decision.2.1.checkNew_fst v.version v.config.validateCodeValues
      rw [hchecked, (decides_of_decide? hd).segment_eq]

/-- What reading finds is not about missing elements. -/
theorem advance_isMissing (h : v.advance s complete = (frames, t, found)) :
    ∀ x ∈ found, x.isMissing number = false := by
  intro x hx
  have hkind : x.kind ≠ .requiredElementMissing := by
    rcases advance_kind h x hx with hkind | hsurplus | ⟨type, value, failure, -, hkind⟩
    · rw [hkind]
      decide
    · intro hkind
      rw [hkind] at hsurplus
      cases hsurplus
    · rw [hkind]
      cases failure <;> exact nofun
  rw [Violation.isMissing, beq_eq_false_iff_ne.2 hkind, Bool.false_and]

/-- In the tree of a description the open segment has the definition of some id. -/
theorem Inside.builtSegment {root : Loop} {d : Schema.Description} (h : Inside root frames s)
    (hroot : d.Built root) (hd : s.definition = some definition) : d.BuiltSegment definition := by
  obtain ⟨hstack, -, hstands⟩ := h
  have hholds := (hstack.within _ List.mem_cons_self).holds
  cases hstands.defined with
  | skipped hnone =>
      rw [hd] at hnone
      cases hnone
  | base hc ht _ hd' =>
      rw [hd] at hd'
      cases hd'
      have htarget := hroot.holds hholds _ (List.mem_of_getElem? hc)
      rwa [ht] at htarget
  | implementation hc ht _ hi _ hd' =>
      rw [hd] at hd'
      cases hd'
      have htarget := hroot.holds hholds _ (List.mem_of_getElem? hc)
      rw [ht] at htarget
      exact Schema.Description.BuiltSegment.body htarget hi

/-- A description is loaded as if no minimum of an element were above one, and at the end of a
segment that is how the minimums of its definition are enforced: the element is reported once when
fewer repetitions below its maximum carry data than that, and not otherwise. -/
theorem minimums_kept (d : Schema.Description) :
    d.lowered.toSchema = d.toSchema ∧
    ∀ {schema : Schema} {config : Config} {v : Validator} {s : OpenSegment},
      d.toSchema = .ok schema → Reachable schema config v → v.segment = some s →
      ∃ w found, v.handle .segmentEnd = .ok (w, found) ∧
        ∀ definition, (v.advance s true).2.1.definition = some definition →
          ∃ source, d.segment? definition.id = some source ∧
            ∀ number use, entry? source.elements number = some use →
              found.countP (·.isMissing number) =
                if filled s.values number (max use.maxOccurs 1) < min use.minOccurs 1
                  then 1 else 0 := by
  refine ⟨d.toSchema_lowered, fun {schema config v s} hd hr hs => ?_⟩
  have hroot := Schema.Description.built_of_resolve (Schema.Description.resolve_of_toSchema hd)
  have haudited := (Schema.Description.toSchema_bound hd).audited
  obtain ⟨rfl, -, -⟩ := hr.within
  obtain ⟨hopen, hinside, hkept, -⟩ := (hr.phase haudited).inside_of hs
  obtain ⟨frames, t, raw, hadvance⟩ : ∃ frames t raw, v.advance s true = (frames, t, raw) :=
    ⟨_, _, _, rfl⟩
  obtain ⟨w, found, hhandle, hjudged, -⟩ :=
    (Effect.close (isOpen_stateOf _ _ hopen) hs hadvance).handle
  refine ⟨w, found, hhandle, fun definition hdefinition => ?_⟩
  rw [hadvance] at hdefinition
  have hbuilt := (hinside.advance haudited hkept hadvance).1.builtSegment hroot hdefinition
  obtain ⟨source, hsource, helements⟩ := hbuilt.elements
  refine ⟨source, hsource, fun number use huse => ?_⟩
  obtain ⟨element, helement, hgives⟩ := helements number use huse
  have hraw : raw.countP (·.isMissing number) = 0 :=
    List.countP_eq_zero.2 fun x hx => by
      rw [advance_isMissing hadvance x hx]
      exact Bool.false_ne_true
  have hfilled : filled t.read number element.maxOccurs =
      filled s.values number (max use.maxOccurs 1) := by
    rw [advance_read hadvance, hgives.maxOccurs_eq, OpenSegment.values, filled_reverse]
  rw [hjudged, List.countP_map]
  change (raw ++ t.missingElements).countP (·.isMissing number) = _
  rw [List.countP_append, hraw, Nat.zero_add,
    OpenSegment.countP_missingElements hdefinition helement, hfilled, hgives.required_eq]
  congr 1
  rw [decide_eq_true_eq, eq_iff_iff]
  omega

/-- A segment that asks for one element once, for one twice, and for one more often than it may
occur. -/
def batchDescription : Schema.Description where
  name := "BATCH"
  root := "ROOT"
  elements := [{ id := "E", kind := .string }]
  segments := [{ id := "A", elements := [⟨"E", 1, 1⟩, ⟨"E", 2, 3⟩, ⟨"E", 4, 1⟩] }]
  loops := [{ id := "ROOT", children := [{ target := "A" }] }]

/-- The segment that is made of it. -/
def batchSegment : Segment where
  id := "A"
  tag := "A"
  elements := [1, 3, 1].map fun maxOccurs =>
    { content := .simple { id := "E", kind := .string, maxLength := 35 }
      required := true
      maxOccurs }
  implementations := []

/-- The schema with that segment. -/
def batchSchema : Schema where
  name := "BATCH"
  root := ⟨"ROOT", [⟨.segment batchSegment, 0, .bounded 1⟩], []⟩
  tags := ["A"]

theorem batchDescription_toSchema : batchDescription.toSchema = .ok batchSchema := by
  have hdistinct : batchDescription.Distinct :=
    ⟨by decide, by decide, by decide, by decide, by decide, by decide⟩
  have hexpands : batchDescription.Expands (.ok batchSchema.root) := ⟨3, rfl⟩
  rw [Schema.Description.toSchema, hexpands.resolve_eq hdistinct]
  rfl

/-- A validator that has read the start of the segment and one value, of its second element. -/
def batchStart : Validator where
  schema := batchSchema
  config := {}
  state := .inInterchange
  frames := [(Frame.ofRoot batchSchema.root).enter 0]
  segment := some
    { index := 1
      tag := "A"
      path := "ROOT/A"
      definition := some batchSegment
      read := [⟨⟨2, none⟩, 0, "x"⟩] }
  segmentCount := 1
  lastTag := some "A"

theorem batchStart_reachable : Reachable batchSchema {} batchStart :=
  .handle (e := .element ⟨⟨2, none⟩, 0, "x"⟩)
    (.handle (e := .segmentStart "A") (.handle (e := .interchangeStart none) .new rfl) rfl) rfl

/-- The first element is missing. -/
theorem minimums_kept_batch : ∃ s w found,
    batchDescription.toSchema = .ok batchSchema ∧ Reachable batchSchema {} batchStart ∧
      batchStart.segment = some s ∧ batchStart.handle .segmentEnd = .ok (w, found) ∧
      found.countP (·.isMissing 1) = 1 ∧ found.countP (·.isMissing 2) = 0 := by
  obtain ⟨w, found, hhandle, hmissing⟩ :=
    (minimums_kept batchDescription).2 batchDescription_toSchema batchStart_reachable rfl
  obtain ⟨source, hsource, hcount⟩ := hmissing batchSegment rfl
  cases hsource
  exact ⟨_, w, found, batchDescription_toSchema, batchStart_reachable, rfl, hhandle,
    hcount 1 _ rfl, hcount 2 _ rfl⟩

/-- The second element is asked for twice and comes once, which is not reported. The third one is
asked for more often than it may occur, and the description is accepted. -/
theorem minimum_of_two_ignored : ∃ source s w found,
    batchDescription.toSchema = .ok batchSchema ∧ Reachable batchSchema {} batchStart ∧
      batchStart.segment = some s ∧ batchStart.handle .segmentEnd = .ok (w, found) ∧
      (batchStart.advance s true).2.1.definition = some batchSegment ∧
      batchDescription.segment? batchSegment.id = some source ∧
      entry? source.elements 2 = some ⟨"E", 2, 3⟩ ∧ filled s.values 2 3 < 2 ∧
      found.countP (·.isMissing 2) = 0 ∧
      entry? source.elements 3 = some ⟨"E", 4, 1⟩ :=
  ⟨_, _, _, _, batchDescription_toSchema, batchStart_reachable, rfl, rfl, rfl, rfl, rfl,
    by decide, rfl, rfl⟩

end Validator

end Interchange
