import Interchange.Proofs.Kinds

/-!
# Segments that meet their declaration

What is wrong inside a segment is found in two passes: each value is held against the position it
is at, and then the declaration is searched for what no value has been found for. `Segment.MetBy`
says what the declaration asks for, without either pass, and `clean_iff_metBy` that nothing is
reported exactly when the values meet it.

The passes meet in the slots of a segment, an element with one of its repetitions. A value whose
slot is not declared is reported for the slot, once, and for nothing else (`Segment.Finds`), so
the reports of the first pass list the slots with data that are not declared
(`checkValues_overruns`). The slots that are left are the ones that the second pass counts as
present (`mem_presentRepetitions`).
-/

namespace Interchange

/-! ### What a declaration asks for -/

/-- The element and the repetition that a value is in. -/
def ElementValue.slot (x : ElementValue) : Nat × Nat := (x.position.element, x.repetition)

/-- Some value carries data in a repetition of an element. -/
def Carries (values : List ElementValue) (slot : Nat × Nat) : Prop :=
  ∃ x ∈ values, x.isEmpty = false ∧ x.slot = slot

/-- The type that a component number addresses. A simple element is its own first component, and
in a composite no number stands for the first one. -/
inductive Content.Addresses : Content → Option Nat → SimpleType → Prop
  | whole {type : SimpleType} : Addresses (.simple type) none type
  | first {type : SimpleType} : Addresses (.simple type) (some 1) type
  | component {type : Composite} {place : Option Nat} {c : Component}
      (h : type.component? (place.getD 1) = some c) : Addresses (.composite type) place c.simpleType

/-- A required element carries data, and so do the required components of each repetition that is
in use. Only repetitions below the maximum count. -/
structure Element.MetBy (element : Element) (number : Nat) (values : List ElementValue) : Prop where
  present : element.required = true →
    ∃ repetition < element.maxOccurs, Carries values (number, repetition)
  components : ∀ type, element.content = .composite type →
    ∀ repetition < element.maxOccurs, Carries values (number, repetition) →
      ∀ place c, type.component? place = some c → c.required = true →
        ∃ x ∈ values, x.isEmpty = false ∧ x.slot = (number, repetition) ∧
          x.position.componentOrFirst = place

namespace Segment

/-- A value lies in a repetition of a declared element and addresses a type whose rules it
keeps. -/
def Admits (d : Segment) (version : Option String) (codes : Bool) (x : ElementValue) : Prop :=
  ∃ element type, d.element? x.position.element = some element ∧
    x.repetition < element.maxOccurs ∧ element.content.Addresses x.position.component type ∧
    Value.check type version codes x.value = []

/-- The values of a segment are as its declaration asks. -/
structure MetBy (d : Segment) (version : Option String) (codes : Bool)
    (values : List ElementValue) : Prop where
  admitted : ∀ x ∈ values, x.isEmpty = false → d.Admits version codes x
  elements : ∀ number element, d.element? number = some element → element.MetBy number values

/-- How data is reported for a slot that is not declared. -/
def overrun? (d : Segment) (slot : Nat × Nat) : Option Violation.Kind :=
  match d.element? slot.1 with
  | none => some .tooManyDataElements
  | some element => if element.maxOccurs ≤ slot.2 then some .tooManyRepetitions else none

end Segment

namespace Violation

/-- Data in a slot that is not declared. -/
def Kind.isOverrun : Kind → Bool
  | tooManyDataElements | tooManyRepetitions => true
  | _ => false

/-- The element and the repetition that a violation is about. -/
def slot? (x : Violation) : Option (Nat × Nat) :=
  match x.location.position, x.location.repetition with
  | some position, some repetition => some (position.element, repetition)
  | _, _ => none

end Violation

variable {d : Segment} {version : Option String} {codes : Bool} {x : ElementValue}
  {values : List ElementValue} {slot : Nat × Nat} {kind : Violation.Kind} {element : Element}

theorem carries_cons :
    Carries (x :: values) slot ↔ (x.isEmpty = false ∧ x.slot = slot) ∨ Carries values slot := by
  simp [Carries]

@[simp] theorem carries_reverse : Carries values.reverse slot ↔ Carries values slot := by
  simp [Carries]

theorem Element.MetBy.reverse {number : Nat} (h : element.MetBy number values) :
    element.MetBy number values.reverse where
  present := by simpa using h.present
  components := by simpa using h.components

theorem metBy_reverse {number : Nat} :
    element.MetBy number values.reverse ↔ element.MetBy number values :=
  ⟨fun h => by simpa using h.reverse, .reverse⟩

/-- The entries of a list with their places, counted from 1. -/
theorem mem_zipIdx_one {α : Type} {entries : List α} {e : α × Nat} :
    e ∈ entries.zipIdx 1 ↔ entry? entries e.2 = some e.1 := by
  obtain ⟨a, place⟩ := e
  rw [List.mk_mem_zipIdx_iff_le_and_getElem?_sub]
  cases place with
  | zero => simp
  | succ place => simp

theorem Content.Addresses.unique {content : Content} {place : Option Nat} {type type' : SimpleType}
    (h : content.Addresses place type) (h' : content.Addresses place type') : type = type' := by
  cases h with
  | whole => cases h'; rfl
  | first => cases h'; rfl
  | component hc =>
      cases h' with
      | component hc' => rw [hc] at hc'; cases hc'; rfl

namespace Segment

theorem overrun?_of_none (h : d.element? slot.1 = none) :
    d.overrun? slot = some .tooManyDataElements := by
  rw [overrun?, h]

theorem overrun?_of_some (h : d.element? slot.1 = some element) :
    d.overrun? slot =
      if element.maxOccurs ≤ slot.2 then some .tooManyRepetitions else none := by
  rw [overrun?, h]

theorem overrun?_isOverrun (h : d.overrun? slot = some kind) : kind.isOverrun = true := by
  unfold overrun? at h
  split at h
  · cases h; rfl
  · split at h
    · cases h; rfl
    · cases h

theorem Admits.overrun?_eq_none (h : d.Admits version codes x) : d.overrun? x.slot = none := by
  obtain ⟨element, type, helement, hrepetition, -⟩ := h
  exact (overrun?_of_some helement).trans (if_neg (Nat.not_le.2 hrepetition))

/-- In a declared element a position addresses a type, or a component that is not there. -/
theorem lookup_of_element? {p : Position} (h : d.element? p.element = some element) :
    (∃ type, element.content.Addresses p.component type ∧ d.lookup p = .simple type) ∨
      (∀ type, ¬ element.content.Addresses p.component type) ∧ d.lookup p = .noSuchComponent := by
  unfold lookup
  simp only [h]
  split
  · rename_i type hcontent hcomponent
    rw [hcontent, hcomponent]
    exact .inl ⟨type, .whole, rfl⟩
  · rename_i type hcontent hcomponent
    rw [hcontent, hcomponent]
    exact .inl ⟨type, .first, rfl⟩
  · rename_i type place hfirst hcontent hcomponent
    refine .inr ⟨fun type' ha => ?_, rfl⟩
    rw [hcontent, hcomponent] at ha
    cases ha
    exact hfirst rfl
  · rename_i type hcontent
    rw [hcontent]
    cases hc : type.component? (p.component.getD 1) with
    | some c => exact .inl ⟨c.simpleType, .component hc, rfl⟩
    | none =>
        refine .inr ⟨fun type' ha => ?_, rfl⟩
        cases ha with
        | component h => rw [hc] at h; cases h

theorem admits_iff {type : SimpleType} (he : d.element? x.position.element = some element)
    (hr : x.repetition < element.maxOccurs)
    (ha : element.content.Addresses x.position.component type) :
    d.Admits version codes x ↔ Value.check type version codes x.value = [] := by
  constructor
  · rintro ⟨element', type', he', -, ha', hpass⟩
    rw [he] at he'
    cases he'
    rwa [ha.unique ha']
  · exact fun hpass => ⟨element, type, he, hr, ha, hpass⟩

theorem not_admits (he : d.element? x.position.element = some element)
    (hnone : ∀ type, ¬ element.content.Addresses x.position.component type) :
    ¬ d.Admits version codes x := by
  rintro ⟨element', type, he', -, ha, -⟩
  rw [he] at he'
  cases he'
  exact hnone type ha

end Segment

namespace Validator.OpenSegment

variable {location : Location} {flagged flagged' : List (Nat × Nat)} {found : List Violation}
  {s : OpenSegment} {number repetition : Nat}

/-! ### Values one by one -/

/-- What is found at one value, and the slots that have been reported after it. -/
inductive Finds (d : Segment) (version : Option String) (codes : Bool)
    (flagged : List (Nat × Nat)) (x : ElementValue) : List Violation → List (Nat × Nat) → Prop
  /-- The value is empty. -/
  | blank (hx : x.isEmpty = true) : Finds d version codes flagged x [] flagged
  /-- Its slot has been reported already. -/
  | again (hx : x.isEmpty = false) (hm : x.slot ∈ flagged)
      (ho : (d.overrun? x.slot).isSome = true) : Finds d version codes flagged x [] flagged
  /-- Its slot is reported now. -/
  | overrun {y : Violation} (hx : x.isEmpty = false) (hm : x.slot ∉ flagged)
      (ho : d.overrun? x.slot = some y.kind) (hslot : y.slot? = some x.slot) :
      Finds d version codes flagged x [y] (x.slot :: flagged)
  /-- It lies in a declared slot. -/
  | within {found : List Violation} (hx : x.isEmpty = false) (ho : d.overrun? x.slot = none)
      (hkinds : ∀ y ∈ found, y.kind.isOverrun = false)
      (hclean : found = [] ↔ d.Admits version codes x) :
      Finds d version codes flagged x found flagged

/-- A slot that is not declared is reported unless it has been. -/
theorem finds_whole {y : Violation} (hx : x.isEmpty = false)
    (ho : d.overrun? x.slot = some y.kind) (hslot : y.slot? = some x.slot) :
    let whole := if x.slot ∈ flagged then ([], flagged) else ([y], x.slot :: flagged)
    Finds d version codes flagged x whole.1 whole.2 := by
  dsimp only
  split
  · rename_i hm
    exact .again hx hm (Option.isSome_of_eq_some ho)
  · rename_i hm
    exact .overrun hx hm ho hslot

theorem finds_checkValue (d : Segment) (version : Option String) (codes : Bool)
    (location : Location) (flagged : List (Nat × Nat)) (x : ElementValue) :
    Finds d version codes flagged x (checkValue d version codes location flagged x).1
      (checkValue d version codes location flagged x).2 := by
  cases hx : x.isEmpty with
  | true =>
      rw [checkValue_of_isEmpty d location flagged hx]
      exact .blank hx
  | false =>
      unfold checkValue
      dsimp only
      rw [hx, if_neg Bool.false_ne_true]
      cases he : d.element? x.position.element with
      | none => exact finds_whole hx (Segment.overrun?_of_none he) rfl
      | some element =>
          dsimp only
          split
          · rename_i hmax
            exact finds_whole hx ((Segment.overrun?_of_some he).trans (if_pos hmax)) rfl
          · rename_i hmax
            have ho : d.overrun? x.slot = none :=
              (Segment.overrun?_of_some he).trans (if_neg hmax)
            rcases Segment.lookup_of_element? he with ⟨type, ha, hl⟩ | ⟨hnone, hl⟩
            · rw [hl]
              refine .within hx ho (fun y hy => ?_) ?_
              · obtain ⟨failure, -, rfl⟩ := List.mem_map.1 hy
                cases failure <;> rfl
              · rw [List.map_eq_nil_iff, Segment.admits_iff he (Nat.not_le.1 hmax) ha]
            · rw [hl]
              refine .within hx ho (fun y hy => ?_) ?_
              · rw [List.mem_singleton.1 hy]
                rfl
              · exact iff_of_false (List.cons_ne_nil _ _) (Segment.not_admits he hnone)

/-- A slot is reported where the first value in it is found, and nowhere else. -/
theorem Finds.overruns (h : Finds d version codes flagged x found flagged') :
    (flagged' = flagged ∧ found.filter (·.kind.isOverrun) = [] ∧
      (x.isEmpty = false → (d.overrun? x.slot).isSome = true → x.slot ∈ flagged)) ∨
    (x.isEmpty = false ∧ (d.overrun? x.slot).isSome = true ∧ x.slot ∉ flagged ∧
      flagged' = x.slot :: flagged ∧ ∃ y, found.filter (·.kind.isOverrun) = [y] ∧
        y.slot? = some x.slot ∧ d.overrun? x.slot = some y.kind) := by
  cases h with
  | blank hblank => exact .inl ⟨rfl, rfl, fun hfull => by rw [hblank] at hfull; cases hfull⟩
  | again _ hm => exact .inl ⟨rfl, rfl, fun _ _ => hm⟩
  | @overrun y hfull hm ho hslot =>
      have hone : [y].filter (·.kind.isOverrun) = [y] := by
        simp [Segment.overrun?_isOverrun ho]
      exact .inr ⟨hfull, Option.isSome_of_eq_some ho, hm, rfl, _, hone, hslot, ho⟩
  | within _ ho hkinds =>
      refine .inl ⟨rfl, List.filter_eq_nil_iff.2 fun y hy => ?_, fun _ hsome => ?_⟩
      · rw [hkinds y hy]
        exact Bool.false_ne_true
      · rw [ho] at hsome
        cases hsome

/-- The reports on slots list the slots with data that are not declared, each once. -/
theorem checkValues_overruns (d : Segment) (version : Option String) (codes : Bool)
    (location : Location) (flagged : List (Nat × Nat)) (values : List ElementValue) :
    ∃ slots : List (Nat × Nat), slots.Nodup ∧
      (∀ slot, slot ∈ slots ↔
        Carries values slot ∧ (d.overrun? slot).isSome = true ∧ slot ∉ flagged) ∧
      ((checkValues d version codes location flagged values).1.filter (·.kind.isOverrun)).map
          (fun y => (y.slot?, some y.kind)) =
        slots.map fun slot => (some slot, d.overrun? slot) := by
  induction values generalizing flagged with
  | nil => exact ⟨[], List.nodup_nil, by simp [Carries], rfl⟩
  | cons x rest ih =>
      simp only [checkValues]
      have hx := finds_checkValue d version codes location flagged x
      generalize checkValue d version codes location flagged x = checked at hx ⊢
      obtain ⟨found, flagged'⟩ := checked
      obtain ⟨slots, hnodup, hslots, hmap⟩ := ih flagged'
      dsimp only at hx ⊢
      rw [List.filter_append, List.map_append, hmap]
      rcases hx.overruns with ⟨rfl, hnone, hseen⟩ | ⟨hfull, hsome, hm, rfl, y, hone, hslot, ho⟩
      · refine ⟨slots, hnodup, fun slot => ?_, by rw [hnone]; rfl⟩
        rw [hslots, carries_cons]
        constructor
        · intro h
          exact ⟨.inr h.1, h.2⟩
        · rintro ⟨⟨hfull, rfl⟩ | hc, hsome, hnot⟩
          · exact absurd (hseen hfull hsome) hnot
          · exact ⟨hc, hsome, hnot⟩
      · have hnot : x.slot ∉ slots := fun h => ((hslots _).1 h).2.2 List.mem_cons_self
        refine ⟨x.slot :: slots, List.nodup_cons.2 ⟨hnot, hnodup⟩, fun slot => ?_, ?_⟩
        · rw [List.mem_cons, hslots, carries_cons, List.mem_cons, not_or]
          constructor
          · rintro (rfl | ⟨hc, hsome, -, hflagged⟩)
            · exact ⟨.inl ⟨hfull, rfl⟩, hsome, hm⟩
            · exact ⟨.inr hc, hsome, hflagged⟩
          · rintro ⟨hc, hsome, hflagged⟩
            by_cases hsame : slot = x.slot
            · exact .inl hsame
            · exact .inr ⟨hc.resolve_left fun h => hsame h.2.symm, hsome, hsame, hflagged⟩
        · rw [hone, List.map_singleton, hslot, ← ho]
          rfl

/-- No value is reported when each is admitted. -/
theorem checkValues_eq_nil :
    (checkValues d version codes location [] values).1 = [] ↔
      ∀ x ∈ values, x.isEmpty = false → d.Admits version codes x := by
  induction values with
  | nil => simp [checkValues]
  | cons x rest ih =>
      simp only [checkValues]
      have hx := finds_checkValue d version codes location [] x
      generalize checkValue d version codes location [] x = checked at hx ⊢
      obtain ⟨found, flagged'⟩ := checked
      dsimp only at hx ⊢
      rw [List.append_eq_nil_iff, List.forall_mem_cons]
      cases hx with
      | blank hblank => simp [ih, hblank]
      | again _ hm => cases hm
      | overrun hfull _ ho =>
          simp only [List.cons_ne_nil, false_and, false_iff, not_and]
          intro hadmits
          rw [(hadmits hfull).overrun?_eq_none] at ho
          cases ho
      | within hfull _ _ hclean => simp [ih, hfull, hclean]

/-! ### What is missing -/

theorem hasData_iff {place : Nat} : hasData values ⟨number, some place⟩ repetition = true ↔
    ∃ x ∈ values, x.isEmpty = false ∧ x.slot = (number, repetition) ∧
      x.position.componentOrFirst = place := by
  unfold hasData
  simp only [List.any_eq_true, Bool.and_eq_true, beq_iff_eq, Position.sameSlot_iff,
    Bool.not_eq_true', ElementValue.slot, Prod.mk.injEq]
  constructor
  · rintro ⟨x, hx, ⟨hrepetition, helement, hplace⟩, hfull⟩
    exact ⟨x, hx, hfull, ⟨helement, hrepetition⟩, hplace⟩
  · rintro ⟨x, hx, hfull, ⟨helement, hrepetition⟩, hplace⟩
    exact ⟨x, hx, ⟨hrepetition, helement, hplace⟩, hfull⟩

theorem mem_presentRepetitions : repetition ∈ presentRepetitions values number element ↔
    repetition < element.maxOccurs ∧ Carries values (number, repetition) := by
  unfold presentRepetitions Carries
  rw [Sorted.mem_ofList]
  simp only [List.mem_map, List.mem_filter, Bool.and_eq_true, beq_iff_eq, Bool.not_eq_true',
    decide_eq_true_eq, ElementValue.slot, Prod.mk.injEq]
  constructor
  · rintro ⟨x, ⟨hx, ⟨helement, hfull⟩, hrepetition⟩, rfl⟩
    exact ⟨hrepetition, x, hx, hfull, helement, rfl⟩
  · rintro ⟨hrepetition, x, hx, hfull, helement, rfl⟩
    exact ⟨x, ⟨hx, ⟨helement, hfull⟩, hrepetition⟩, rfl⟩

theorem missingComponents_eq_nil {components : List Component} {place : Nat} :
    s.missingComponents number repetition place components = [] ↔
      ∀ c ∈ components.zipIdx place, c.1.required = true →
        hasData s.read ⟨number, some c.2⟩ repetition = true := by
  induction components generalizing place with
  | nil => simp [missingComponents]
  | cons c rest ih =>
      rw [missingComponents, List.append_eq_nil_iff, ih, List.zipIdx_cons, List.forall_mem_cons]
      simp

/-- Nothing is missing from an element exactly when it is met. -/
theorem missingIn_eq_nil : s.missingIn number element = [] ↔ element.MetBy number s.read := by
  unfold missingIn
  split
  · rename_i hnone
    have hnot : ∀ repetition < element.maxOccurs, ¬ Carries s.read (number, repetition) := by
      intro repetition hr hc
      have hmem := mem_presentRepetitions.2 ⟨hr, hc⟩
      rw [hnone] at hmem
      cases hmem
    constructor
    · intro hnil
      have hoptional : element.required = false := by
        cases h : element.required with
        | false => rfl
        | true => rw [h] at hnil; cases hnil
      refine ⟨fun hrequired => ?_, fun _ _ r hr hc => absurd hc (hnot r hr)⟩
      rw [hoptional] at hrequired
      cases hrequired
    · intro hmet
      refine if_neg fun hrequired => ?_
      obtain ⟨repetition, hr, hc⟩ := hmet.present hrequired
      exact hnot repetition hr hc
  · rename_i repetitions hsome
    obtain ⟨first, hfirst⟩ := List.exists_mem_of_ne_nil _ hsome
    have hpresent : element.required = true →
        ∃ repetition < element.maxOccurs, Carries s.read (number, repetition) :=
      fun _ => ⟨first, mem_presentRepetitions.1 hfirst⟩
    split
    · rename_i hcontent
      exact ⟨fun _ => ⟨hpresent, fun _ h => by rw [hcontent] at h; cases h⟩, fun _ => rfl⟩
    · rename_i type hcontent
      simp only [List.flatMap_eq_nil_iff, missingComponents_eq_nil, hasData_iff, Prod.forall,
        mem_zipIdx_one, mem_presentRepetitions]
      constructor
      · refine fun h => ⟨hpresent, fun type' h' repetition hr hc place c hplace => ?_⟩
        rw [hcontent] at h'
        cases h'
        exact h repetition ⟨hr, hc⟩ c place hplace
      · intro hmet repetition ⟨hr, hc⟩ c place hplace
        exact hmet.components type hcontent repetition hr hc place c hplace

theorem missingFrom_eq_nil {elements : List Element} :
    s.missingFrom number elements = [] ↔
      ∀ e ∈ elements.zipIdx number, e.1.MetBy e.2 s.read := by
  induction elements generalizing number with
  | nil => simp [missingFrom]
  | cons element rest ih =>
      rw [missingFrom, List.append_eq_nil_iff, ih, missingIn_eq_nil, List.zipIdx_cons,
        List.forall_mem_cons]

/-- Nothing is missing from a segment exactly when each element is met. -/
theorem missingElements_eq_nil (hd : s.definition = some d) : s.missingElements = [] ↔
    ∀ number element, d.element? number = some element → element.MetBy number s.read := by
  rw [missingElements, hd]
  dsimp only
  rw [missingFrom_eq_nil]
  simp only [Prod.forall, mem_zipIdx_one]
  exact forall_comm

/-! ### Both passes -/

/-- A segment that reads some values, checks them once, in order, and then looks for what is
missing reports nothing exactly when they meet its declaration. The reports on elements and
repetitions that are not declared are one for each such slot that carries data. -/
theorem clean_iff_metBy (hs : s.Fresh) (hd : s.definition = some d) (version : Option String)
    (codes : Bool) (values : List ElementValue) :
    let checked := (s.pushAll values).checkNew version codes
    let report := checked.2 ++ checked.1.missingElements
    (report = [] ↔ d.MetBy version codes values) ∧
      ∃ slots : List (Nat × Nat), slots.Nodup ∧
        (∀ slot, slot ∈ slots ↔ Carries values slot ∧ (d.overrun? slot).isSome = true) ∧
        (report.filter (·.kind.isOverrun)).map (fun y => (y.slot?, some y.kind)) =
          slots.map fun slot => (some slot, d.overrun? slot) := by
  intro checked report
  have hvalues : checked.2 = (checkValues d version codes s.location [] values).1 := by
    simp only [checked, checkNew, pushAll, hd, hs.unchecked, hs.flagged, location,
      List.append_nil, List.reverse_reverse]
  have hmissing : checked.1.missingElements = (s.pushAll values).missingElements :=
    missingElements_checkNew
  have hread : (s.pushAll values).read = values.reverse := by
    rw [pushAll, hs.read, List.append_nil]
  constructor
  · have hnil : (s.pushAll values).missingElements = [] ↔
        ∀ number element, d.element? number = some element → element.MetBy number values := by
      simp only [missingElements_eq_nil (s := s.pushAll values) hd, hread, metBy_reverse]
    rw [List.append_eq_nil_iff, hvalues, hmissing, checkValues_eq_nil, hnil]
    exact ⟨fun h => ⟨h.1, h.2⟩, fun h => ⟨h.admitted, h.elements⟩⟩
  · obtain ⟨slots, hnodup, hslots, hmap⟩ :=
      checkValues_overruns d version codes s.location [] values
    have hnone : checked.1.missingElements.filter (·.kind.isOverrun) = [] := by
      refine List.filter_eq_nil_iff.2 fun y hy => ?_
      rw [missingElements_kind _ y hy]
      exact Bool.false_ne_true
    refine ⟨slots, hnodup, fun slot => by simp [hslots], ?_⟩
    rw [List.filter_append, hnone, List.append_nil, hvalues, hmap]

/-- A segment with one element, two values of which the first is required, at most twice. -/
def quantitySegment : Segment where
  id := "QTY"
  tag := "QTY"
  elements :=
    [{ content := .composite ⟨"C186", [⟨{ id := "6060", kind := .decimal }, true⟩,
        ⟨{ id := "6411", kind := .string }, false⟩]⟩
       required := true
       maxOccurs := 2 }]
  implementations := []

/-- That segment, opened. -/
def quantityStart : OpenSegment where
  index := 1
  tag := "QTY"
  path := "ROOT/QTY"
  definition := some quantitySegment

/-- A unit without a quantity does not meet the declaration. -/
theorem clean_iff_metBy_quantity : quantityStart.Fresh ∧
    quantityStart.definition = some quantitySegment ∧
    quantitySegment.MetBy none true
      [⟨⟨1, some 1⟩, 0, "12"⟩, ⟨⟨1, some 2⟩, 0, "PCE"⟩, ⟨⟨1, none⟩, 1, "7"⟩] ∧
    ¬ quantitySegment.MetBy none true [⟨⟨1, some 2⟩, 1, "PCE"⟩, ⟨⟨1, some 1⟩, 0, "12"⟩] := by
  have hfresh : quantityStart.Fresh := ⟨rfl, rfl, rfl⟩
  refine ⟨hfresh, rfl, (clean_iff_metBy hfresh rfl none true _).1.1 (by decide), fun hmet => ?_⟩
  exact absurd ((clean_iff_metBy hfresh rfl none true _).1.2 hmet) (by decide)

end Validator.OpenSegment

end Interchange
