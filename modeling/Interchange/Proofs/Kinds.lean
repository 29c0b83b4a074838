import Interchange.Proofs.Frames
import Interchange.Proofs.Streaming

/-!
# Kinds of reports

Six kinds of violations concern the order and the number of segments and loops. What open loops
report is of these kinds (`missing_kind`, `excess_kind`, `misplaced_kind`), and what is found
inside a segment is of none of them (`advance_orderly`, `orderly_missingElements`): it is about
the elements of the segment (`checkNew_kind`, `missingElements_kind`), or says that its
implementation cannot be told.
-/

namespace Interchange

namespace Violation.Kind

/-- A segment or a loop that did not occur often enough. -/
def isShortage : Kind → Bool
  | requiredSegmentMissing | requiredLoopMissing => true
  | _ => false

/-- An occurrence beyond a maximum. -/
def isExcess : Kind → Bool
  | loopOccursTooManyTimes | segmentExceedsMaximumUse => true
  | _ => false

/-- A tag that no open loop can take. -/
def isMisplacement : Kind → Bool
  | unexpectedSegment | segmentNotInSchema => true
  | _ => false

/-- The elements of a segment and their values. -/
def isElement : Kind → Bool
  | requiredElementMissing | tooManyDataElements | tooManyComponents | tooManyRepetitions
  | tooShort | tooLong | invalidCodeValue | invalidDateOrTimeOrNumber => true
  | _ => false

/-- Data that a segment does not declare. -/
def isSurplus : Kind → Bool
  | tooManyDataElements | tooManyComponents | tooManyRepetitions => true
  | _ => false

/-- The kinds that concern the order and the number of segments and loops. -/
def isSequence (kind : Kind) : Bool := kind.isShortage || kind.isExcess || kind.isMisplacement

end Violation.Kind

/-- None of the findings concerns the order or the number of segments and loops. -/
def Orderly (found : List Violation) : Prop := ∀ x ∈ found, x.kind.isSequence = false

variable {found found' : List Violation}

@[simp] theorem orderly_nil : Orderly [] := fun _ hx => nomatch hx

@[simp] theorem orderly_append : Orderly (found ++ found') ↔ Orderly found ∧ Orderly found' :=
  List.forall_mem_append

theorem orderly_judged {config : Config} : Orderly (found.map config.judge) ↔ Orderly found := by
  simp [Orderly, Config.judge]

/-- Judging changes no kind. -/
theorem filter_judged {config : Config} (p : Violation.Kind → Bool) :
    (found.map config.judge).filter (fun x => p x.kind) =
      (found.filter fun x => p x.kind).map config.judge := by
  rw [List.filter_map]
  rfl

/-- Findings that all concern order and number are orderly only when there are none. -/
theorem orderly_iff_nil (h : ∀ x ∈ found, x.kind.isSequence = true) :
    Orderly found ↔ found = [] := by
  constructor
  · intro ho
    cases found with
    | nil => rfl
    | cons x rest =>
        have hx := h x List.mem_cons_self
        rw [ho x List.mem_cons_self] at hx
        cases hx
  · rintro rfl
    exact orderly_nil

/-- Orderly findings have none of a kind that concerns order and number. -/
theorem Orderly.filter_eq_nil {p : Violation.Kind → Bool} (h : Orderly found)
    (hp : ∀ kind, p kind = true → kind.isSequence = true) :
    found.filter (fun x => p x.kind) = [] := by
  rw [List.filter_eq_nil_iff]
  intro x hx hpx
  have hseq := hp _ hpx
  rw [h x hx] at hseq
  cases hseq

namespace Validator

variable {f : Frame} {frames frames' : List Frame} {start stop count index : Nat} {c : Child}
  {here : Location} {path tag : String} {x : Violation} {s t : OpenSegment} {v : Validator}

/-! ### Reports of open loops -/

theorem missing_kind (hx : x ∈ f.missing start stop here) : x.kind.isShortage = true := by
  obtain ⟨⟨c, k⟩, -, rfl⟩ := List.mem_map.1 hx
  unfold Frame.shortage
  dsimp only
  split <;> rfl

theorem closeAll_kind (hx : x ∈ closeAll frames here) : x.kind.isShortage = true := by
  obtain ⟨f, -, hx⟩ := List.mem_flatMap.1 hx
  exact missing_kind hx

theorem excess_kind (hx : x ∈ excess path c count index tag) : x.kind.isExcess = true := by
  unfold excess at hx
  split at hx
  · cases hx
  · obtain rfl := List.mem_singleton.1 hx
    dsimp only
    split <;> rfl

theorem excess_eq_nil :
    excess path c count index tag = [] ↔ c.maxOccurs.allows count = true := by
  unfold excess
  split
  · rename_i h
    exact ⟨fun _ => h, fun _ => rfl⟩
  · rename_i h
    exact ⟨fun hnil => absurd hnil (List.cons_ne_nil _ _), fun hallows => absurd hallows h⟩

theorem misplaced_kind (schema : Schema) (frames : List Frame) (index : Nat) (tag : String) :
    (misplaced schema frames index tag).kind.isMisplacement = true := by
  unfold misplaced
  dsimp only
  split <;> rfl

theorem isSequence_of_isShortage {kind : Violation.Kind} (h : kind.isShortage = true) :
    kind.isSequence = true := by
  rw [Violation.Kind.isSequence, h]
  rfl

theorem isSequence_of_isExcess {kind : Violation.Kind} (h : kind.isExcess = true) :
    kind.isSequence = true := by
  rw [Violation.Kind.isSequence, h, Bool.or_true]
  rfl

/-- What is found when a tag is taken concerns order and number. -/
theorem Match.take_kind {m : Match} (h : m.take here index tag = ((frames, s), found))
    (hx : x ∈ found) : x.kind.isSequence = true := by
  obtain ⟨-, rfl⟩ := Match.take_eq h
  rcases List.mem_append.1 hx with hx | hx
  · rcases List.mem_append.1 hx with hx | hx
    · exact isSequence_of_isShortage (closeAll_kind hx)
    · exact isSequence_of_isShortage (missing_kind hx)
  · exact isSequence_of_isExcess (excess_kind hx)

theorem isExcess_of_isShortage {kind : Violation.Kind} (h : kind.isShortage = true) :
    kind.isExcess = false := by
  cases kind <;> first | rfl | cases h

theorem isShortage_of_isExcess {kind : Violation.Kind} (h : kind.isExcess = true) :
    kind.isShortage = false := by
  cases kind <;> first | rfl | cases h

theorem not_shortage_or_excess {kind : Violation.Kind} (h : kind.isMisplacement = true) :
    kind.isShortage = false ∧ kind.isExcess = false := by
  cases kind <;> first | exact ⟨rfl, rfl⟩ | cases h

/-! ### Reports inside a segment -/

/-- A decision reports only that no implementation matches. -/
theorem Decides.kind {choose : {β : Type} → List (Implementation β) → Selection}
    (h : Decides frames s choose frames' t found) :
    ∀ x ∈ found, x.kind = .unresolvedImplementation := by
  intro x hx
  have hkind := List.mem_map_of_mem (f := (·.kind)) hx
  rw [h.kinds_eq] at hkind
  split at hkind
  · exact List.mem_singleton.1 hkind
  · cases hkind

theorem Decides.orderly {choose : {β : Type} → List (Implementation β) → Selection}
    (h : Decides frames s choose frames' t found) : Orderly found := by
  intro x hx
  rw [h.kind x hx]
  rfl

theorem isSequence_of_isElement {kind : Violation.Kind} (h : kind.isElement = true) :
    kind.isSequence = false := by
  cases kind <;> first | rfl | cases h

/-- The kind of a report on a value: it is about data that the segment does not declare, or about
a rule that the value breaks. -/
def OfValue (version : Option String) (codes : Bool) (kind : Violation.Kind) : Prop :=
  kind.isSurplus = true ∨ ∃ (type : SimpleType) (value : String),
    ∃ failure ∈ Value.check type version codes value, kind = failure.kind

theorem OfValue.isElement {version : Option String} {codes : Bool} {kind : Violation.Kind}
    (h : OfValue version codes kind) : kind.isElement = true := by
  rcases h with h | ⟨type, value, failure, -, rfl⟩
  · cases kind <;> first | rfl | cases h
  · cases failure <;> rfl

/-- A report on a value is about that value, at its slot in the segment. -/
theorem checkValue_report (definition : Segment) (version : Option String) (codes : Bool)
    (location : Location) (flagged : List (Nat × Nat)) (value : ElementValue) :
    ∀ x ∈ (OpenSegment.checkValue definition version codes location flagged value).1,
      OfValue version codes x.kind ∧
        x.location = location.narrow value.position value.repetition := by
  unfold OpenSegment.checkValue
  dsimp only
  intro x hx
  split at hx
  · cases hx
  split at hx
  · split at hx
    · cases hx
    · rw [List.mem_singleton.1 hx]
      exact ⟨.inl rfl, rfl⟩
  split at hx
  · split at hx
    · cases hx
    · rw [List.mem_singleton.1 hx]
      exact ⟨.inl rfl, rfl⟩
  split at hx
  · rename_i type _
    obtain ⟨failure, hfailure, rfl⟩ := List.mem_map.1 hx
    exact ⟨.inr ⟨type, value.value, failure, hfailure, rfl⟩, rfl⟩
  · rw [List.mem_singleton.1 hx]
    exact ⟨.inl rfl, rfl⟩
  · cases hx

theorem checkValues_report (definition : Segment) (version : Option String) (codes : Bool)
    (location : Location) (flagged : List (Nat × Nat)) (values : List ElementValue) :
    ∀ x ∈ (OpenSegment.checkValues definition version codes location flagged values).1,
      OfValue version codes x.kind ∧
        ∃ value ∈ values, x.location = location.narrow value.position value.repetition := by
  induction values generalizing flagged with
  | nil => exact fun x hx => nomatch hx
  | cons value rest ih =>
      simp only [OpenSegment.checkValues]
      refine List.forall_mem_append.2 ⟨fun x hx => ?_, fun x hx => ?_⟩
      · obtain ⟨hkind, hlocation⟩ := checkValue_report _ _ _ _ _ _ x hx
        exact ⟨hkind, value, List.mem_cons_self, hlocation⟩
      · obtain ⟨hkind, value', hmem, hlocation⟩ := ih _ x hx
        exact ⟨hkind, value', List.mem_cons_of_mem value hmem, hlocation⟩

theorem checkNew_report (s : OpenSegment) (version : Option String) (codes : Bool) :
    ∀ x ∈ (s.checkNew version codes).2, OfValue version codes x.kind ∧
      ∃ value ∈ s.unchecked, x.location = s.location.narrow value.position value.repetition := by
  unfold OpenSegment.checkNew
  cases s.definition with
  | none => exact fun x hx => nomatch hx
  | some definition =>
      intro x hx
      obtain ⟨hkind, value, hmem, hlocation⟩ := checkValues_report _ _ _ _ _ _ x hx
      exact ⟨hkind, value, List.mem_reverse.1 hmem, hlocation⟩

theorem checkNew_orderly (s : OpenSegment) (version : Option String) (codes : Bool) :
    Orderly (s.checkNew version codes).2 :=
  fun x hx => isSequence_of_isElement (checkNew_report s version codes x hx).1.isElement

/-- What is missing from a composite is reported for one of its components. -/
theorem missing_of_mem_missingComponents {number repetition place : Nat}
    {components : List Component}
    (hx : x ∈ s.missingComponents number repetition place components) :
    ∃ place message, x = s.missing ⟨number, some place⟩ repetition message := by
  induction components generalizing place with
  | nil => cases hx
  | cons c rest ih =>
      rw [OpenSegment.missingComponents] at hx
      rcases List.mem_append.1 hx with hx | hx
      · split at hx
        · exact ⟨_, _, List.mem_singleton.1 hx⟩
        · cases hx
      · exact ih hx

/-- Whatever is missing is reported at its slot in the segment. -/
theorem missing_of_mem_missingElements (hx : x ∈ s.missingElements) :
    ∃ position repetition message, x = s.missing position repetition message := by
  have hin (number : Nat) (element : Element) (hx : x ∈ s.missingIn number element) :
      ∃ position repetition message, x = s.missing position repetition message := by
    unfold OpenSegment.missingIn at hx
    split at hx
    · split at hx
      · exact ⟨_, _, _, List.mem_singleton.1 hx⟩
      · cases hx
    · split at hx
      · cases hx
      · obtain ⟨repetition, -, hx⟩ := List.mem_flatMap.1 hx
        obtain ⟨place, message, hx⟩ := missing_of_mem_missingComponents hx
        exact ⟨_, _, _, hx⟩
  have hfrom (number : Nat) (elements : List Element) (hx : x ∈ s.missingFrom number elements) :
      ∃ position repetition message, x = s.missing position repetition message := by
    induction elements generalizing number with
    | nil => cases hx
    | cons element rest ih =>
        rcases List.mem_append.1 hx with hx | hx
        · exact hin number element hx
        · exact ih _ hx
  unfold OpenSegment.missingElements at hx
  cases hd : s.definition with
  | none =>
      rw [hd] at hx
      cases hx
  | some definition =>
      rw [hd] at hx
      exact hfrom 1 definition.elements hx

theorem missingElements_kind (s : OpenSegment) :
    ∀ x ∈ s.missingElements, x.kind = .requiredElementMissing := by
  intro x hx
  obtain ⟨position, repetition, message, rfl⟩ := missing_of_mem_missingElements hx
  rfl

theorem orderly_missingElements (s : OpenSegment) : Orderly s.missingElements := by
  intro x hx
  rw [missingElements_kind s x hx]
  rfl

/-- What is found while a segment is read: that no implementation matches, or what a value does
wrong. -/
theorem advance_kind {complete : Bool} (h : v.advance s complete = (frames, t, found)) :
    ∀ x ∈ found, x.kind = .unresolvedImplementation ∨
      OfValue v.version v.config.validateCodeValues x.kind := by
  cases hd : decide? v.frames s complete with
  | none =>
      rw [advance_of_none hd] at h
      cases h
      exact fun x hx => nomatch hx
  | some d =>
      rw [advance_of_some hd] at h
      cases h
      refine List.forall_mem_append.2 ⟨fun x hx => ?_, fun x hx => ?_⟩
      · exact .inl ((decides_of_decide? hd).kind x hx)
      · exact .inr (checkNew_report _ _ _ x hx).1

/-- Reading a value reports nothing on the order and the number of segments and loops. -/
theorem advance_orderly {complete : Bool} (h : v.advance s complete = (frames, t, found)) :
    Orderly found := by
  intro x hx
  rcases advance_kind h x hx with hkind | hkind
  · rw [hkind]
    rfl
  · exact isSequence_of_isElement hkind.isElement

end Validator

end Interchange
