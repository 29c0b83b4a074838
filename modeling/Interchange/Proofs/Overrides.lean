import Mathlib.Logic.Relation
import Interchange.Proofs.Constraints

/-!
# Constraints for a version

The lengths and the codes of a type are looked up one by one, and each look-up searches the
overrides again. They still fit together: all three searches stop at one override, the first that
applies to the version, or at none (`InEffect`), and what that override does not set is taken from
the base type and never from a later override (`constraintsFor_deciding`). Overrides that do not
apply, and all that stand behind the first that does, make no difference (`Immaterial`).

A type is accepted only if its lengths are in order, in the base type and in what every override
makes of it (`checked_eq_ok_iff`), so they are in order for every version, and no value is reported
as too short and too long at once (`constraints_coherent`).
-/

namespace Interchange

namespace SimpleType

/-! ### The override in effect -/

/-- Whether an override applies to a version. Without a version none does. -/
def Override.applies (o : Override) (version : Option String) : Bool :=
  version.any o.range.appliesTo

/-- The first override that applies to the version, or none where none applies. -/
inductive InEffect : List Override → Option String → Option Override → Prop
  | first {o : Override} {before after : List Override} {version : Option String}
      (h : o.applies version = true)
      (hbefore : ∀ e ∈ before, e.applies version = false) :
      InEffect (before ++ o :: after) version (some o)
  | base {overrides : List Override} {version : Option String}
      (h : ∀ e ∈ overrides, e.applies version = false) : InEffect overrides version none

/-- One override more that does not apply to the version, or that stands behind one that does. -/
inductive Immaterial (version : Option String) : List Override → List Override → Prop
  | idle {o : Override} {before after : List Override} (h : o.applies version = false) :
      Immaterial version (before ++ after) (before ++ o :: after)
  | behind {e o : Override} {before after : List Override} (he : e ∈ before)
      (h : e.applies version = true) : Immaterial version (before ++ after) (before ++ o :: after)

variable {t draft : SimpleType} {overrides overrides' : List Override}
  {version : Option String} {source : Option Override}

theorem deciding_eq (overrides : List Override) (version : Option String) :
    Version.deciding overrides Override.range version =
      overrides.find? fun o => o.applies version := by
  cases version with
  | none => exact (List.find?_eq_none.2 fun o _ => by simp [Override.applies]).symm
  | some v => rfl

/-- Exactly one override is in effect, or none is. -/
theorem inEffect_iff :
    InEffect overrides version source ↔
      source = Version.deciding overrides Override.range version := by
  rw [deciding_eq, eq_comm]
  constructor
  · intro h
    cases h with
    | first h hbefore =>
        rw [List.find?_eq_some_iff_append]
        exact ⟨h, _, _, rfl, by simpa using hbefore⟩
    | base h =>
        rw [List.find?_eq_none]
        simpa using h
  · intro h
    cases source with
    | none =>
        rw [List.find?_eq_none] at h
        exact .base (by simpa using h)
    | some o =>
        obtain ⟨happlies, before, after, rfl, hbefore⟩ := List.find?_eq_some_iff_append.1 h
        exact .first happlies (by simpa using hbefore)

/-- An override that is immaterial to a version does not change which one decides. -/
theorem Immaterial.deciding_eq (h : Immaterial version overrides overrides') :
    Version.deciding overrides' Override.range version =
      Version.deciding overrides Override.range version := by
  rw [SimpleType.deciding_eq, SimpleType.deciding_eq]
  cases h with
  | idle h => rw [List.find?_append, List.find?_append, List.find?_cons_of_neg (by simp [h])]
  | behind he h =>
      have hsome := List.find?_isSome (p := fun o => o.applies version) |>.2 ⟨_, he, h⟩
      rw [List.find?_append, List.find?_append, Option.or_of_isSome hsome,
        Option.or_of_isSome hsome]

/-! ### Constraints -/

/-- What a type asks of the length of a value and of its text. -/
structure Constraints where
  minLength : Nat
  maxLength : Nat
  codes : CodeList
  deriving DecidableEq, Repr

/-- The constraints for a version, each looked up on its own. -/
def constraintsFor (t : SimpleType) (version : Option String) : Constraints :=
  ⟨t.minLengthFor version, t.maxLengthFor version, t.codesFor version⟩

/-- The constraints of the base type. -/
def baseConstraints (t : SimpleType) : Constraints := ⟨t.minLength, t.maxLength, t.codes⟩

/-- The constraints that an override makes of those of the base type. -/
def Override.over (o : Override) (base : Constraints) : Constraints :=
  ⟨o.minLength.getD base.minLength, o.maxLength.getD base.maxLength, o.codes.getD base.codes⟩

/-- The constraints where an override is in effect, or none is. -/
def constraintsUnder (t : SimpleType) : Option Override → Constraints
  | none => t.baseConstraints
  | some o => o.over t.baseConstraints

/-- The constraints all come from the override that decides. -/
theorem constraintsFor_deciding (t : SimpleType) (version : Option String) :
    t.constraintsFor version =
      t.constraintsUnder (Version.deciding t.overrides Override.range version) := by
  unfold constraintsFor minLengthFor maxLengthFor codesFor Version.resolve
  cases Version.deciding t.overrides Override.range version <;> rfl

theorem deciding_of_immaterial (h : Relation.EqvGen (Immaterial version) overrides overrides') :
    Version.deciding overrides' Override.range version =
      Version.deciding overrides Override.range version := by
  induction h with
  | rel _ _ h => exact h.deciding_eq
  | refl => rfl
  | symm _ _ _ ih => exact ih.symm
  | trans _ _ _ _ _ ih ih' => exact ih'.trans ih

theorem constraintsFor_of_immaterial
    (h : Relation.EqvGen (Immaterial version) t.overrides overrides) :
    constraintsFor { t with overrides } version = t.constraintsFor version := by
  rw [constraintsFor_deciding, constraintsFor_deciding, deciding_of_immaterial h]
  rfl

/-! ### Types that are accepted -/

/-- Lengths that do not exclude every value. -/
def Constraints.Ordered (c : Constraints) : Prop := c.minLength ≤ c.maxLength

instance (c : Constraints) : Decidable c.Ordered :=
  inferInstanceAs (Decidable (c.minLength ≤ c.maxLength))

theorem lengthFault?_eq_none : t.lengthFault? = none ↔
    t.baseConstraints.Ordered ∧ ∀ o ∈ t.overrides, (o.over t.baseConstraints).Ordered := by
  unfold lengthFault? Constraints.Ordered Override.over baseConstraints
  split
  · rename_i h
    simp only [reduceCtorEq, false_iff]
    omega
  · rename_i h
    rw [List.findSome?_eq_none_iff]
    simp only [ite_eq_right_iff, reduceCtorEq, imp_false, Nat.not_lt]
    constructor
    · intro ho
      exact ⟨Nat.not_lt.1 h, ho⟩
    · intro ho
      exact ho.2

theorem checked_eq_ok_iff : draft.checked = .ok t ↔
    t = draft ∧ t.baseConstraints.Ordered ∧
      ∀ o ∈ t.overrides, (o.over t.baseConstraints).Ordered := by
  unfold checked
  cases hfault : draft.lengthFault? with
  | none =>
      rw [lengthFault?_eq_none] at hfault
      simp only [Except.ok.injEq]
      constructor
      · intro h
        subst h
        exact ⟨rfl, hfault⟩
      · intro h
        exact h.1.symm
  | some fault =>
      simp only [reduceCtorEq, false_iff]
      intro ⟨rfl, h⟩
      rw [← lengthFault?_eq_none, hfault] at h
      cases h

/-- The lengths of an accepted type are in order for every version. -/
theorem constraintsFor_ordered (h : draft.checked = .ok t) (version : Option String) :
    (t.constraintsFor version).Ordered := by
  obtain ⟨-, hbase, hover⟩ := checked_eq_ok_iff.1 h
  rw [constraintsFor_deciding, deciding_eq]
  cases hfind : t.overrides.find? fun o => o.applies version with
  | none => exact hbase
  | some o => exact hover o (List.mem_of_find?_eq_some hfind)

end SimpleType

/-! ### Reports -/

namespace Value

variable {type : SimpleType} {version : Option String} {codes : Bool} {value : String}
  {short long : List Violation.Kind}

theorem checkMinLength_eq_nil :
    checkMinLength type version value = [] ↔
      type.minLengthFor version ≤ length type.kind value := by
  simp [checkMinLength]

theorem checkMaxLength_eq_nil :
    checkMaxLength type version value = [] ↔
      length type.kind value ≤ type.maxLengthFor version := by
  simp [checkMaxLength]

theorem checkMinLength_sublist :
    ((checkMinLength type version value).map Failure.kind).Sublist [.tooShort] := by
  unfold checkMinLength
  dsimp only
  split <;> simp [Failure.kind]

theorem checkMaxLength_sublist :
    ((checkMaxLength type version value).map Failure.kind).Sublist [.tooLong] := by
  unfold checkMaxLength
  dsimp only
  split <;> simp [Failure.kind]

theorem checkCode_sublist :
    ((checkCode type version value).map Failure.kind).Sublist [.invalidCodeValue] := by
  unfold checkCode
  dsimp only
  split <;> simp [Failure.kind]

theorem lexicalFailures_sublist :
    ((lexicalFailures type value).map Failure.kind).Sublist [.invalidDateOrTimeOrNumber] := by
  unfold lexicalFailures
  split <;> simp [Failure.kind]

/-- The rules on the length come first, whatever they report, then the others, each at most once. -/
theorem check_sublist
    (hshort : ((checkMinLength type version value).map Failure.kind).Sublist short)
    (hlong : ((checkMaxLength type version value).map Failure.kind).Sublist long) :
    ((check type version codes value).map Failure.kind).Sublist
      (short ++ long ++ [.invalidCodeValue] ++ [.invalidDateOrTimeOrNumber]) := by
  by_cases h : value = ""
  · rw [h, check_empty]
    exact List.nil_sublist _
  · have hcode : ((if codes then checkCode type version value else []).map Failure.kind).Sublist
        [.invalidCodeValue] := by
      cases codes with
      | true => exact checkCode_sublist
      | false => exact List.nil_sublist _
    rw [check_eq h, List.map_append, List.map_append, List.map_append]
    exact ((hshort.append hlong).append hcode).append lexicalFailures_sublist

/-- No rule is reported twice. -/
theorem check_nodup : ((check type version codes value).map Failure.kind).Nodup := by
  have hall : [Violation.Kind.tooShort, .tooLong, .invalidCodeValue,
      .invalidDateOrTimeOrNumber].Nodup := by decide
  exact hall.sublist (check_sublist checkMinLength_sublist checkMaxLength_sublist)

/-- Where the lengths are in order, a value that is too short is not too long. -/
theorem not_tooShort_and_tooLong (h : (type.constraintsFor version).Ordered) :
    ¬ (.tooShort ∈ (check type version codes value).map Failure.kind ∧
      .tooLong ∈ (check type version codes value).map Failure.kind) := by
  change type.minLengthFor version ≤ type.maxLengthFor version at h
  intro ⟨hshort, hlong⟩
  by_cases hmin : type.minLengthFor version ≤ length type.kind value
  · have hnil : ((checkMinLength type version value).map Failure.kind).Sublist [] := by
      rw [checkMinLength_eq_nil.2 hmin]
      exact List.nil_sublist _
    have hmem := (check_sublist hnil checkMaxLength_sublist).subset hshort
    revert hmem
    decide
  · have hnil : ((checkMaxLength type version value).map Failure.kind).Sublist [] := by
      rw [checkMaxLength_eq_nil.2 (by omega)]
      exact List.nil_sublist _
    have hmem := (check_sublist checkMinLength_sublist hnil).subset hlong
    revert hmem
    decide

end Value

namespace SimpleType

/-- Of an accepted type the constraints for a version come from one place, the override in effect or
the base type. No override that is immaterial to the version changes them. Their lengths are in
order, so a value is never reported as too short and too long, and each rule is reported at most
once. -/
theorem constraints_coherent {draft t : SimpleType} (h : draft.checked = .ok t)
    (version : Option String) :
    t = draft ∧
    (∃ source, (∀ source', InEffect t.overrides version source' ↔ source' = source) ∧
      t.constraintsFor version = t.constraintsUnder source) ∧
    (∀ overrides, Relation.EqvGen (Immaterial version) t.overrides overrides →
      constraintsFor { t with overrides } version = t.constraintsFor version) ∧
    t.minLengthFor version ≤ t.maxLengthFor version ∧
    ∀ codes value,
      ¬ (.tooShort ∈ (Value.check t version codes value).map Value.Failure.kind ∧
        .tooLong ∈ (Value.check t version codes value).map Value.Failure.kind) ∧
      ((Value.check t version codes value).map Value.Failure.kind).Nodup := by
  have hordered := constraintsFor_ordered h version
  refine ⟨(checked_eq_ok_iff.1 h).1, ?_, fun _ => constraintsFor_of_immaterial, hordered, ?_⟩
  · exact ⟨_, fun _ => inEffect_iff, constraintsFor_deciding t version⟩
  · intro codes value
    exact ⟨Value.not_tooShort_and_tooLong hordered, Value.check_nodup⟩

/-- An override that leaves the greatest length to the base type. -/
def longerOverride : Override where
  range := ⟨some "00401", some "00501"⟩
  minLength := some 4

/-- An override for some of the same versions that leaves the least length to the base type. -/
def shorterOverride : Override where
  range := ⟨some "501", none⟩
  maxLength := some 3
  codes := some ⟨[("AB", "")]⟩

/-- With the least length of the one override and the greatest length of the other, no value of this
type would have a length. -/
def overlappingType : SimpleType where
  id := "E1"
  kind := .string
  minLength := 2
  maxLength := 10
  overrides := [longerOverride, shorterOverride]

/-- For a version to which both overrides apply only the first one counts. -/
theorem constraints_coherent_overlapping :
    overlappingType.checked = .ok overlappingType ∧
      InEffect overlappingType.overrides (some "00501") (some longerOverride) ∧
      overlappingType.constraintsFor (some "00501") = ⟨4, 10, {}⟩ ∧
      constraintsFor { overlappingType with overrides := [longerOverride] } (some "00501") =
        ⟨4, 10, {}⟩ ∧
      overlappingType.minLengthFor (some "00501") ≤ overlappingType.maxLengthFor (some "00501") ∧
      ((Value.check overlappingType (some "00501") true "AB").map Value.Failure.kind).Nodup := by
  have h : overlappingType.checked = .ok overlappingType := rfl
  obtain ⟨-, ⟨source, hsource, hconstraints⟩, himmaterial, hle, hreports⟩ :=
    constraints_coherent h (some "00501")
  have hfirst : InEffect overlappingType.overrides (some "00501") (some longerOverride) :=
    @InEffect.first _ [] [shorterOverride] _ (by decide) nofun
  have hbehind : Immaterial (some "00501") [longerOverride] overlappingType.overrides :=
    @Immaterial.behind _ _ _ [longerOverride] [] (List.mem_singleton_self _) (by decide)
  rw [← (hsource _).1 hfirst] at hconstraints
  exact ⟨h, hfirst, hconstraints, (himmaterial _ (.symm _ _ (.rel _ _ hbehind))).trans hconstraints,
    hle, (hreports true "AB").2⟩

end SimpleType

end Interchange
