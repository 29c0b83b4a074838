import Interchange.Proofs.Audit

/-!
# How stable a selection is

A selection is asked for with more and more values of a segment. When these come in strictly
increasing order (`Increasing`) its answer is settled as soon as there is one: all values together
give it again. It is that of the one value at the position (`selectedBy_select`), so that the order
of the implementations makes no difference.

Asked for again before the segment is complete, the answer can be taken back. A value that has not
come counts as empty once a later position has been read, and only the last value says whether one
has. A later repetition of the same element that comes to the position again, or stops before it,
looks as if the value could still come (`Position.Revisited`). Those are the only lists of values
for which an answer is taken back (`select_stable`), and there are such lists: see
`select_retracted`.
-/

namespace Interchange

/-! ### Increasing values -/

/-- Each value comes strictly before the ones after it. -/
def Increasing (values : List ElementValue) : Prop := values.Pairwise ElementValue.Precedes

instance (values : List ElementValue) : Decidable (Increasing values) :=
  inferInstanceAs (Decidable (List.Pairwise _ _))

variable {p : Position} {values read more : List ElementValue} {x y : ElementValue}

theorem ElementValue.Precedes.asymm (h : x.Precedes y) : ¬ y.Precedes x := by
  unfold ElementValue.Precedes at h ⊢
  omega

/-- Increasing values are in the order of the stream. -/
theorem Increasing.inStreamOrder (h : Increasing values) : InStreamOrder values :=
  h.imp fun hab => hab.asymm

theorem Increasing.of_prefix (h : Increasing values) (hread : read <+: values) :
    Increasing read := by
  obtain ⟨more, rfl⟩ := hread
  exact (List.pairwise_append.1 h).1

/-- Of increasing values one at most stands at a position in the first repetition. -/
theorem Increasing.find?_slot (h : Increasing values) (hx : x ∈ values)
    (hrepetition : x.repetition = 0) (hslot : x.position.sameSlot p = true) :
    values.find? (fun e => e.repetition == 0 && e.position.sameSlot p) = some x := by
  induction values with
  | nil => cases hx
  | cons y rest ih =>
      obtain ⟨hfirst, hrest⟩ := List.pairwise_cons.1 h
      rcases List.mem_cons.1 hx with rfl | hx
      · exact List.find?_cons_of_pos (by simp [hrepetition, hslot])
      · -- The first value comes before `x`, so it does not stand at the same place.
        rw [List.find?_cons_of_neg, ih hrest hx]
        intro hy
        rw [Bool.and_eq_true, beq_iff_eq, Position.sameSlot_iff] at hy
        rw [Position.sameSlot_iff] at hslot
        have hprecedes := hfirst x hx
        unfold ElementValue.Precedes at hprecedes
        omega

/-- No value stands at the position in the first repetition, and the last one is in a later
repetition of the same element, at the position or before it. -/
def Position.Revisited (p : Position) (values : List ElementValue) : Prop :=
  (∀ x ∈ values, x.repetition = 0 → x.position.sameSlot p = false) ∧
    ∃ last, values.getLast? = some last ∧ last.position.element = p.element ∧
      0 < last.repetition ∧ last.position.componentOrFirst ≤ p.componentOrFirst

namespace Discriminator

variable {d : Discriminator} {value : String} {complete : Bool}

/-! ### The value that is read -/

/-- The value at the position counts, whatever else has come. -/
theorem valueIn?_of_mem (h : Increasing values) (hx : x ∈ values) (hrepetition : x.repetition = 0)
    (hslot : x.position.sameSlot d.position = true) :
    d.valueIn? values complete = some x.value := by
  rw [valueIn?, h.find?_slot hx hrepetition hslot]

theorem valueIn?_eq_none :
    d.valueIn? values false = none ↔
      (∀ x ∈ values, x.repetition = 0 → x.position.sameSlot d.position = false) ∧
        ∀ last, values.getLast? = some last → last.position.streamCompare d.position ≠ .gt := by
  have hfind : values.find? (fun e => e.repetition == 0 && e.position.sameSlot d.position) = none ↔
      ∀ x ∈ values, x.repetition = 0 → x.position.sameSlot d.position = false := by
    simp only [List.find?_eq_none, Bool.and_eq_true, beq_iff_eq, not_and, Bool.not_eq_true]
  rw [← hfind]
  unfold valueIn?
  cases values.find? (fun e => e.repetition == 0 && e.position.sameSlot d.position) with
  | some x => simp
  | none => cases values.getLast? <;> simp

/-- A value that is read before the segment is complete is still read then. -/
theorem valueIn?_of_incomplete (h : d.valueIn? values false = some value) :
    d.valueIn? values true = some value := by
  unfold valueIn? at h ⊢
  split at h
  · exact h
  · exact (Option.ite_none_right_eq_some.1 h).2

/-- What has been read for a position is taken back by a later repetition that comes to the position
again, and by nothing else. -/
theorem valueIn?_retracted (h : d.valueIn? read false = some value)
    (ho : Increasing (read ++ more)) :
    d.valueIn? (read ++ more) false = none ↔ d.position.Revisited (read ++ more) := by
  rw [valueIn?_eq_none]
  constructor
  · rintro ⟨hslot, hlast⟩
    refine ⟨hslot, ?_⟩
    -- No value stands at the position, so a later one has been read.
    obtain ⟨passed, hpassed, hgt⟩ : ∃ passed, read.getLast? = some passed ∧
        passed.position.streamCompare d.position = .gt := by
      refine Classical.byContradiction fun hnone => ?_
      have hread : d.valueIn? read false = none := valueIn?_eq_none.2
        ⟨fun x hx => hslot x (List.mem_append_left more hx),
          fun last hl hgt => hnone ⟨last, hl, hgt⟩⟩
      rw [h] at hread
      cases hread
    cases hmore : more.getLast? with
    | none =>
        obtain rfl := List.getLast?_eq_none_iff.1 hmore
        rw [List.append_nil] at hlast
        exact absurd hgt (hlast passed hpassed)
    | some last =>
        have hwhole : (read ++ more).getLast? = some last := by
          rw [List.getLast?_append, hmore]
          rfl
        have hprecedes : passed.Precedes last :=
          (List.pairwise_append.1 ho).2.2 passed (List.mem_of_getLast? hpassed) last
            (List.mem_of_getLast? hmore)
        have hnot := hlast last hwhole
        rw [Ne, Position.streamCompare_eq_gt] at hnot
        rw [Position.streamCompare_eq_gt] at hgt
        unfold ElementValue.Precedes at hprecedes
        exact ⟨last, hwhole, by omega, by omega, by omega⟩
  · rintro ⟨hslot, last, hlast, helement, -, hcomponent⟩
    refine ⟨hslot, fun last' hlast' hgt => ?_⟩
    obtain rfl : last = last' := Option.some.inj (hlast.symm.trans hlast')
    rw [Position.streamCompare_eq_gt] at hgt
    omega

end Discriminator

namespace Implementation

variable {β : Type} {is is' : List (Implementation β)} {value : String} {complete : Bool}
  {s s' : Selection} {a b : Implementation β}

/-! ### What a value selects -/

/-- The implementation that a selection means. -/
def chosen? (is : List (Implementation β)) : Selection → Option (Implementation β)
  | .resolved index => is[index]?
  | .noMatch | .unresolved => none

/-- What a value selects: the one implementation that it triggers, or none. -/
inductive SelectedBy (is : List (Implementation β)) (value : String) : Selection → Prop
  | resolved {index : Nat} {a : Implementation β} (ha : is[index]? = some a)
      (haccepts : a.discriminator.accepts value = true)
      (hunique : ∀ other b, is[other]? = some b → b.discriminator.accepts value = true →
        other = index) : SelectedBy is value (.resolved index)
  | noMatch (hnone : ∀ a ∈ is, a.discriminator.accepts value = false) :
      SelectedBy is value .noMatch

theorem selectFrom_of_known {index : Nat}
    (h : ∀ a ∈ is, a.selected? values complete = some (a.discriminator.accepts value)) :
    selectFrom values complete index false is =
      match is.findIdx? (·.discriminator.accepts value) with
      | some n => .resolved (index + n)
      | none => .noMatch := by
  induction is generalizing index with
  | nil => rfl
  | cons a rest ih =>
      rw [selectFrom, h a List.mem_cons_self, List.findIdx?_cons]
      cases a.discriminator.accepts value with
      | true => rfl
      | false =>
          simp only [Bool.false_eq_true, if_false]
          rw [ih fun b hb => h b (List.mem_cons_of_mem a hb)]
          cases rest.findIdx? (·.discriminator.accepts value) with
          | none => rfl
          | some n => simp only [Option.map_some, Nat.add_right_comm index 1 n, Nat.add_assoc]

/-- Implementations with no value in common are not both triggered by one. -/
theorem eq_of_accepts (hd : is.Pairwise fun a b => ¬a.Shares b) {i j : Nat}
    (ha : is[i]? = some a) (hb : is[j]? = some b)
    (haccepts : a.discriminator.accepts value = true)
    (hbaccepts : b.discriminator.accepts value = true) : i = j := by
  have hshares {a b : Implementation β} (ha : a.discriminator.accepts value = true)
      (hb : b.discriminator.accepts value = true) : a.Shares b :=
    ⟨value, by simpa [Discriminator.accepts] using ha, by simpa [Discriminator.accepts] using hb⟩
  obtain ⟨hi, rfl⟩ := List.getElem?_eq_some_iff.1 ha
  obtain ⟨hj, rfl⟩ := List.getElem?_eq_some_iff.1 hb
  rw [List.pairwise_iff_getElem] at hd
  rcases Nat.lt_trichotomy i j with hlt | heq | hlt
  · exact absurd (hshares haccepts hbaccepts) (hd i j hi hj hlt)
  · exact heq
  · exact absurd (hshares hbaccepts haccepts) (hd j i hj hi hlt)

/-- When the value that decides is known the selection is what it selects. -/
theorem selectedBy_select (hd : is.Pairwise fun a b => ¬a.Shares b)
    (h : ∀ a ∈ is, a.discriminator.valueIn? values complete = some value) :
    SelectedBy is value (select is values complete) := by
  have hselected : ∀ a ∈ is,
      a.selected? values complete = some (a.discriminator.accepts value) := fun a ha => by
    rw [selected?, h a ha]
    rfl
  rw [select, selectFrom_of_known hselected]
  cases hn : is.findIdx? (·.discriminator.accepts value) with
  | none =>
      refine .noMatch fun a ha => ?_
      exact eq_false_of_ne_true (by simpa using List.findIdx?_eq_none_iff.1 hn a ha)
  | some n =>
      obtain ⟨hlt, haccepts, -⟩ := List.findIdx?_eq_some_iff_getElem.1 hn
      have ha := List.getElem?_eq_getElem hlt
      dsimp only
      rw [Nat.zero_add]
      exact .resolved ha haccepts fun other b hb hbaccepts =>
        eq_of_accepts hd hb ha hbaccepts haccepts

/-- What a value selects does not depend on the order of the implementations. -/
theorem SelectedBy.chosen?_eq (h : SelectedBy is value s) (h' : SelectedBy is' value s')
    (hmem : ∀ a, a ∈ is' ↔ a ∈ is) : chosen? is' s' = chosen? is s := by
  cases h with
  | @resolved n a ha haccepts hunique =>
      cases h' with
      | @resolved n' a' ha' haccepts' _ =>
          obtain ⟨k, hk⟩ := List.mem_iff_getElem?.1 ((hmem a').1 (List.mem_of_getElem? ha'))
          rw [hunique k a' hk haccepts', ha] at hk
          simp only [chosen?, ha, ha', hk]
      | noMatch hnone =>
          rw [hnone a ((hmem a).2 (List.mem_of_getElem? ha))] at haccepts
          cases haccepts
  | noMatch hnone =>
      cases h' with
      | @resolved n' a' ha' haccepts' _ =>
          rw [hnone a' ((hmem a').1 (List.mem_of_getElem? ha'))] at haccepts'
          cases haccepts'
      | noMatch => rfl

theorem SelectedBy.decided (h : SelectedBy is value s) : s ≠ .unresolved := by
  cases h <;> exact fun hs => nomatch hs

/-! ### Stability -/

/-- Implementations that look at one position read the same there. -/
theorem select_cases (hne : is ≠ []) (hp : ∀ a ∈ is, a.discriminator.position = p)
    (hd : is.Pairwise fun a b => ¬a.Shares b) (values : List ElementValue) (complete : Bool) :
    (Discriminator.valueIn? ⟨p, []⟩ values complete = none ∧
        select is values complete = .unresolved) ∨
      ∃ value, Discriminator.valueIn? ⟨p, []⟩ values complete = some value ∧
        SelectedBy is value (select is values complete) := by
  have hread : ∀ a ∈ is, a.discriminator.valueIn? values complete =
      Discriminator.valueIn? ⟨p, []⟩ values complete :=
    fun a ha => Discriminator.valueIn?_congr (hp a ha) values complete
  cases hv : Discriminator.valueIn? ⟨p, []⟩ values complete with
  | none =>
      refine .inl ⟨rfl, selectFrom_of_waiting (fun a ha => ?_) (.inl hne)⟩
      rw [selected?, hread a ha, hv]
      rfl
  | some value =>
      exact .inr ⟨value, rfl, selectedBy_select hd fun a ha => (hread a ha).trans hv⟩

theorem select_eq_of_valueIn? {complete' : Bool} (hp : ∀ a ∈ is, a.discriminator.position = p)
    (h : Discriminator.valueIn? ⟨p, []⟩ values complete =
      Discriminator.valueIn? ⟨p, []⟩ read complete') :
    select is values complete = select is read complete' := by
  refine selectFrom_congr fun a ha => ?_
  have hread (elements : List ElementValue) (complete : Bool) :
      a.discriminator.valueIn? elements complete =
        Discriminator.valueIn? ⟨p, []⟩ elements complete :=
    Discriminator.valueIn?_congr (hp a ha) elements complete
  rw [selected?, selected?, hread, hread, h]

/-- When more values have come the answer is the same or taken back. -/
theorem select_later (hne : is ≠ []) (hp : ∀ a ∈ is, a.discriminator.position = p)
    (hd : is.Pairwise fun a b => ¬a.Shares b) (ho : Increasing (read ++ more))
    (h : select is read false ≠ .unresolved) :
    select is (read ++ more) true = select is read false ∧
      (¬p.Revisited (read ++ more) → select is (read ++ more) false = select is read false) ∧
      (p.Revisited (read ++ more) → select is (read ++ more) false = .unresolved) := by
  obtain ⟨-, hopen⟩ | ⟨value, hread, -⟩ := select_cases hne hp hd read false
  · exact absurd hopen h
  have hcomplete := Discriminator.valueIn?_append hread ho.inStreamOrder
  have hretracted := Discriminator.valueIn?_retracted hread ho
  refine ⟨select_eq_of_valueIn? hp (hcomplete.trans hread.symm), fun hnot => ?_, fun hagain => ?_⟩
  · cases hlater : Discriminator.valueIn? ⟨p, []⟩ (read ++ more) false with
    | none => exact absurd (hretracted.1 hlater) hnot
    | some other =>
        have hother := Discriminator.valueIn?_of_incomplete hlater
        rw [hcomplete] at hother
        cases hother
        exact select_eq_of_valueIn? hp (hlater.trans hread.symm)
  · obtain ⟨-, hopen⟩ | ⟨other, hlater, -⟩ := select_cases hne hp hd (read ++ more) false
    · exact hopen
    · rw [hretracted.2 hagain] at hlater
      cases hlater

/-- In another order the implementations give the same answer. -/
theorem select_perm (hne : is ≠ []) (hp : ∀ a ∈ is, a.discriminator.position = p)
    (hd : is.Pairwise fun a b => ¬a.Shares b) (hperm : is'.Perm is) (values : List ElementValue)
    (complete : Bool) :
    chosen? is' (select is' values complete) = chosen? is (select is values complete) ∧
      (select is' values complete = .unresolved ↔ select is values complete = .unresolved) := by
  have hmem (a : Implementation β) : a ∈ is' ↔ a ∈ is := hperm.mem_iff
  have hne' : is' ≠ [] := fun hnil => hne (by simpa [hnil] using hperm)
  have hd' : is'.Pairwise fun a b => ¬a.Shares b :=
    (hperm.pairwise_iff fun hab hba => hab (hba.imp fun _ h => h.symm)).2 hd
  have hp' : ∀ a ∈ is', a.discriminator.position = p := fun a ha => hp a ((hmem a).1 ha)
  obtain ⟨hv, hopen⟩ | ⟨value, hv, hselected⟩ := select_cases hne hp hd values complete
  · obtain ⟨-, hopen'⟩ | ⟨_, hv', -⟩ := select_cases hne' hp' hd' values complete
    · rw [hopen, hopen']
      exact ⟨rfl, Iff.rfl⟩
    · rw [hv] at hv'
      cases hv'
  · obtain ⟨hv', -⟩ | ⟨value', hv', hselected'⟩ := select_cases hne' hp' hd' values complete
    · rw [hv] at hv'
      cases hv'
    · rw [hv] at hv'
      cases hv'
      exact ⟨hselected.chosen?_eq hselected' hmem,
        iff_of_false hselected'.decided hselected.decided⟩

/-- Among implementations that look at one position and have no value in common, the answer of a
selection stands when more values come in increasing order: when the segment is complete it is the
same, and before that it is the same or taken back, which happens for those values that come to the
position again in a later repetition. There is an answer once the segment is complete, and once a
value stands at the position in the first repetition: the one implementation that the value
triggers, or none. The order of the implementations makes no difference. -/
theorem select_stable (hne : is ≠ []) (hp : ∀ a ∈ is, a.discriminator.position = p)
    (hd : is.Pairwise fun a b => ¬a.Shares b) (hi : Increasing values) :
    (∀ read longer, read <+: longer → longer <+: values → select is read false ≠ .unresolved →
      select is longer true = select is read false ∧
        (¬p.Revisited longer → select is longer false = select is read false) ∧
        (p.Revisited longer → select is longer false = .unresolved)) ∧
      (∀ read, read <+: values → select is read true ≠ .unresolved ∧
        (∀ x ∈ read, x.repetition = 0 → x.position.sameSlot p = true → ∀ complete,
          SelectedBy is x.value (select is read complete)) ∧
        ∀ is', is'.Perm is → ∀ complete,
          chosen? is' (select is' read complete) = chosen? is (select is read complete) ∧
            (select is' read complete = .unresolved ↔
              select is read complete = .unresolved)) := by
  constructor
  · rintro read longer ⟨more, rfl⟩ hlonger hdecided
    exact select_later hne hp hd (hi.of_prefix hlonger) hdecided
  · intro read hread
    refine ⟨select_complete, fun x hx hrepetition hslot complete => ?_, fun is' hperm complete =>
      select_perm hne hp hd hperm read complete⟩
    refine selectedBy_select hd fun a ha => ?_
    exact Discriminator.valueIn?_of_mem (hi.of_prefix hread) hx hrepetition (by rwa [hp a ha])

/-- Two implementations that look at the second component of the second element. The second one is
meant when nothing stands there. -/
def slottedImplementations : List (Implementation Unit) :=
  [⟨"X", ⟨⟨2, some 2⟩, ["x"]⟩, ()⟩, ⟨"Y", ⟨⟨2, some 2⟩, [""]⟩, ()⟩]

theorem slottedImplementations_position :
    ∀ a ∈ slottedImplementations, a.discriminator.position = ⟨2, some 2⟩ := by
  simp [slottedImplementations]

theorem slottedImplementations_disjoint :
    slottedImplementations.Pairwise fun a b => ¬a.Shares b := by
  simp [slottedImplementations, Shares]

/-- Two repetitions of the second element, none with a second component, and the third element. -/
def recurringValues : List ElementValue :=
  [⟨⟨2, some 1⟩, 0, "p"⟩, ⟨⟨2, some 3⟩, 0, "q"⟩, ⟨⟨2, some 1⟩, 1, "r"⟩, ⟨⟨3, none⟩, 0, "s"⟩]

/-- The second implementation is selected once the third component has been read, and again when the
third element has. -/
theorem select_stable_slotted :
    slottedImplementations ≠ [] ∧ Increasing recurringValues ∧
      select slottedImplementations (recurringValues.take 2) false = .resolved 1 ∧
      select slottedImplementations recurringValues false = .resolved 1 ∧
      select slottedImplementations recurringValues true = .resolved 1 := by
  have hne : slottedImplementations ≠ [] := List.cons_ne_nil _ _
  have hi : Increasing recurringValues := by decide
  have hread : select slottedImplementations (recurringValues.take 2) false = .resolved 1 := rfl
  have hmoved : ¬Position.Revisited ⟨2, some 2⟩ recurringValues := by
    rintro ⟨-, last, hlast, helement, -⟩
    cases hlast
    cases helement
  obtain ⟨hlonger, -⟩ :=
    select_stable hne slottedImplementations_position slottedImplementations_disjoint hi
  obtain ⟨hcomplete, hstays, -⟩ :=
    hlonger (recurringValues.take 2) recurringValues (List.take_prefix _ _) (List.prefix_refl _)
      (by rw [hread]; exact fun h => nomatch h)
  rw [hread] at hcomplete hstays
  exact ⟨hne, hi, hread, hstays hmoved, hcomplete⟩

/-- Between the two, when the second repetition has come to its first component, the answer is that
the value has not been read yet. -/
theorem select_retracted :
    slottedImplementations ≠ [] ∧
      (∀ a ∈ slottedImplementations, a.discriminator.position = ⟨2, some 2⟩) ∧
      (slottedImplementations.Pairwise fun a b => ¬a.Shares b) ∧ Increasing recurringValues ∧
      select slottedImplementations (recurringValues.take 2) false = .resolved 1 ∧
      select slottedImplementations (recurringValues.take 3) false = .unresolved :=
  ⟨List.cons_ne_nil _ _, slottedImplementations_position, slottedImplementations_disjoint,
    by decide, rfl, rfl⟩

end Implementation

end Interchange
