import Interchange.Discriminator

/-!
# Selecting while values arrive

A selection is asked for again and again while the values of a segment arrive, until it is
decided; `settle` is the answer that comes out. It can differ from the answer to all values at
once, `select … true`: a position that has been passed counts as empty, and a value for it can
still come when the values are not in the order of the stream.

When they are, and the implementations look at one position, the two answers agree
(`settle_eq_select`).
-/

namespace Interchange

/-- One value comes before another: by element, then by repetition, then by component. -/
def ElementValue.Precedes (a b : ElementValue) : Prop :=
  a.position.element < b.position.element ∨
    a.position.element = b.position.element ∧
      (a.repetition < b.repetition ∨
        a.repetition = b.repetition ∧
          a.position.componentOrFirst < b.position.componentOrFirst)

/-- Values in the order of the stream: none belongs before one that has come. -/
def InStreamOrder (values : List ElementValue) : Prop :=
  values.Pairwise fun a b => ¬ b.Precedes a

instance (a b : ElementValue) : Decidable (a.Precedes b) :=
  inferInstanceAs (Decidable (_ ∨ _ ∧ (_ ∨ _ ∧ _)))

instance (values : List ElementValue) : Decidable (InStreamOrder values) :=
  inferInstanceAs (Decidable (List.Pairwise _ _))

namespace Position

theorem streamCompare_eq_gt {p q : Position} :
    p.streamCompare q = .gt ↔ q.element < p.element ∨
      q.element = p.element ∧ q.componentOrFirst < p.componentOrFirst := by
  unfold streamCompare
  rw [Ordering.then_eq_gt, Nat.compare_eq_gt, Nat.compare_eq_gt, Nat.compare_eq_eq]
  omega

theorem sameSlot_iff {p q : Position} :
    p.sameSlot q = true ↔ p.element = q.element ∧ p.componentOrFirst = q.componentOrFirst := by
  unfold sameSlot streamCompare
  rw [beq_iff_eq, Ordering.then_eq_eq, Nat.compare_eq_eq, Nat.compare_eq_eq]

end Position

namespace Discriminator

variable {d d' : Discriminator} {read rest : List ElementValue} {value : String}

/-- Only the position of a discriminator says which value it reads. -/
theorem valueIn?_congr (h : d.position = d'.position) (elements : List ElementValue)
    (complete : Bool) : d.valueIn? elements complete = d'.valueIn? elements complete := by
  unfold valueIn?
  rw [h]

theorem valueIn?_complete (d : Discriminator) (elements : List ElementValue) :
    ∃ value, d.valueIn? elements true = some value := by
  unfold valueIn?
  split
  · exact ⟨_, rfl⟩
  · exact ⟨"", rfl⟩

/-- What has been read for a discriminator stands when the rest comes in order. -/
theorem valueIn?_append (h : d.valueIn? read false = some value)
    (ho : InStreamOrder (read ++ rest)) : d.valueIn? (read ++ rest) true = some value := by
  unfold valueIn? at h ⊢
  rw [List.find?_append]
  cases hf : read.find? fun e => e.repetition == 0 && e.position.sameSlot d.position with
  | some e =>
      rw [hf] at h
      exact h
  | none =>
      rw [hf] at h
      simp only [Bool.false_or, Option.none_or] at h ⊢
      cases hl : read.getLast? with
      | none => simp [hl] at h
      | some last =>
          simp only [hl, beq_iff_eq] at h
          split at h
          · rename_i hgt
            -- What comes after a later position is neither earlier nor in the first repetition.
            have hrest : rest.find? (fun e => e.repetition == 0 && e.position.sameSlot d.position) =
                none := by
              rw [List.find?_eq_none]
              intro e he hslot
              rw [Bool.and_eq_true, beq_iff_eq, Position.sameSlot_iff] at hslot
              have hlast : ¬ e.Precedes last :=
                (List.pairwise_append.1 ho).2.2 last (List.mem_of_getLast? hl) e he
              rw [Position.streamCompare_eq_gt] at hgt
              unfold ElementValue.Precedes at hlast
              omega
            rw [hrest]
            exact h
          · cases h

end Discriminator

namespace Implementation

variable {β : Type} {is : List (Implementation β)} {read rest values : List ElementValue}
  {complete : Bool} {i : Nat}

/-- The implementations look at one position. -/
def SamePosition (is : List (Implementation β)) : Prop :=
  ∀ a ∈ is, ∀ b ∈ is, a.discriminator.position = b.discriminator.position

/-! ### The answers of a selection -/

theorem selectFrom_resolved {index : Nat} {waiting : Bool}
    (h : selectFrom values complete index waiting is = .resolved i) :
    index ≤ i ∧ ∃ a, is[i - index]? = some a := by
  induction is generalizing index waiting with
  | nil => simp only [selectFrom] at h; split at h <;> cases h
  | cons a rest ih =>
      rw [selectFrom] at h
      split at h
      · cases h
        exact ⟨Nat.le_refl _, a, by simp⟩
      all_goals
        obtain ⟨hle, b, hb⟩ := ih h
        refine ⟨by omega, b, ?_⟩
        rw [show i - index = (i - (index + 1)) + 1 by omega]
        simpa using hb

/-- A selected implementation is there. -/
theorem select_resolved (h : select is values complete = .resolved i) :
    ∃ a, is[i]? = some a := by
  obtain ⟨-, a, ha⟩ := selectFrom_resolved h
  exact ⟨a, by simpa using ha⟩

theorem selectFrom_congr {values' : List ElementValue} {complete' : Bool} {index : Nat}
    {waiting : Bool}
    (h : ∀ a ∈ is, a.selected? values complete = a.selected? values' complete') :
    selectFrom values complete index waiting is =
      selectFrom values' complete' index waiting is := by
  induction is generalizing index waiting with
  | nil => rfl
  | cons a rest ih =>
      have ih {index : Nat} {waiting : Bool} :
          selectFrom values complete index waiting rest =
            selectFrom values' complete' index waiting rest :=
        ih fun b hb => h b (List.mem_cons_of_mem _ hb)
      simp only [selectFrom, h a List.mem_cons_self, ih]

/-- Once the segment is complete there is an answer. -/
theorem selectFrom_complete {index : Nat} :
    selectFrom values true index false is ≠ .unresolved := by
  induction is generalizing index with
  | nil => simp [selectFrom]
  | cons a rest ih =>
      obtain ⟨value, hv⟩ := a.discriminator.valueIn?_complete values
      rw [selectFrom, selected?, hv, Option.map_some]
      split
      · simp
      · exact ih
      · rename_i h
        cases h

theorem select_complete : select is values true ≠ .unresolved := selectFrom_complete

theorem selectFrom_of_waiting {index : Nat} {waiting : Bool}
    (h : ∀ a ∈ is, a.selected? values complete = none) (hn : is ≠ [] ∨ waiting = true) :
    selectFrom values complete index waiting is = .unresolved := by
  induction is generalizing index waiting with
  | nil => simpa [selectFrom] using hn
  | cons a rest ih =>
      rw [selectFrom, h a List.mem_cons_self]
      exact ih (fun b hb => h b (List.mem_cons_of_mem _ hb)) (.inr rfl)

/-- Implementations that look at one position have read it when their selection is decided. -/
theorem valueIn?_of_decided (hp : SamePosition is) (h : select is read false ≠ .unresolved)
    {a : Implementation β} (ha : a ∈ is) :
    ∃ value, a.discriminator.valueIn? read false = some value := by
  cases hv : a.discriminator.valueIn? read false with
  | some value => exact ⟨value, rfl⟩
  | none =>
      -- When one of them waits they all do, and then nothing is decided.
      refine absurd (selectFrom_of_waiting (fun b hb => ?_) ?_) h
      · rw [selected?, Discriminator.valueIn?_congr (hp b hb a ha), hv]
        rfl
      · exact .inl (List.ne_nil_of_mem ha)

/-- A decided selection is the answer to all values, when the rest comes in order. -/
theorem select_append (hp : SamePosition is) (ho : InStreamOrder (read ++ rest))
    (h : select is read false ≠ .unresolved) :
    select is (read ++ rest) true = select is read false := by
  refine selectFrom_congr fun a ha => ?_
  obtain ⟨value, hv⟩ := valueIn?_of_decided hp h ha
  unfold selected?
  rw [hv, Discriminator.valueIn?_append hv ho]

/-! ### Settling -/

/-- The answer that comes out when `rest` arrives after `read`: the first that is decided, at
the latest when the segment is complete. -/
def settleFrom (is : List (Implementation β)) (read : List ElementValue) :
    (rest : List ElementValue) → Selection
  | [] => select is read true
  | value :: rest =>
      match select is (read ++ [value]) false with
      | .unresolved => settleFrom is (read ++ [value]) rest
      | decided => decided

/-- The answer that comes out when the values of a segment arrive one by one. -/
def settle (is : List (Implementation β)) (values : List ElementValue) : Selection :=
  settleFrom is [] values

theorem settleFrom_eq_select (hp : SamePosition is) (ho : InStreamOrder (read ++ rest)) :
    settleFrom is read rest = select is (read ++ rest) true := by
  induction rest generalizing read with
  | nil => simp [settleFrom]
  | cons value rest ih =>
      have ho' : InStreamOrder ((read ++ [value]) ++ rest) := by simpa using ho
      have hdecided := select_append hp ho'
      rw [settleFrom]
      split
      · rw [ih ho', List.append_assoc, List.singleton_append]
      · rename_i h
        rw [← hdecided h, List.append_assoc, List.singleton_append]

/-- Values in the order of the stream settle a selection as all of them at once do. -/
theorem settle_eq_select (hp : SamePosition is) (ho : InStreamOrder values) :
    settle is values = select is values true :=
  settleFrom_eq_select hp ho

end Implementation

end Interchange
