import Interchange.Version

/-!
# The order of versions

Numbers compare by value, and every other pair of versions compares as texts. Either comparison is
an order of its own, but the two do not always agree: `9` is less than `10` and comes after it as a
text. A third version that is no number can then stand between the texts of the two, as `1a` does,
and the three compare as a circle. Such versions are `Torn`.

There is no other way for the order to fail: the comparison orders some versions exactly when no
three of them are torn (`aligned_iff`). Ranges of versions are convex, and are refused only when no
version satisfies both bounds, as far as the versions that are compared are `Aligned`
(`compare_orders_aligned`).
-/

namespace Interchange

namespace Version

variable {a b c p q v w x : String}

/-- The first version does not come after the second. -/
def NotAfter (v w : String) : Prop := (compare v w).isLE = true

instance : DecidableRel NotAfter := fun v w =>
  inferInstanceAs (Decidable ((compare v w).isLE = true))

/-! ### The two comparisons -/

/-- The comparison of numbers. -/
def compareValues : String → String → Ordering :=
  compareLex (compareOn fun v => (significant v).length)
    (compareOn fun v => String.ofList (significant v))

instance : Std.TransCmp compareValues :=
  inferInstanceAs (Std.TransCmp (compareLex (compareOn fun v => (significant v).length)
    (compareOn fun v => String.ofList (significant v))))

theorem compare_of_numbers (hv : isNumeric v = true) (hw : isNumeric w = true) :
    compare v w = compareValues v w := by
  unfold compare
  rw [hv, hw]
  rfl

theorem compare_of_texts (h : isNumeric v = false ∨ isNumeric w = false) :
    compare v w = Ord.compare v w := by
  unfold compare
  rcases h with h | h <;> simp [h]

theorem compare_self (v : String) : compare v v = .eq := by
  cases hv : isNumeric v with
  | true =>
      rw [compare_of_numbers hv hv]
      exact Std.ReflCmp.compare_self
  | false => rw [compare_of_texts (.inl hv), Std.ReflOrd.compare_self]

theorem compare_swap (v w : String) : compare v w = (compare w v).swap := by
  cases hv : isNumeric v with
  | false => rw [compare_of_texts (.inl hv), compare_of_texts (.inr hv), Std.OrientedOrd.eq_swap]
  | true =>
      cases hw : isNumeric w with
      | false =>
          rw [compare_of_texts (.inr hw), compare_of_texts (.inl hw), Std.OrientedOrd.eq_swap]
      | true =>
          rw [compare_of_numbers hv hw, compare_of_numbers hw hv]
          exact Std.OrientedCmp.eq_swap

/-- Of two versions one does not come after the other. -/
theorem notAfter_of_not (h : ¬ NotAfter v w) : NotAfter w v := by
  unfold NotAfter at h ⊢
  rw [compare_swap] at h
  cases hc : compare w v <;> simp_all

/-- A number and another version never compare as equal, so one of them comes first as a text. -/
theorem notAfter_mixed (h : isNumeric v ≠ isNumeric w) : NotAfter v w ↔ v < w := by
  have htexts : isNumeric v = false ∨ isNumeric w = false := by
    cases hv : isNumeric v with
    | false => exact .inl rfl
    | true =>
        rw [hv] at h
        exact .inr (Bool.eq_false_iff.2 h.symm)
  have hne : v ≠ w := fun heq => h (congrArg isNumeric heq)
  unfold NotAfter
  rw [compare_of_texts htexts, ← compareOfLessAndEq_eq_lt]
  change (Ord.compare v w).isLE = true ↔ Ord.compare v w = .lt
  cases hc : Ord.compare v w with
  | eq => exact absurd (Std.LawfulEqOrd.eq_of_compare hc) hne
  | lt | gt => simp

/-! ### Torn versions -/

/-- Two numbers, and a version that is none. By value `p` does not come after `q`, but as texts `q`
comes first, then `x`, then `p`. -/
structure Torn (p q x : String) : Prop where
  number : isNumeric p = true
  number' : isNumeric q = true
  other : isNumeric x = false
  values : NotAfter p q
  before : q < x
  behind : x < p

instance : Decidable (Torn p q x) :=
  decidable_of_iff (isNumeric p = true ∧ isNumeric q = true ∧ isNumeric x = false ∧
      NotAfter p q ∧ q < x ∧ x < p)
    ⟨fun ⟨hp, hq, hx, hv, hb, hl⟩ => ⟨hp, hq, hx, hv, hb, hl⟩,
      fun h => ⟨h.number, h.number', h.other, h.values, h.before, h.behind⟩⟩

/-- Torn versions compare as a circle. -/
theorem Torn.circle (h : Torn p q x) : NotAfter p q ∧ NotAfter q x ∧ ¬ NotAfter p x := by
  have hq : isNumeric q ≠ isNumeric x := by rw [h.number', h.other]; decide
  have hp : isNumeric p ≠ isNumeric x := by rw [h.number, h.other]; decide
  refine ⟨h.values, (notAfter_mixed hq).2 h.before, fun hpx => ?_⟩
  exact String.lt_asymm ((notAfter_mixed hp).1 hpx) h.behind

/-- Three versions that compare as a circle are two numbers and a version that is none. Numbers
alone are in order by value, and with one number at most everything is compared as texts. -/
theorem torn_of_circle (hab : NotAfter a b) (hbc : NotAfter b c) (hac : ¬ NotAfter a c) :
    Torn a b c ∨ Torn b c a ∨ Torn c a b := by
  have hca : NotAfter c a := notAfter_of_not hac
  have textual (h₁ : isNumeric a = false ∨ isNumeric b = false)
      (h₂ : isNumeric b = false ∨ isNumeric c = false)
      (h₃ : isNumeric a = false ∨ isNumeric c = false) : NotAfter a c := by
    unfold NotAfter at hab hbc ⊢
    rw [compare_of_texts h₁] at hab
    rw [compare_of_texts h₂] at hbc
    rw [compare_of_texts h₃]
    exact Std.TransOrd.isLE_trans hab hbc
  cases ha : isNumeric a with
  | false =>
      cases hb : isNumeric b with
      | false => exact absurd (textual (.inl ha) (.inl hb) (.inl ha)) hac
      | true =>
          cases hc : isNumeric c with
          | false => exact absurd (textual (.inl ha) (.inr hc) (.inl ha)) hac
          | true =>
              have hbefore : c < a := (notAfter_mixed (by simp [ha, hc])).1 hca
              have hbehind : a < b := (notAfter_mixed (by simp [ha, hb])).1 hab
              exact .inr (.inl ⟨hb, hc, ha, hbc, hbefore, hbehind⟩)
  | true =>
      cases hb : isNumeric b with
      | false =>
          cases hc : isNumeric c with
          | false => exact absurd (textual (.inr hb) (.inl hb) (.inr hc)) hac
          | true =>
              have hbefore : a < b := (notAfter_mixed (by simp [ha, hb])).1 hab
              have hbehind : b < c := (notAfter_mixed (by simp [hb, hc])).1 hbc
              exact .inr (.inr ⟨hc, ha, hb, hca, hbefore, hbehind⟩)
      | true =>
          cases hc : isNumeric c with
          | false =>
              have hbefore : b < c := (notAfter_mixed (by simp [hb, hc])).1 hbc
              have hbehind : c < a := (notAfter_mixed (by simp [ha, hc])).1 hca
              exact .inl ⟨ha, hb, hc, hab, hbefore, hbehind⟩
          | true =>
              unfold NotAfter at hab hbc hac
              rw [compare_of_numbers ha hb] at hab
              rw [compare_of_numbers hb hc] at hbc
              rw [compare_of_numbers ha hc] at hac
              exact absurd (Std.TransCmp.isLE_trans hab hbc) hac

/-! ### Aligned versions -/

/-- No three of the versions are torn. -/
def Aligned (versions : List String) : Prop :=
  ∀ p ∈ versions, ∀ q ∈ versions, ∀ x ∈ versions, ¬ Torn p q x

instance (versions : List String) : Decidable (Aligned versions) :=
  inferInstanceAs (Decidable (∀ p ∈ versions, ∀ q ∈ versions, ∀ x ∈ versions, ¬ Torn p q x))

theorem Aligned.trans (h : Aligned [a, b, c]) (hab : NotAfter a b) (hbc : NotAfter b c) :
    NotAfter a c := by
  refine Decidable.byContradiction fun hac => ?_
  rcases torn_of_circle hab hbc hac with ht | ht | ht
  · exact h a (by simp) b (by simp) c (by simp) ht
  · exact h b (by simp) c (by simp) a (by simp) ht
  · exact h c (by simp) a (by simp) b (by simp) ht

theorem Aligned.mono {versions fewer : List String} (h : Aligned versions)
    (hsub : fewer ⊆ versions) : Aligned fewer :=
  fun p hp q hq x hx => h p (hsub hp) q (hsub hq) x (hsub hx)

/-- The comparison orders exactly the versions of which no three are torn. -/
theorem aligned_iff {versions : List String} :
    Aligned versions ↔ ∀ a ∈ versions, ∀ b ∈ versions, ∀ c ∈ versions,
      NotAfter a b → NotAfter b c → NotAfter a c := by
  constructor
  · intro h a ha b hb c hc
    exact (h.mono (by simp [ha, hb, hc])).trans
  · intro h p hp q hq x hx ht
    obtain ⟨hpq, hqx, hpx⟩ := ht.circle
    exact hpx (h p hp q hq x hx hpq hqx)

/-- Numbers alone are aligned, and so are versions of which none is a number. -/
theorem aligned_of_alike {versions : List String} {number : Bool}
    (h : ∀ v ∈ versions, isNumeric v = number) : Aligned versions := by
  intro p hp q _ x hx ht
  have hnumber := ht.number
  have hother := ht.other
  rw [h p hp] at hnumber
  rw [h x hx, hnumber] at hother
  cases hother

end Version

/-! ### Ranges -/

namespace VersionRange

open Version

variable {r : VersionRange} {u v w : String}

theorem appliesTo_iff : r.appliesTo v = true ↔
    (∀ lo, r.min = some lo → NotAfter lo v) ∧ ∀ hi, r.max = some hi → NotAfter v hi := by
  have hmin (lo : String) : (Version.compare v lo != .lt) = true ↔ NotAfter lo v := by
    unfold NotAfter
    rw [compare_swap lo v]
    cases Version.compare v lo <;> decide
  have hmax (hi : String) : (Version.compare v hi != .gt) = true ↔ NotAfter v hi := by
    unfold NotAfter
    cases Version.compare v hi <;> decide
  unfold appliesTo
  cases r.min <;> cases r.max <;> simp [hmin, hmax]

/-- A version between two versions of a range is in the range. -/
theorem appliesTo_between (hu : r.appliesTo u = true) (hw : r.appliesTo w = true)
    (huv : NotAfter u v) (hvw : NotAfter v w)
    (hmin : ∀ lo, r.min = some lo → Aligned [lo, u, v])
    (hmax : ∀ hi, r.max = some hi → Aligned [v, w, hi]) : r.appliesTo v = true := by
  obtain ⟨hlo, -⟩ := appliesTo_iff.1 hu
  obtain ⟨-, hhi⟩ := appliesTo_iff.1 hw
  refine appliesTo_iff.2 ⟨fun lo h => ?_, fun hi h => ?_⟩
  · exact (hmin lo h).trans (hlo lo h) huv
  · exact (hmax hi h).trans hvw (hhi hi h)

/-- Two bounds make no range exactly when they are reversed. -/
theorem between_cases (min max : Option String) :
    (∃ lo hi, min = some lo ∧ max = some hi ∧ ¬ NotAfter lo hi ∧
      between min max = .error (.reversed lo hi)) ∨
    ((∀ lo hi, min = some lo → max = some hi → NotAfter lo hi) ∧
      between min max = .ok ⟨min, max⟩) := by
  cases min with
  | none => exact .inr ⟨nofun, rfl⟩
  | some lo =>
      cases max with
      | none => exact .inr ⟨nofun, rfl⟩
      | some hi =>
          unfold between NotAfter
          cases hc : Version.compare lo hi with
          | gt => exact .inl ⟨lo, hi, rfl, rfl, by simp [hc], by simp [hc]⟩
          | lt | eq =>
              refine .inr ⟨?_, by simp [hc]⟩
              rintro _ _ ⟨⟩ ⟨⟩
              rw [hc]
              rfl

/-- Bounds that make no range are reversed. -/
theorem between_eq_error {min max : Option String} {fault : Fault}
    (h : between min max = .error fault) :
    ∃ lo hi, min = some lo ∧ max = some hi ∧ ¬ NotAfter lo hi := by
  rcases between_cases min max with ⟨lo, hi, hmin, hmax, hreversed, -⟩ | ⟨-, hok⟩
  · exact ⟨lo, hi, hmin, hmax, hreversed⟩
  · rw [hok] at h
    cases h

/-- No version satisfies the bounds that make no range. -/
theorem not_appliesTo_of_error {min max : Option String} {fault : Fault}
    (h : between min max = .error fault)
    (ha : ∀ lo hi, min = some lo → max = some hi → Aligned [lo, v, hi]) :
    appliesTo ⟨min, max⟩ v = false := by
  obtain ⟨lo, hi, hmin, hmax, hreversed⟩ := between_eq_error h
  refine Bool.eq_false_iff.2 fun hv => hreversed ?_
  obtain ⟨hlo, hhi⟩ := appliesTo_iff.1 hv
  exact (ha lo hi hmin hmax).trans (hlo lo hmin) (hhi hi hmax)

end VersionRange

namespace Version

/-! ### The order -/

/-- Versions compare as an order as far as they are aligned: every version is equal to itself, two
versions compare the other way round when they are exchanged, and the comparison is transitive
among versions exactly when no three of them are torn, which takes versions of both sorts. So a
version between two versions of a range is in the range, and the bounds that make no range are
satisfied by no version, unless it is torn with them. -/
theorem compare_orders_aligned :
    (∀ v, compare v v = .eq) ∧
    (∀ v w, compare v w = (compare w v).swap) ∧
    (∀ versions : List String, Aligned versions ↔ ∀ a ∈ versions, ∀ b ∈ versions,
      ∀ c ∈ versions, NotAfter a b → NotAfter b c → NotAfter a c) ∧
    (∀ (versions : List String) (number : Bool), (∀ v ∈ versions, isNumeric v = number) →
      Aligned versions) ∧
    (∀ (r : VersionRange) (u v w : String), r.appliesTo u = true → r.appliesTo w = true →
      NotAfter u v → NotAfter v w → (∀ lo, r.min = some lo → Aligned [lo, u, v]) →
      (∀ hi, r.max = some hi → Aligned [v, w, hi]) → r.appliesTo v = true) ∧
    ∀ (min max : Option String) (fault : VersionRange.Fault),
      VersionRange.between min max = .error fault → ∀ v,
      (∀ lo hi, min = some lo → max = some hi → Aligned [lo, v, hi]) →
      VersionRange.appliesTo ⟨min, max⟩ v = false := by
  refine ⟨compare_self, compare_swap, fun _ => aligned_iff, fun _ _ => aligned_of_alike, ?_, ?_⟩
  · exact fun _ _ _ _ => VersionRange.appliesTo_between
  · exact fun _ _ _ h _ ha => VersionRange.not_appliesTo_of_error h ha

/-- Numbers of different lengths, and versions that are none. -/
theorem compare_orders_aligned_mixed :
    Aligned ["0401", "501", "D96A", "4.1"] ∧ NotAfter "501" "D96A" ∧ NotAfter "0401" "501" ∧
      NotAfter "0401" "D96A" ∧
      VersionRange.appliesTo ⟨some "0401", some "D96A"⟩ "501" = true ∧
      VersionRange.between (some "D96A") (some "0401") = .error (.reversed "D96A" "0401") ∧
      VersionRange.appliesTo ⟨some "D96A", some "0401"⟩ "501" = false := by
  obtain ⟨-, -, htrans, -, hrange, herror⟩ := compare_orders_aligned
  have ha : Aligned ["0401", "501", "D96A", "4.1"] := by decide +kernel
  have hle : NotAfter "0401" "501" := by decide
  have hle' : NotAfter "501" "D96A" := by decide
  refine ⟨ha, hle', hle, ?_, ?_, ?_, ?_⟩
  · exact (htrans _).1 ha "0401" (by simp) "501" (by simp) "D96A" (by simp) hle hle'
  · refine hrange _ "0401" "501" "D96A" (by decide) (by decide) hle hle' ?_ ?_
    · rintro lo ⟨⟩
      exact ha.mono (by simp)
    · rintro hi ⟨⟩
      exact ha.mono (by simp)
  · rfl
  · refine herror (some "D96A") (some "0401") (.reversed "D96A" "0401") rfl "501" ?_
    rintro lo hi ⟨⟩ ⟨⟩
    exact ha.mono (by simp)

/-- Two numbers and a version that is none compare as a circle. The range from the number that comes
last as a text has a gap, and the circle has bounds that are refused although a version satisfies
both. -/
theorem compare_circle :
    (NotAfter "9" "10" ∧ NotAfter "10" "1a" ∧ ¬ NotAfter "9" "1a") ∧
    (VersionRange.appliesTo ⟨some "9", none⟩ "10" = true ∧
      VersionRange.appliesTo ⟨some "9", none⟩ "A" = true ∧
      NotAfter "10" "1a" ∧ NotAfter "1a" "A" ∧
      VersionRange.appliesTo ⟨some "9", none⟩ "1a" = false) ∧
    VersionRange.between (some "9") (some "1a") = .error (.reversed "9" "1a") ∧
      VersionRange.appliesTo ⟨some "9", some "1a"⟩ "10" = true :=
  ⟨by decide, by decide, rfl, by decide⟩

end Version

end Interchange
