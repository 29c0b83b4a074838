import Mathlib.Data.Nat.Digits.Lemmas
import Interchange.Proofs.Versions
import Interchange.Value.Decimal

/-!
# Versions that are numbers

Two versions made of digits are never turned into numbers: without the zeros in front, the longer
one is the greater, and of two that are equally long the one that comes later as a text. This is the
order of the numbers they denote, however long they are (`compare_eq_compare_value`), because a row
of digits that does not begin with a zero denotes at least the power of ten that every shorter row
stays below, and rows of one length are in the order of their first digits that differ.

So a range between two numbers takes in the numbers between them, and is refused exactly when its
bounds are reversed (`numbers_compare_by_value`).
-/

namespace Interchange

namespace Value

variable {d e : Char} {ds es : List Char}

/-! ### Rows of digits -/

/-- The number that a digit denotes. -/
def digit (d : Char) : Nat := d.toNat - '0'.toNat

theorem isDigit_iff : d.isDigit = true ↔ '0'.toNat ≤ d.toNat ∧ d.toNat ≤ '9'.toNat := by
  unfold Char.isDigit
  rw [Bool.and_eq_true, decide_eq_true_eq, decide_eq_true_eq]
  exact Iff.rfl

theorem digit_lt_ten (h : d.isDigit = true) : digit d < 10 := by
  obtain ⟨-, hle⟩ := isDigit_iff.1 h
  have hnine : '9'.toNat = 57 := rfl
  have hzero : '0'.toNat = 48 := rfl
  unfold digit
  omega

theorem digit_lt_digit_iff (hd : d.isDigit = true) (he : e.isDigit = true) :
    digit d < digit e ↔ d < e := by
  obtain ⟨hd, -⟩ := isDigit_iff.1 hd
  obtain ⟨he, -⟩ := isDigit_iff.1 he
  change digit d < digit e ↔ d.toNat < e.toNat
  unfold digit
  omega

theorem digit_inj (hd : d.isDigit = true) (he : e.isDigit = true) : digit d = digit e ↔ d = e := by
  obtain ⟨hd, -⟩ := isDigit_iff.1 hd
  obtain ⟨he, -⟩ := isDigit_iff.1 he
  rw [← Char.toNat_inj]
  unfold digit
  omega

theorem digit_pos (h : d.isDigit = true) (hne : d ≠ '0') : 0 < digit d := by
  obtain ⟨hle, -⟩ := isDigit_iff.1 h
  have hne' : d.toNat ≠ '0'.toNat := fun heq => hne (Char.toNat_inj.1 heq)
  unfold digit
  omega

/-- A row of digits is written with the digit of the highest power of ten first. -/
theorem ofDigits_eq (ds : List Char) : ofDigits ds = Nat.ofDigits 10 (ds.reverse.map digit) := by
  rw [Nat.ofDigits_eq_foldr, List.foldr_map]
  unfold ofDigits
  rw [List.foldl_eq_foldr_reverse]
  simp only [digit, Nat.cast_id, Nat.add_comm]

theorem ofDigits_cons (d : Char) (ds : List Char) :
    ofDigits (d :: ds) = digit d * 10 ^ ds.length + ofDigits ds := by
  rw [ofDigits_eq, ofDigits_eq, List.reverse_cons, List.map_append, Nat.ofDigits_append]
  simp [Nat.mul_comm, Nat.add_comm]

theorem ofDigits_lt_pow (h : ∀ d ∈ ds, d.isDigit = true) : ofDigits ds < 10 ^ ds.length := by
  have hlt : ∀ x ∈ ds.reverse.map digit, x < 10 := by
    intro x hx
    obtain ⟨d, hd, rfl⟩ := List.mem_map.1 hx
    exact digit_lt_ten (h d (List.mem_reverse.1 hd))
  have hpow := Nat.ofDigits_lt_base_pow_length (by decide) hlt
  rw [List.length_map, List.length_reverse] at hpow
  rw [ofDigits_eq]
  exact hpow

/-- Of two numbers the parts above a power of ten decide, and the rest where these are equal. -/
theorem mul_add_lt_mul_add_iff {a b x y power : Nat} (hx : x < power) (hy : y < power) :
    a * power + x < b * power + y ↔ a < b ∨ a = b ∧ x < y := by
  rcases Nat.lt_trichotomy a b with h | h | h
  · have hle : (a + 1) * power ≤ b * power := Nat.mul_le_mul_right power h
    rw [Nat.succ_mul] at hle
    omega
  · subst h
    omega
  · have hle : (b + 1) * power ≤ a * power := Nat.mul_le_mul_right power h
    rw [Nat.succ_mul] at hle
    omega

/-- A row that does not begin with a zero is greater than every shorter one. -/
theorem ofDigits_lt_of_length_lt (hd : ∀ d ∈ ds, d.isDigit = true)
    (he : ∀ d ∈ es, d.isDigit = true) (hhead : es.head? ≠ some '0')
    (hlen : ds.length < es.length) : ofDigits ds < ofDigits es := by
  cases es with
  | nil => cases hlen
  | cons e es =>
      have hpos : 0 < digit e := digit_pos (he e (by simp)) (by simpa using hhead)
      calc
        ofDigits ds < 10 ^ ds.length := ofDigits_lt_pow hd
        _ ≤ 10 ^ es.length := Nat.pow_le_pow_right (by decide) (Nat.lt_succ_iff.1 hlen)
        _ ≤ digit e * 10 ^ es.length := Nat.le_mul_of_pos_left _ hpos
        _ ≤ digit e * 10 ^ es.length + ofDigits es := Nat.le_add_right _ _
        _ = ofDigits (e :: es) := (ofDigits_cons e es).symm

/-- Rows of one length are in the order of their texts. -/
theorem ofDigits_lt_iff (hlen : ds.length = es.length) (hd : ∀ d ∈ ds, d.isDigit = true)
    (he : ∀ d ∈ es, d.isDigit = true) : ofDigits ds < ofDigits es ↔ ds < es := by
  induction ds generalizing es with
  | nil =>
      cases es with
      | nil => simp
      | cons e es => cases hlen
  | cons d ds ih =>
      cases es with
      | nil => cases hlen
      | cons e es =>
          simp only [List.mem_cons, forall_eq_or_imp] at hd he
          have hlen' : ds.length = es.length := Nat.succ.inj hlen
          have hds := ofDigits_lt_pow hd.2
          have hes := ofDigits_lt_pow he.2
          rw [List.cons_lt_cons_iff, ← ih hlen' hd.2 he.2, ← digit_lt_digit_iff hd.1 he.1,
            ← digit_inj hd.1 he.1, ofDigits_cons, ofDigits_cons, hlen']
          rw [hlen'] at hds
          exact mul_add_lt_mul_add_iff hds hes

/-- Zeros in front count for nothing. -/
theorem ofDigits_dropWhile_zero (ds : List Char) :
    ofDigits (ds.dropWhile (· == '0')) = ofDigits ds := by
  induction ds with
  | nil => rfl
  | cons d ds ih =>
      rw [List.dropWhile_cons]
      by_cases h : d = '0'
      · rw [if_pos (by simp [h]), ih, ofDigits_cons, h]
        simp [digit]
      · rw [if_neg (by simpa using h)]

end Value

namespace Version

open Value

variable {a b v w : String} {ds es : List Char}

/-- The number that a version made of digits denotes. -/
def value (v : String) : Nat := ofDigits v.toList

/-! ### The order of numbers -/

theorem digits_significant (h : isNumeric v = true) : ∀ d ∈ significant v, d.isDigit = true := by
  intro d hd
  unfold isNumeric at h
  rw [Bool.and_eq_true, List.all_eq_true] at h
  exact h.2 d ((List.dropWhile_sublist _).subset hd)

theorem head?_significant (v : String) : (significant v).head? ≠ some '0' := by
  intro h
  have hne : significant v ≠ [] := by
    intro hnil
    rw [hnil] at h
    cases h
  have hhead := List.head_dropWhile_not (· == '0') hne
  rw [List.head?_eq_some_head hne, Option.some.injEq] at h
  change ((significant v).head hne == '0') = false at hhead
  rw [h] at hhead
  cases hhead

theorem ofDigits_significant (v : String) : ofDigits (significant v) = value v :=
  ofDigits_dropWhile_zero v.toList

/-- Rows of one length compare as texts as they compare as numbers. -/
theorem compare_ofList (hlen : ds.length = es.length) (hd : ∀ d ∈ ds, d.isDigit = true)
    (he : ∀ d ∈ es, d.isDigit = true) :
    Ord.compare (String.ofList ds) (String.ofList es) =
      Ord.compare (ofDigits ds) (ofDigits es) := by
  have hlt : String.ofList ds < String.ofList es ↔ ofDigits ds < ofDigits es := by
    rw [ofDigits_lt_iff hlen hd he, String.lt_iff, String.toList_ofList, String.toList_ofList]
  have hgt : String.ofList es < String.ofList ds ↔ ofDigits es < ofDigits ds := by
    rw [ofDigits_lt_iff hlen.symm he hd, String.lt_iff, String.toList_ofList, String.toList_ofList]
  rcases Nat.lt_trichotomy (ofDigits ds) (ofDigits es) with h | h | h
  · rw [Nat.compare_eq_lt.2 h]
    exact compareOfLessAndEq_eq_lt.2 (hlt.2 h)
  · have hle : String.ofList ds ≤ String.ofList es := String.not_lt.1 (by rw [hgt]; omega)
    have hge : String.ofList es ≤ String.ofList ds := String.not_lt.1 (by rw [hlt]; omega)
    rw [String.le_antisymm hle hge, Nat.compare_eq_eq.2 h, Std.ReflOrd.compare_self]
  · rw [Nat.compare_eq_gt.2 h, Std.OrientedOrd.eq_swap]
    exact congrArg Ordering.swap (compareOfLessAndEq_eq_lt.2 (hgt.2 h))

/-- Numbers compare by value. -/
theorem compare_eq_compare_value (ha : isNumeric a = true) (hb : isNumeric b = true) :
    compare a b = Ord.compare (value a) (value b) := by
  have hda := digits_significant ha
  have hdb := digits_significant hb
  unfold compare
  rw [ha, hb, Bool.and_true, if_pos rfl, ← ofDigits_significant a, ← ofDigits_significant b]
  rcases Nat.lt_trichotomy (significant a).length (significant b).length with h | h | h
  · have hlt := ofDigits_lt_of_length_lt hda hdb (head?_significant b) h
    rw [Nat.compare_eq_lt.2 h, Nat.compare_eq_lt.2 hlt]
    rfl
  · rw [Nat.compare_eq_eq.2 h, compare_ofList h hda hdb]
    rfl
  · have hlt := ofDigits_lt_of_length_lt hdb hda (head?_significant a) h
    rw [Nat.compare_eq_gt.2 h, Nat.compare_eq_gt.2 hlt]
    rfl

theorem notAfter_iff_value_le (hv : isNumeric v = true) (hw : isNumeric w = true) :
    NotAfter v w ↔ value v ≤ value w := by
  unfold NotAfter
  rw [compare_eq_compare_value hv hw, Nat.isLE_compare]

/-- Zeros in front of a number do not count. -/
theorem value_zeros_append (n : Nat) (v : String) :
    value (String.ofList (List.replicate n '0') ++ v) = value v := by
  unfold value
  rw [String.toList_append, String.toList_ofList, ← ofDigits_dropWhile_zero,
    ← ofDigits_dropWhile_zero v.toList, List.dropWhile_append_of_pos (by simp)]

end Version

/-! ### Ranges between numbers -/

namespace VersionRange

open Version

variable {min max : Option String} {r r' : VersionRange} {fault : Fault} {v : String}

/-- The bounds that are given are numbers. -/
structure Numeric (min max : Option String) : Prop where
  lower : ∀ lo, min = some lo → isNumeric lo = true
  upper : ∀ hi, max = some hi → isNumeric hi = true

instance : Decidable (Numeric min max) :=
  decidable_of_iff ((∀ lo ∈ min, isNumeric lo = true) ∧ ∀ hi ∈ max, isNumeric hi = true)
    ⟨fun ⟨hlo, hhi⟩ => ⟨hlo, hhi⟩, fun h => ⟨h.lower, h.upper⟩⟩

theorem Numeric.notAfter_iff (h : Numeric min max) {lo hi : String} (hlo : min = some lo)
    (hhi : max = some hi) : NotAfter lo hi ↔ value lo ≤ value hi :=
  notAfter_iff_value_le (h.lower lo hlo) (h.upper hi hhi)

theorem Numeric.between_eq_error_iff (h : Numeric min max) : between min max = .error fault ↔
    ∃ lo hi, min = some lo ∧ max = some hi ∧ value hi < value lo ∧ fault = .reversed lo hi := by
  rcases between_cases min max with ⟨lo, hi, hlo, hhi, hreversed, he⟩ | ⟨hordered, hok⟩
  · rw [h.notAfter_iff hlo hhi, Nat.not_le] at hreversed
    rw [he, Except.error.injEq]
    constructor
    · intro hfault
      exact ⟨lo, hi, hlo, hhi, hreversed, hfault.symm⟩
    · intro ⟨lo', hi', hlo', hhi', _, hfault⟩
      rw [hlo] at hlo'
      rw [hhi] at hhi'
      cases hlo'
      cases hhi'
      exact hfault.symm
  · rw [hok]
    constructor
    · intro he
      cases he
    · intro ⟨lo, hi, hlo, hhi, hlt, _⟩
      have hle := (h.notAfter_iff hlo hhi).1 (hordered lo hi hlo hhi)
      omega

theorem Numeric.between_eq_ok_iff (h : Numeric min max) : between min max = .ok r' ↔
    r' = ⟨min, max⟩ ∧ ∀ lo hi, min = some lo → max = some hi → value lo ≤ value hi := by
  rcases between_cases min max with ⟨lo, hi, hlo, hhi, hreversed, he⟩ | ⟨hordered, hok⟩
  · rw [h.notAfter_iff hlo hhi] at hreversed
    rw [he]
    constructor
    · intro hok
      cases hok
    · intro ⟨_, hle⟩
      exact absurd (hle lo hi hlo hhi) hreversed
  · rw [hok, Except.ok.injEq]
    constructor
    · intro hr
      exact ⟨hr.symm, fun lo hi hlo hhi => (h.notAfter_iff hlo hhi).1 (hordered lo hi hlo hhi)⟩
    · intro ⟨hr, _⟩
      exact hr.symm

theorem Numeric.appliesTo_iff (h : Numeric r.min r.max) (hv : isNumeric v = true) :
    r.appliesTo v = true ↔ (∀ lo, r.min = some lo → value lo ≤ value v) ∧
      ∀ hi, r.max = some hi → value v ≤ value hi := by
  rw [VersionRange.appliesTo_iff]
  refine and_congr (forall₂_congr fun lo hlo => ?_) (forall₂_congr fun hi hhi => ?_)
  · exact notAfter_iff_value_le (h.lower lo hlo) hv
  · exact notAfter_iff_value_le hv (h.upper hi hhi)

end VersionRange

namespace Version

/-- Numbers compare by value at any length, and zeros in front do not count. So the bounds of a
range between numbers are refused exactly when the value of the lower one is the greater, and a
number is in the range exactly when its value lies between those of the bounds that are given. -/
theorem numbers_compare_by_value :
    (∀ a b, isNumeric a = true → isNumeric b = true →
      compare a b = Ord.compare (value a) (value b)) ∧
    (∀ n v, value (String.ofList (List.replicate n '0') ++ v) = value v) ∧
    (∀ min max, VersionRange.Numeric min max →
      (∀ fault, VersionRange.between min max = .error fault ↔
        ∃ lo hi, min = some lo ∧ max = some hi ∧ value hi < value lo ∧
          fault = .reversed lo hi) ∧
      ∀ r, VersionRange.between min max = .ok r ↔
        r = ⟨min, max⟩ ∧ ∀ lo hi, min = some lo → max = some hi → value lo ≤ value hi) ∧
    ∀ (r : VersionRange) v, VersionRange.Numeric r.min r.max → isNumeric v = true →
      (r.appliesTo v = true ↔ (∀ lo, r.min = some lo → value lo ≤ value v) ∧
        ∀ hi, r.max = some hi → value v ≤ value hi) := by
  refine ⟨fun _ _ => compare_eq_compare_value, value_zeros_append, ?_, ?_⟩
  · intro min max h
    exact ⟨fun _ => h.between_eq_error_iff, fun _ => h.between_eq_ok_iff⟩
  · intro r v h hv
    exact h.appliesTo_iff hv

/-- Numbers that no machine word holds, with zeros in front, and a bound that is left open. -/
theorem numbers_compare_by_value_long :
    compare "0018446744073709551616" "18446744073709551617" = .lt ∧
      VersionRange.between (some "00401") (some "400") = .error (.reversed "00401" "400") ∧
      VersionRange.appliesTo ⟨some "0099999999999999999999", none⟩ "100000000000000000000" =
        true ∧
      VersionRange.appliesTo ⟨none, some "000"⟩ "1" = false := by
  obtain ⟨hcompare, -, hbetween, happlies⟩ := numbers_compare_by_value
  refine ⟨?_, ?_, ?_, ?_⟩
  · rw [hcompare _ _ (by decide) (by decide)]
    decide
  · exact ((hbetween _ _ (by decide)).1 _).2 ⟨"00401", "400", rfl, rfl, by decide, rfl⟩
  · refine (happlies ⟨some "0099999999999999999999", none⟩ _ (by decide) (by decide)).2 ⟨?_, nofun⟩
    intro lo hlo
    cases hlo
    decide
  · refine Bool.eq_false_iff.2 fun h => ?_
    have hle := ((happlies ⟨none, some "000"⟩ "1" (by decide) (by decide)).1 h).2 "000" rfl
    exact absurd hle (by decide)

end Version

end Interchange
