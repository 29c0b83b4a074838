import Mathlib.Algebra.Ring.Int.Defs
import Mathlib.Algebra.Ring.Nat
import Interchange.Value.Rule

/-!
# Decimals as text

A decimal is taken apart from the front: a minus sign, the digits before the point, the point, the
digits after it, and then the exponent, which must be all that is left. `Decimal.Written` says what
the written forms are, without a reader, and `parse?_eq_some_iff` that the reader finds exactly
these, each in one way. The reader never has to go back, because each part ends where a character
stands that cannot belong to it.

The exponent must be a signed word, and the decimal places are counted in signed words as well. That
changes no verdict: a count that does not fit is greater than any scale, and no count lies below all
signed words by enough to come out above a scale (`nearestWord_le_iff`). So a decimal is accepted
exactly when its places, over all integers, are within the scale (`checkDecimal_exact`).
-/

namespace Interchange.Value

namespace Decimal

/-! ### Written forms -/

/-- A minus sign, or none. -/
inductive Sign : (negative : Bool) → List Char → Prop
  | minus : Sign true ['-']
  | absent : Sign false []

/-- Digits with a point among them or behind them, or without one. There is a digit before the point
or after it. -/
inductive Mantissa : (whole fraction : List Char) → List Char → Prop
  | whole {whole : List Char} (hne : whole ≠ []) (hwhole : ∀ c ∈ whole, c.isDigit = true) :
      Mantissa whole [] whole
  | pointed {whole fraction : List Char} (hne : whole ≠ [])
      (hwhole : ∀ c ∈ whole, c.isDigit = true) (hfraction : ∀ c ∈ fraction, c.isDigit = true) :
      Mantissa whole fraction (whole ++ '.' :: fraction)
  | bare {fraction : List Char} (hne : fraction ≠ [])
      (hfraction : ∀ c ∈ fraction, c.isDigit = true) : Mantissa [] fraction ('.' :: fraction)

/-- A letter and an integer, or nothing, which stands for 0. -/
inductive Exponent : Int → List Char → Prop
  | absent : Exponent 0 []
  | plain {letter : Char} {digits : List Char} (hletter : letter = 'E' ∨ letter = 'e')
      (hne : digits ≠ []) (hdigits : ∀ c ∈ digits, c.isDigit = true) :
      Exponent (ofDigits digits) (letter :: digits)
  | negative {letter : Char} {digits : List Char} (hletter : letter = 'E' ∨ letter = 'e')
      (hne : digits ≠ []) (hdigits : ∀ c ∈ digits, c.isDigit = true) :
      Exponent (-ofDigits digits) (letter :: '-' :: digits)

/-- The parts of a decimal and the text that is made of them. -/
inductive Written : Decimal → List Char → Prop
  | parts {negative : Bool} {whole fraction sign mantissa tail : List Char} {exponent : Int}
      (hsign : Sign negative sign) (hmantissa : Mantissa whole fraction mantissa)
      (hexponent : Exponent exponent tail) :
      Written ⟨negative, whole, fraction, exponent⟩ (sign ++ mantissa ++ tail)

end Decimal

variable {cs ds rest : List Char} {negative : Bool} {sign : List Char}

/-! ### Rows of digits -/

/-- A row of digits ends before the first character that is none. -/
theorem spanDigits_append (hd : ∀ c ∈ ds, c.isDigit = true)
    (hrest : ∀ c, rest.head? = some c → c.isDigit = false) :
    spanDigits (ds ++ rest) = (ds, rest) := by
  have hstop : rest.takeWhile Char.isDigit = [] ∧ rest.dropWhile Char.isDigit = rest := by
    cases rest with
    | nil => exact ⟨rfl, rfl⟩
    | cons c rest =>
        have hc := hrest c rfl
        exact ⟨List.takeWhile_cons_of_neg (by simp [hc]), List.dropWhile_cons_of_neg (by simp [hc])⟩
  unfold spanDigits
  rw [List.takeWhile_append_of_pos hd, List.dropWhile_append_of_pos hd, hstop.1, hstop.2,
    List.append_nil]

theorem point_not_digit (rest : List Char) :
    ∀ c, ('.' :: rest).head? = some c → c.isDigit = false := by
  intro c hc
  cases hc
  rfl

theorem spanDigits_eq (h : spanDigits cs = (ds, rest)) :
    cs = ds ++ rest ∧ ∀ c ∈ ds, c.isDigit = true := by
  cases h
  refine ⟨List.takeWhile_append_dropWhile.symm, ?_⟩
  exact List.all_eq_true.1 List.all_takeWhile

namespace Decimal

variable {d d' : Decimal} {exponent : Int} {whole fraction mantissa tail : List Char}

theorem head?_ne_minus (hne : ds ≠ []) (hd : ∀ c ∈ ds, c.isDigit = true) :
    (ds ++ rest).head? ≠ some '-' := by
  cases ds with
  | nil => exact absurd rfl hne
  | cons c ds =>
      intro hhead
      cases hhead
      exact Bool.noConfusion (hd '-' List.mem_cons_self)

theorem stripMinus_append (h : Sign negative sign) (hrest : rest.head? ≠ some '-') :
    stripMinus (sign ++ rest) = (negative, rest) := by
  cases h with
  | minus => rfl
  | absent =>
      rw [List.nil_append]
      unfold stripMinus
      split
      · exact absurd rfl hrest
      · rfl

theorem stripMinus_eq (h : stripMinus cs = (negative, rest)) :
    ∃ sign, Sign negative sign ∧ cs = sign ++ rest := by
  unfold stripMinus at h
  split at h
  · cases h
    exact ⟨_, .minus, rfl⟩
  · cases h
    exact ⟨_, .absent, rfl⟩

/-! ### Reading -/

theorem exponent?_eq_some_iff : exponent? cs = some exponent ↔ Exponent exponent cs := by
  constructor
  · intro h
    cases cs with
    | nil =>
        cases h
        exact .absent
    | cons letter rest =>
        cases hstrip : stripMinus rest with
        | mk negative digits =>
            obtain ⟨sign, hsign, rfl⟩ := stripMinus_eq hstrip
            simp only [exponent?, hstrip] at h
            split at h
            · rename_i hform
              obtain ⟨hletter, hdigits⟩ := hform
              obtain ⟨hne, hdigits⟩ := isDigits_iff.1 hdigits
              cases h
              cases hsign with
              | minus => exact .negative hletter hne hdigits
              | absent => exact .plain hletter hne hdigits
            · cases h
  · intro h
    cases h with
    | absent => rfl
    | plain hletter hne hdigits =>
        have hform := isDigits_iff.2 ⟨hne, hdigits⟩
        have hstrip := stripMinus_append .absent (@head?_ne_minus _ [] hne hdigits)
        rw [List.nil_append, List.append_nil] at hstrip
        simp [exponent?, hstrip, hletter, hform]
    | negative hletter hne hdigits =>
        have hform := isDigits_iff.2 ⟨hne, hdigits⟩
        simp [exponent?, stripMinus, hletter, hform]

/-- An exponent begins with a letter. -/
theorem Exponent.head (h : Exponent exponent tail) :
    tail.head? = none ∨ tail.head? = some 'E' ∨ tail.head? = some 'e' := by
  cases h with
  | absent => exact .inl rfl
  | plain hletter | negative hletter =>
      right
      simpa using hletter

theorem Exponent.head_not_digit (h : Exponent exponent tail) :
    ∀ c, tail.head? = some c → c.isDigit = false := by
  intro c hc
  rcases h.head with hhead | hhead | hhead
  all_goals
    rw [hhead] at hc
    cases hc
  · rfl
  · rfl

/-- A mantissa begins with a digit or a point, and not with a minus sign. -/
theorem Mantissa.head (h : Mantissa whole fraction mantissa) :
    (mantissa ++ rest).head? ≠ some '-' := by
  cases h with
  | whole hne hwhole => exact head?_ne_minus hne hwhole
  | pointed hne hwhole hfraction =>
      rw [List.append_assoc]
      exact head?_ne_minus hne hwhole
  | bare => simp

/-- The reader takes what is written apart into the parts it is made of. -/
theorem parse?_of_written (h : Written d cs) : parse? cs = some d := by
  cases h with
  | @parts negative whole fraction sign mantissa tail exponent hsign hmantissa hexponent =>
      have hread := exponent?_eq_some_iff.2 hexponent
      have htail := hexponent.head_not_digit
      unfold parse?
      rw [List.append_assoc, stripMinus_append hsign hmantissa.head]
      cases hmantissa with
      | whole hne hwhole =>
          simp only [spanDigits_append hwhole htail]
          split
          · rcases hexponent.head with hhead | hhead | hhead <;> cases hhead
          · simp [hne, hread]
      | pointed hne hwhole hfraction =>
          rw [List.append_assoc, List.cons_append]
          simp only [spanDigits_append hwhole (point_not_digit _),
            spanDigits_append hfraction htail]
          simp [hne, hread]
      | bare hne hfraction =>
          have hspan :
              spanDigits ('.' :: (fraction ++ tail)) = ([], '.' :: (fraction ++ tail)) := rfl
          simp only [List.cons_append, hspan, spanDigits_append hfraction htail]
          simp [hne, hread]

theorem written_of_parse? (h : parse? cs = some d) : Written d cs := by
  unfold parse? at h
  cases hstrip : stripMinus cs with
  | mk negative rest =>
      obtain ⟨sign, hsign, rfl⟩ := stripMinus_eq hstrip
      cases hspan : spanDigits rest with
      | mk whole rest' =>
          obtain ⟨rfl, hwhole⟩ := spanDigits_eq hspan
          simp only [hstrip, hspan] at h
          split at h
          · rename_i rest
            cases hspan' : spanDigits rest with
            | mk fraction tail =>
                obtain ⟨rfl, hfraction⟩ := spanDigits_eq hspan'
                simp only [hspan'] at h
                split at h
                · cases h
                · rename_i hsome
                  obtain ⟨exponent, hread, rfl⟩ := Option.map_eq_some_iff.1 h
                  have hexponent := exponent?_eq_some_iff.1 hread
                  cases whole with
                  | nil =>
                      have hbare := Mantissa.bare (by simpa using hsome) hfraction
                      simpa using Written.parts hsign hbare hexponent
                  | cons c whole =>
                      have hpointed := Mantissa.pointed (by simp) hwhole hfraction
                      simpa using Written.parts hsign hpointed hexponent
          · split at h
            · cases h
            · rename_i hsome
              obtain ⟨exponent, hread, rfl⟩ := Option.map_eq_some_iff.1 h
              have hexponent := exponent?_eq_some_iff.1 hread
              rw [← List.append_assoc]
              exact .parts hsign (.whole (by simpa using hsome) hwhole) hexponent

theorem parse?_eq_some_iff : parse? cs = some d ↔ Written d cs :=
  ⟨written_of_parse?, parse?_of_written⟩

/-- A text is written in one way only. -/
theorem Written.unique (h : Written d cs) (h' : Written d' cs) : d = d' := by
  rw [← parse?_eq_some_iff] at h h'
  rw [h, Option.some.injEq] at h'
  exact h'

/-! ### The length of a decimal -/

theorem Mantissa.filter_isDigit (h : Mantissa whole fraction mantissa) :
    mantissa.filter Char.isDigit = whole ++ fraction := by
  have hpoint : Char.isDigit '.' = false := rfl
  cases h with
  | whole _ hwhole => rw [List.filter_eq_self.2 hwhole, List.append_nil]
  | pointed _ hwhole hfraction =>
      rw [List.filter_append, List.filter_cons_of_neg (by simp [hpoint]),
        List.filter_eq_self.2 hwhole, List.filter_eq_self.2 hfraction]
  | bare _ hfraction =>
      rw [List.filter_cons_of_neg (by simp [hpoint]), List.filter_eq_self.2 hfraction,
        List.nil_append]

/-- Before the exponent stand digits, a minus sign and a point, and no letter. -/
theorem not_letter (hsign : Sign negative sign) (hmantissa : Mantissa whole fraction mantissa) :
    ∀ c ∈ sign ++ mantissa, (c != 'E' && c != 'e') = true := by
  have hdigit : ∀ c : Char, c.isDigit = true → (c != 'E' && c != 'e') = true := by
    intro c hc
    rw [Bool.and_eq_true, bne_iff_ne, bne_iff_ne]
    constructor
    · intro heq
      rw [heq] at hc
      cases hc
    · intro heq
      rw [heq] at hc
      cases hc
  intro c hc
  rw [List.mem_append] at hc
  rcases hc with hc | hc
  · cases hsign with
    | minus =>
        rw [List.mem_singleton.1 hc]
        rfl
    | absent => cases hc
  · cases hmantissa with
    | whole _ hwhole => exact hdigit c (hwhole c hc)
    | pointed _ hwhole hfraction =>
        rw [List.mem_append, List.mem_cons] at hc
        rcases hc with hc | hc | hc
        · exact hdigit c (hwhole c hc)
        · rw [hc]
          rfl
        · exact hdigit c (hfraction c hc)
    | bare _ hfraction =>
        rw [List.mem_cons] at hc
        rcases hc with hc | hc
        · rw [hc]
          rfl
        · exact hdigit c (hfraction c hc)

/-- The length of a decimal is the number of its digits before the exponent. -/
theorem Written.length_eq (h : Written d cs) :
    ((cs.takeWhile fun c => c != 'E' && c != 'e').filter Char.isDigit).length =
      d.whole.length + d.fraction.length := by
  cases h with
  | @parts _ _ _ sign _ tail _ hsign hmantissa hexponent =>
      have hstop : tail.takeWhile (fun c => c != 'E' && c != 'e') = [] := by
        cases hexponent with
        | absent => rfl
        | plain hletter | negative hletter =>
            rw [List.takeWhile_cons_of_neg]
            rcases hletter with hletter | hletter <;> simp [hletter]
      have hsign' : sign.filter Char.isDigit = [] := by
        cases hsign <;> rfl
      rw [List.takeWhile_append_of_pos (not_letter hsign hmantissa), hstop, List.append_nil,
        List.filter_append, hsign', hmantissa.filter_isDigit, List.nil_append, List.length_append]

end Decimal

/-! ### Signed words -/

/-- A scale is below the greatest signed word, so a number is within it when the nearest signed word
is. -/
theorem nearestWord_le_iff {n : Int} {scale : Nat} (h : scale < 2 ^ 32) :
    nearestWord n ≤ scale ↔ n ≤ scale := by
  unfold nearestWord leastWord greatestWord
  omega

theorem fitsWord_iff {n : Int} : fitsWord n = true ↔ -2 ^ 63 ≤ n ∧ n ≤ 2 ^ 63 - 1 := by
  unfold fitsWord leastWord greatestWord
  rw [Bool.and_eq_true, decide_eq_true_eq, decide_eq_true_eq]
  omega

theorem checkDecimal_eq_ok_iff {value : String} {scale : Option Nat}
    (hscale : ∀ n, scale = some n → n < 2 ^ 32) :
    checkDecimal value scale = .ok () ↔ ∃ d, Decimal.Written d value.toList ∧
      -2 ^ 63 ≤ d.exponent ∧ d.exponent ≤ 2 ^ 63 - 1 ∧
      ∀ n, scale = some n → (d.fraction.length : Int) - d.exponent ≤ n := by
  simp only [← Decimal.parse?_eq_some_iff]
  unfold checkDecimal
  cases hparse : Decimal.parse? value.toList with
  | none => simp
  | some d =>
      simp only [Option.some.injEq, exists_eq_left']
      by_cases hfits : fitsWord d.exponent = true
      · obtain ⟨hleast, hgreatest⟩ := fitsWord_iff.1 hfits
        rw [if_pos hfits]
        cases scale with
        | none => exact ⟨fun _ => ⟨hleast, hgreatest, nofun⟩, fun _ => rfl⟩
        | some n =>
            have hle : nearestWord d.places ≤ n ↔ d.places ≤ n := nearestWord_le_iff (hscale n rfl)
            by_cases hlt : (n : Int) < nearestWord d.places
            · simp only [if_pos hlt, reduceCtorEq, false_iff]
              intro h
              have hplaces : d.places ≤ n := h.2.2 n rfl
              omega
            · simp only [if_neg hlt, true_iff]
              refine ⟨hleast, hgreatest, ?_⟩
              intro m hm
              cases hm
              exact hle.1 (Int.not_lt.1 hlt)
      · rw [if_neg hfits]
        rw [fitsWord_iff] at hfits
        simp only [reduceCtorEq, false_iff]
        intro h
        exact hfits ⟨h.1, h.2.1⟩

/-- A text is accepted as a decimal exactly when it is written as one, its exponent is a signed
word, and the digits after the point, less the exponent, are not more than the scale. Counting in
signed words changes no verdict. A decimal is written in one way, and its length is the number of
its digits before the exponent. -/
theorem checkDecimal_exact :
    (∀ value scale, (∀ n, scale = some n → n < 2 ^ 32) →
      (checkDecimal value scale = .ok () ↔ ∃ d, Decimal.Written d value.toList ∧
        -2 ^ 63 ≤ d.exponent ∧ d.exponent ≤ 2 ^ 63 - 1 ∧
        ∀ n, scale = some n → (d.fraction.length : Int) - d.exponent ≤ n)) ∧
    (∀ (d : Decimal) (n : Nat), n < 2 ^ 32 → (nearestWord d.places ≤ n ↔ d.places ≤ n)) ∧
    (∀ value d d', Decimal.Written d value → Decimal.Written d' value → d = d') ∧
    ∀ value d, Decimal.Written d value.toList →
      length .decimal value = d.whole.length + d.fraction.length := by
  refine ⟨fun _ _ => checkDecimal_eq_ok_iff, fun _ _ => nearestWord_le_iff, ?_, ?_⟩
  · intro value d d' h h'
    exact h.unique h'
  · intro value d h
    exact h.length_eq

/-- The greatest exponent with zeros in front, the least exponent, with more places than a signed
word counts, and an exponent that is one too great. -/
theorem checkDecimal_exact_words :
    checkDecimal ".5E0009223372036854775807" (some 0) = .ok () ∧
      length .decimal ".5E0009223372036854775807" = 1 ∧
      checkDecimal "-12.E-9223372036854775808" none = .ok () ∧
      checkDecimal "-12.E-9223372036854775808" (some 4294967295) ≠ .ok () ∧
      checkDecimal "1e9223372036854775808" none ≠ .ok () := by
  obtain ⟨hcheck, -, hunique, hlength⟩ := checkDecimal_exact
  have hgreatest : Decimal.Written ⟨false, [], ['5'], 9223372036854775807⟩
      ".5E0009223372036854775807".toList := Decimal.written_of_parse? (by decide)
  have hleast : Decimal.Written ⟨true, ['1', '2'], [], -9223372036854775808⟩
      "-12.E-9223372036854775808".toList := Decimal.written_of_parse? (by decide)
  have hbeyond : Decimal.Written ⟨false, ['1'], [], 9223372036854775808⟩
      "1e9223372036854775808".toList := Decimal.written_of_parse? (by decide)
  refine ⟨?_, hlength _ _ hgreatest, ?_, ?_, ?_⟩
  · refine (hcheck _ (some 0) ?_).2 ⟨_, hgreatest, by decide, by decide, ?_⟩
    · intro n hn
      cases hn
      decide
    · intro n hn
      cases hn
      decide
  · exact (hcheck _ none nofun).2 ⟨_, hleast, by decide, by decide, nofun⟩
  · intro hok
    have hscale : ∀ n, some 4294967295 = some n → n < 2 ^ 32 := by
      intro n hn
      cases hn
      decide
    obtain ⟨d, hd, -, -, hplaces⟩ := (hcheck _ _ hscale).1 hok
    rw [hunique _ _ _ hd hleast] at hplaces
    exact absurd (hplaces _ rfl) (by decide)
  · intro hok
    obtain ⟨d, hd, -, hle, -⟩ := (hcheck _ none nofun).1 hok
    rw [hunique _ _ _ hd hbeyond] at hle
    exact absurd hle (by decide)

end Interchange.Value
