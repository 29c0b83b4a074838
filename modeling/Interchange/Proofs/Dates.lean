import Mathlib
import Interchange.Value.Rule

/-!
# Dates and times as text

`DateText` and `TimeText` say how dates and times are written, as rows of digits one behind the
other. A reader cuts the same rows out of the text at byte offsets. It asks first whether the text
consists of digits, each of which has one byte, so that every offset lies between two characters
(`Row.byteLength`), and then for the length, so that no offset lies beyond the end. So a text is
either one of these forms, and is cut into its rows (`readDate_of_text`, `readTime_of_text`), or it
is refused before a cut is made (`readDate_cases`, `readTime_cases`). `Reads` puts the two together,
and the verdict of `calendar_exact` is read off it.

The days that are accepted are those of the calendar of the standard library, which is the Gregorian
one without a beginning (`isDay_iff_date`).
-/

namespace Interchange.Value

open Text Calendar
open Std.Time (PlainDate)

variable {cs ds : List Char} {n year month day hour minute second : Nat}

/-! ### Written forms -/

/-- A row of so many digits. -/
structure Row (n : Nat) (ds : List Char) : Prop where
  length : ds.length = n
  digits : ∀ d ∈ ds, d.isDigit = true

/-- A text and the date it states. A year of two digits is one of this century below 50. -/
inductive DateText : List Char → (year month day : Nat) → Prop
  | full {y m d : List Char} (hy : Row 4 y) (hm : Row 2 m) (hd : Row 2 d) :
      DateText (y ++ (m ++ d)) (ofDigits y) (ofDigits m) (ofDigits d)
  | recent {y m d : List Char} (hy : Row 2 y) (hm : Row 2 m) (hd : Row 2 d)
      (hlt : ofDigits y < 50) :
      DateText (y ++ (m ++ d)) (2000 + ofDigits y) (ofDigits m) (ofDigits d)
  | past {y m d : List Char} (hy : Row 2 y) (hm : Row 2 m) (hd : Row 2 d)
      (hle : 50 ≤ ofDigits y) :
      DateText (y ++ (m ++ d)) (1900 + ofDigits y) (ofDigits m) (ofDigits d)

/-- A text and the time it states. Up to two digits for parts of the second do not count. -/
inductive TimeText : List Char → (hour minute second : Nat) → Prop
  | minutes {h m : List Char} (hh : Row 2 h) (hm : Row 2 m) :
      TimeText (h ++ m) (ofDigits h) (ofDigits m) 0
  | seconds {p : Nat} {h m s parts : List Char} (hh : Row 2 h) (hm : Row 2 m) (hs : Row 2 s)
      (hparts : Row p parts) (hp : p ≤ 2) :
      TimeText (h ++ m ++ s ++ parts) (ofDigits h) (ofDigits m) (ofDigits s)

/-! ### Rows of digits -/

/-- A digit has one byte. -/
theorem utf8Size_of_isDigit {d : Char} (h : d.isDigit = true) : d.utf8Size = 1 := by
  rw [Char.isDigit, Bool.and_eq_true, decide_eq_true_eq, decide_eq_true_eq] at h
  rw [Char.utf8Size_eq_one_iff]
  exact UInt32.le_trans h.2 (by decide)

theorem byteLength_of_digits (h : ∀ d ∈ ds, d.isDigit = true) : byteLength ds = ds.length := by
  induction ds with
  | nil => rfl
  | cons d ds ih =>
      simp only [List.mem_cons, forall_eq_or_imp] at h
      rw [byteLength_cons, utf8Size_of_isDigit h.1, ih h.2, List.length_cons, Nat.add_comm]

namespace Row

variable {a b : Nat} {front rest : List Char}

theorem append (hfront : Row a front) (hrest : Row b rest) : Row (a + b) (front ++ rest) where
  length := by rw [List.length_append, hfront.length, hrest.length]
  digits := by
    intro d hd
    rcases List.mem_append.1 hd with hd | hd
    · exact hfront.digits d hd
    · exact hrest.digits d hd

/-- A row can be taken apart anywhere. -/
theorem split (a b : Nat) (h : Row (a + b) cs) :
    ∃ front rest, cs = front ++ rest ∧ Row a front ∧ Row b rest := by
  refine ⟨cs.take a, cs.drop a, (List.take_append_drop a cs).symm, ⟨?_, ?_⟩, ⟨?_, ?_⟩⟩
  · rw [List.length_take, h.length]
    omega
  · intro d hd
    exact h.digits d (List.mem_of_mem_take hd)
  · rw [List.length_drop, h.length]
    omega
  · intro d hd
    exact h.digits d (List.mem_of_mem_drop hd)

theorem byteLength (h : Row n ds) : Text.byteLength ds = n := by
  rw [byteLength_of_digits h.digits, h.length]

theorem isDigits (h : Row n ds) (hn : 0 < n) : Value.isDigits ds = true := by
  rw [isDigits_iff]
  refine ⟨?_, h.digits⟩
  rw [← List.length_pos_iff, h.length]
  exact hn

/-- The first row of a text ends at its own length. -/
theorem slice? (h : Row n ds) (rest : List Char) : Text.slice? (ds ++ rest) 0 n = some ds := by
  have hslice := slice?_append [] ds rest
  rwa [List.nil_append, h.byteLength] at hslice

/-- The rows behind the first one begin there. -/
theorem sliceFrom? (h : Row n ds) (rest : List Char) :
    Text.sliceFrom? (ds ++ rest) n = some rest := by
  have hslice := sliceFrom?_append ds rest
  rwa [h.byteLength] at hslice

/-- A row behind another one lies between two offsets. -/
theorem slice?_behind (hfront : Row a front) (h : Row b ds) (rest : List Char) :
    Text.slice? (front ++ ds ++ rest) a (a + b) = some ds := by
  have hslice := slice?_append front ds rest
  rwa [(hfront.append h).byteLength, hfront.byteLength] at hslice

end Row

/-- Digits are a row of as many digits as they have bytes. -/
theorem row_of_isDigits (h : isDigits cs = true) : Row (byteLength cs) cs := by
  have hrow : Row cs.length cs := ⟨rfl, (isDigits_iff.1 h).2⟩
  rwa [hrow.byteLength]

/-! ### Dates -/

theorem DateText.short {y m d : List Char} (hy : Row 2 y) (hm : Row 2 m) (hd : Row 2 d) :
    DateText (y ++ (m ++ d)) (fullYear (ofDigits y)) (ofDigits m) (ofDigits d) := by
  unfold fullYear
  split
  · rename_i hlt
    exact .recent hy hm hd hlt
  · rename_i hle
    exact .past hy hm hd (Nat.not_lt.1 hle)

theorem readDay_of_row {m : List Char} (hm : Row 2 m) (d : List Char) :
    readDay year (m ++ d) = some (isDay year (ofDigits m) (ofDigits d)) := by
  rw [readDay, hm.slice?, hm.sliceFrom?]
  rfl

theorem readDate_of_short {y m d : List Char} (hy : Row 2 y) (hm : Row 2 m) (hd : Row 2 d) :
    readDate (y ++ (m ++ d)) =
      some (isDay (fullYear (ofDigits y)) (ofDigits m) (ofDigits d)) := by
  have hrow := hy.append (hm.append hd)
  rw [readDate, if_pos (hrow.isDigits (by decide)), hrow.byteLength, hy.slice?, hy.sliceFrom?]
  exact readDay_of_row hm _

/-- A written date is read as the day it states. -/
theorem readDate_of_text (h : DateText cs year month day) :
    readDate cs = some (isDay year month day) := by
  cases h with
  | full hy hm hd =>
      have hrow := hy.append (hm.append hd)
      rw [readDate, if_pos (hrow.isDigits (by decide)), hrow.byteLength, hy.slice?, hy.sliceFrom?]
      exact readDay_of_row hm _
  | recent hy hm hd hlt =>
      rw [readDate_of_short hy hm hd, fullYear, if_pos hlt]
  | past hy hm hd hle =>
      rw [readDate_of_short hy hm hd, fullYear, if_neg (Nat.not_lt.2 hle)]

/-- What is not written as a date is refused. -/
theorem readDate_cases (cs : List Char) :
    (∃ year month day, DateText cs year month day) ∨ readDate cs = some false := by
  unfold readDate
  by_cases hdigits : isDigits cs = true
  · have hrow := row_of_isDigits hdigits
    rw [if_pos hdigits]
    split
    · rename_i hlength
      rw [hlength] at hrow
      obtain ⟨y, rest, rfl, hy, hrest⟩ := hrow.split 2 4
      obtain ⟨m, d, rfl, hm, hd⟩ := hrest.split 2 2
      exact .inl ⟨_, _, _, .short hy hm hd⟩
    · rename_i hlength
      rw [hlength] at hrow
      obtain ⟨y, rest, rfl, hy, hrest⟩ := hrow.split 4 4
      obtain ⟨m, d, rfl, hm, hd⟩ := hrest.split 2 2
      exact .inl ⟨_, _, _, .full hy hm hd⟩
    · exact .inr rfl
  · right
    rw [if_neg hdigits]

/-! ### Times -/

/-- A written time is read as the time it states. -/
theorem readTime_of_text (h : TimeText cs hour minute second) :
    readTime cs = some (isClockTime hour minute second) := by
  cases h with
  | @minutes h m hh hm =>
      have hrow := hh.append hm
      have hminute := hh.slice?_behind hm []
      rw [List.append_nil] at hminute
      rw [readTime, hrow.isDigits (by decide), hrow.byteLength, hh.slice?, hminute]
      rfl
  | @seconds p h m s parts hh hm hs hparts hp =>
      have hrow := ((hh.append hm).append hs).append hparts
      have hlength : [4, 6, 7, 8].contains (2 + 2 + 2 + p) = true := by
        interval_cases p <;> rfl
      have hhour := hh.slice? (m ++ (s ++ parts))
      have hminute := hh.slice?_behind hm (s ++ parts)
      have hsecond := (hh.append hm).slice?_behind hs parts
      rw [← List.append_assoc, ← List.append_assoc] at hhour
      rw [← List.append_assoc] at hminute
      have hsix : 6 ≤ 2 + 2 + 2 + p := Nat.le_add_right 6 p
      rw [readTime, hrow.isDigits (by omega), hrow.byteLength, hlength, hhour, hminute, hsecond]
      simp [hsix]

theorem readTime_cases (cs : List Char) :
    (∃ hour minute second, TimeText cs hour minute second) ∨ readTime cs = some false := by
  unfold readTime
  by_cases hform : (isDigits cs && [4, 6, 7, 8].contains (byteLength cs)) = true
  · left
    rw [Bool.and_eq_true] at hform
    have hrow := row_of_isDigits hform.1
    have hlength : byteLength cs = 2 + 2 ∨ ∃ p, byteLength cs = 2 + 2 + 2 + p ∧ p ≤ 2 := by
      have hmem : byteLength cs ∈ [4, 6, 7, 8] := List.contains_iff_mem.1 hform.2
      simp only [List.mem_cons, List.not_mem_nil, or_false] at hmem
      rcases hmem with hfour | hmore
      · exact .inl hfour
      · exact .inr ⟨byteLength cs - 6, by omega, by omega⟩
    rcases hlength with hlength | ⟨p, hlength, hp⟩
    · rw [hlength] at hrow
      obtain ⟨h, m, rfl, hh, hm⟩ := hrow.split 2 2
      exact ⟨_, _, _, .minutes hh hm⟩
    · rw [hlength] at hrow
      obtain ⟨rest, parts, rfl, hrest, hparts⟩ := hrow.split (2 + 2 + 2) p
      obtain ⟨rest, s, rfl, hrest, hs⟩ := hrest.split (2 + 2) 2
      obtain ⟨h, m, rfl, hh, hm⟩ := hrest.split 2 2
      exact ⟨_, _, _, .seconds hh hm hs hparts hp⟩
  · right
    rw [if_neg hform]

/-! ### The calendar -/

theorem daysIn_le (year month : Nat) : daysIn year month ≤ 31 := by
  fun_cases daysIn year month
  all_goals decide

theorem daysIn_eq_zero (h : month = 0 ∨ 12 < month) : daysIn year month = 0 := by
  unfold daysIn
  split <;> omega

theorem isDay_iff : isDay year month day = true ↔
    1 ≤ month ∧ month ≤ 12 ∧ 1 ≤ day ∧ day ≤ daysIn year month := by
  have hzero := @daysIn_eq_zero year month
  rw [isDay, Bool.and_eq_true, decide_eq_true_eq, decide_eq_true_eq]
  omega

theorem isLeap_eq (year : Nat) : Std.Time.Year.Offset.isLeap (year : Int) = isLeapYear year := by
  have hmod (n : Nat) : (year : Int).tmod n = 0 ↔ year % n = 0 := by
    rw [Int.tmod_eq_emod_of_nonneg (Int.natCast_nonneg year), ← Int.natCast_mod,
      Int.natCast_eq_zero]
  have hleap : Std.Time.Year.Offset.isLeap (year : Int) = true ↔
      year % 4 = 0 ∧ (year % 100 ≠ 0 ∨ year % 400 = 0) := by
    rw [← hmod 4, ne_eq, ← hmod 100, ← hmod 400]
    exact decide_eq_true_iff
  rw [Bool.eq_iff_iff, hleap]
  simp [isLeapYear]

theorem days_eq (year : Nat) (month : Std.Time.Month.Ordinal) :
    (month.days (isLeapYear year)).val = daysIn year month.val.toNat := by
  obtain ⟨month, hleast, hgreatest⟩ := month
  unfold daysIn
  interval_cases month <;> cases isLeapYear year <;> rfl

theorem valid_iff {m : Std.Time.Month.Ordinal} {d : Std.Time.Day.Ordinal} :
    Std.Time.Year.Offset.Valid (year : Int) m d ↔ d.val ≤ daysIn year m.val.toNat := by
  rw [← days_eq, ← isLeap_eq]
  rfl

/-- The days that are accepted are the days of the calendar. -/
theorem isDay_iff_date : isDay year month day = true ↔
    ∃ date : PlainDate, date.year = (year : Int) ∧ date.month.val = month ∧ date.day.val = day := by
  rw [isDay_iff]
  constructor
  · intro ⟨hleast, hgreatest, hone, hday⟩
    -- the ordinals of the library are bounded by 12 and by 31, whatever the month is
    have hle := daysIn_le year month
    obtain ⟨m, hm⟩ : ∃ m : Std.Time.Month.Ordinal, m.val = month :=
      ⟨⟨month, by omega, by omega⟩, rfl⟩
    obtain ⟨d, hd⟩ : ∃ d : Std.Time.Day.Ordinal, d.val = day := ⟨⟨day, by omega, by omega⟩, rfl⟩
    refine ⟨⟨(year : Int), m, d, valid_iff.2 ?_⟩, rfl, hm, hd⟩
    rw [hm, hd]
    exact Int.ofNat_le.2 hday
  · intro ⟨⟨y, m, d, hvalid⟩, hy, hm, hd⟩
    cases hy
    have hmonth := m.property
    have hday := d.property
    have hle := valid_iff.1 hvalid
    simp only at hm hd
    rw [hm, hd, Int.toNat_natCast] at hle
    omega

/-! ### Acceptance -/

/-- A reading answers with the verdict on what the text states, and refuses a text that states
nothing. -/
structure Reads (States : Nat → Nat → Nat → Prop) (verdict : Nat → Nat → Nat → Bool)
    (reading : Option Bool) : Prop where
  of_text : ∀ {a b c}, States a b c → reading = some (verdict a b c)
  cases : (∃ a b c, States a b c) ∨ reading = some false

namespace Reads

variable {States : Nat → Nat → Nat → Prop} {verdict : Nat → Nat → Nat → Bool}
  {reading : Option Bool}

theorem eq_some_true_iff (h : Reads States verdict reading) :
    reading = some true ↔ ∃ a b c, States a b c ∧ verdict a b c = true := by
  constructor
  · intro hread
    rcases h.cases with ⟨a, b, c, hstates⟩ | hfalse
    · rw [h.of_text hstates, Option.some.injEq] at hread
      exact ⟨a, b, c, hstates, hread⟩
    · rw [hfalse] at hread
      cases hread
  · intro ⟨a, b, c, hstates, hverdict⟩
    rw [h.of_text hstates, hverdict]

/-- No offset at which a reading cuts lies beyond the end of the text or inside a character. -/
theorem ne_none (h : Reads States verdict reading) : reading ≠ none := by
  rcases h.cases with ⟨a, b, c, hstates⟩ | hfalse
  · rw [h.of_text hstates]
    nofun
  · rw [hfalse]
    nofun

end Reads

theorem reads_date (cs : List Char) : Reads (DateText cs) isDay (readDate cs) :=
  ⟨readDate_of_text, readDate_cases cs⟩

theorem reads_time (cs : List Char) : Reads (TimeText cs) isClockTime (readTime cs) :=
  ⟨readTime_of_text, readTime_cases cs⟩

theorem checkDate_eq_ok_iff {value : String} :
    checkDate value = .ok () ↔ readDate value.toList = some true := by
  simp [checkDate, isDate]

theorem checkTime_eq_ok_iff {value : String} :
    checkTime value = .ok () ↔ readTime value.toList = some true := by
  simp [checkTime, isTime]

/-- The clock shows each hour below 24, and each minute and each second below 60. -/
theorem isClockTime_iff : isClockTime hour minute second = true ↔
    hour ≤ 23 ∧ minute ≤ 59 ∧ second ≤ 59 := by
  simp only [isClockTime, Bool.and_eq_true, decide_eq_true_eq]
  omega

/-- A text is accepted as a date exactly when it is written as one and its month has that day, which
is so for the days of the Gregorian calendar and for no others. It is accepted as a time exactly
when it is written as one and the clock shows it. Whatever the text is, no cut misses it. -/
theorem calendar_exact :
    (∀ value, checkDate value = .ok () ↔ ∃ year month day,
      DateText value.toList year month day ∧
        1 ≤ month ∧ month ≤ 12 ∧ 1 ≤ day ∧ day ≤ daysIn year month) ∧
    (∀ year month day, (1 ≤ month ∧ month ≤ 12 ∧ 1 ≤ day ∧ day ≤ daysIn year month) ↔
      ∃ date : PlainDate,
        date.year = (year : Int) ∧ date.month.val = month ∧ date.day.val = day) ∧
    (∀ value, checkTime value = .ok () ↔ ∃ hour minute second,
      TimeText value.toList hour minute second ∧ hour ≤ 23 ∧ minute ≤ 59 ∧ second ≤ 59) ∧
    ∀ value : String, readDate value.toList ≠ none ∧ readTime value.toList ≠ none := by
  simp only [← isDay_iff, ← isClockTime_iff]
  refine ⟨?_, ?_, ?_, ?_⟩
  · intro value
    rw [checkDate_eq_ok_iff]
    exact (reads_date value.toList).eq_some_true_iff
  · intro year month day
    exact isDay_iff_date
  · intro value
    rw [checkTime_eq_ok_iff]
    exact (reads_time value.toList).eq_some_true_iff
  · intro value
    exact ⟨(reads_date value.toList).ne_none, (reads_time value.toList).ne_none⟩

example : checkDate "00000229" = .ok () ∧ checkDate "19000229" = .error .notDate ∧
    checkDate "000229" = .ok () ∧ checkTime "2359599" = .ok () := by decide

end Interchange.Value
