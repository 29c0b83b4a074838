import Interchange.Text.Slice
import Interchange.Value.Decimal

/-!
# Dates and times as text

Dates are written `YYMMDD` or `CCYYMMDD`, times `HHMM` or `HHMMSS`, the latter with one
or two more digits for parts of a second. The calendar is the Gregorian one, extended
backwards to the year 0. A year of two digits lies in this century when it is below 50
and in the last one otherwise.

The fields of a date or a time are cut out of its text at byte offsets. A reading has no
answer where such an offset misses the text (`Text.cut?`), so the digits are asked for
first, which have one byte each.
-/

namespace Interchange.Value

open Text

namespace Calendar

/-- Whether a year has a 29th of February. -/
def isLeapYear (year : Nat) : Bool :=
  year % 4 == 0 && (year % 100 != 0 || year % 400 == 0)

/-- The number of days of a month, 0 for a month that does not exist. -/
def daysIn (year : Nat) : (month : Nat) → Nat
  | 1 | 3 | 5 | 7 | 8 | 10 | 12 => 31
  | 4 | 6 | 9 | 11 => 30
  | 2 => if isLeapYear year then 29 else 28
  | _ => 0

/-- Whether there is such a day. -/
def isDay (year month day : Nat) : Bool := 1 ≤ day && day ≤ daysIn year month

/-- Whether the clock shows such a time. -/
def isClockTime (hour minute second : Nat) : Bool := hour < 24 && minute < 60 && second < 60

/-- The full year of a year written with two digits. -/
def fullYear (year : Nat) : Nat := if year < 50 then 2000 + year else 1900 + year

end Calendar

open Calendar

/-- Reads the month and the day of a year. -/
def readDay (year : Nat) (cs : List Char) : Option Bool := do
  let month ← slice? cs 0 2
  let day ← sliceFrom? cs 2
  return isDay year (ofDigits month) (ofDigits day)

/-- Reads a date and answers whether there is such a day. -/
def readDate (cs : List Char) : Option Bool :=
  if isDigits cs then
    match byteLength cs with
    | 6 => do
        let year ← slice? cs 0 2
        let rest ← sliceFrom? cs 2
        readDay (fullYear (ofDigits year)) rest
    | 8 => do
        let year ← slice? cs 0 4
        let rest ← sliceFrom? cs 4
        readDay (ofDigits year) rest
    | _ => some false
  else some false

/-- Reads a time and answers whether the clock shows it. -/
def readTime (cs : List Char) : Option Bool :=
  if isDigits cs && [4, 6, 7, 8].contains (byteLength cs) then do
    let hour ← slice? cs 0 2
    let minute ← slice? cs 2 4
    let second ← if 6 ≤ byteLength cs then (slice? cs 4 6).map ofDigits else some 0
    return isClockTime (ofDigits hour) (ofDigits minute) second
  else some false

/-- Whether a text is a date. -/
def isDate (cs : List Char) : Bool := readDate cs == some true

/-- Whether a text is a time. -/
def isTime (cs : List Char) : Bool := readTime cs == some true

end Interchange.Value
