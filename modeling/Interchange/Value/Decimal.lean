/-!
# Numbers as text

The written forms of integers and decimals. An integer is a row of digits, a minus sign
before it if it is negative. A decimal may also have a point, with digits on at least one
side of it, and a decimal exponent. `Decimal.parse?` takes a decimal apart; `places` is
the number of decimal places that are left when the exponent has been applied.
-/

namespace Interchange.Value

/-- The digits in front of a text and what comes after them. -/
def spanDigits (cs : List Char) : List Char × List Char :=
  (cs.takeWhile Char.isDigit, cs.dropWhile Char.isDigit)

/-- A text without the minus sign in front of it, and whether there was one. -/
def stripMinus : List Char → Bool × List Char
  | '-' :: rest => (true, rest)
  | cs => (false, cs)

/-- The number that a row of digits denotes. -/
def ofDigits (ds : List Char) : Nat :=
  ds.foldl (fun n d => 10 * n + (d.toNat - '0'.toNat)) 0

/-- Whether a text is one or more digits. -/
def isDigits (cs : List Char) : Bool := !cs.isEmpty && cs.all Char.isDigit

theorem isDigits_iff {cs : List Char} :
    isDigits cs = true ↔ cs ≠ [] ∧ ∀ c ∈ cs, c.isDigit = true := by
  simp [isDigits]

/-- Whether a text is an integer. -/
def isInteger (cs : List Char) : Bool := isDigits (stripMinus cs).2

/-- A decimal, taken apart. -/
structure Decimal where
  negative : Bool
  /-- The digits before the point. -/
  whole : List Char
  /-- The digits after the point, if there is one. -/
  fraction : List Char
  /-- The exponent, 0 when there is none. -/
  exponent : Int
  deriving DecidableEq, Repr

namespace Decimal

/-- An exponent that takes up a whole text: a letter, an optional minus sign, digits. A
text without an exponent is empty. -/
def exponent? : List Char → Option Int
  | [] => some 0
  | letter :: rest =>
      let (negative, digits) := stripMinus rest
      if (letter = 'E' ∨ letter = 'e') ∧ isDigits digits then
        some (if negative then -(ofDigits digits : Int) else ofDigits digits)
      else none

/-- The parts of a decimal that takes up a whole text. -/
def parse? (cs : List Char) : Option Decimal :=
  let (negative, rest) := stripMinus cs
  let (whole, rest) := spanDigits rest
  match rest with
  | '.' :: rest =>
      let (fraction, rest) := spanDigits rest
      if whole.isEmpty && fraction.isEmpty then none
      else (exponent? rest).map (⟨negative, whole, fraction, ·⟩)
  | rest =>
      if whole.isEmpty then none
      else (exponent? rest).map (⟨negative, whole, [], ·⟩)

/-- The number of decimal places with the exponent applied; it is negative for a decimal
that ends in so many zeros. -/
def places (d : Decimal) : Int := (d.fraction.length : Int) - d.exponent

end Decimal

/-! ### Signed words

Exponents and decimal places are stated as signed words of 64 bits: an exponent that does
not fit is no exponent, and a number of places that does not fit is stated as the nearest
one that does. -/

/-- The least signed word. -/
def leastWord : Int := -0x8000000000000000

/-- The greatest signed word. -/
def greatestWord : Int := 0x7FFFFFFFFFFFFFFF

/-- Whether a number is a signed word. -/
def fitsWord (n : Int) : Bool := leastWord ≤ n && n ≤ greatestWord

/-- The signed word nearest to a number. -/
def nearestWord (n : Int) : Int := max leastWord (min greatestWord n)

end Interchange.Value
