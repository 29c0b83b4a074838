/-!
# Structured data

Schema files, configurations and serialized events are trees of lists and records with
scalars at the leaves. `Datum` is that tree, whatever notation it was read from.

Scalars keep what the notation says and no more. A quoted text is a text, and a number
is a number; but an unquoted scalar of a YAML document is only `plain`, because its
meaning depends on what is asked for: `00401` is a fine text and no number. The readers
below ask: each takes a tree and answers `none` when the tree is not of the asked kind.

A record keeps every field in the order written, so that a field given twice can be
noticed where fields are looked up.
-/

namespace Interchange

/-- A tree of structured data. -/
inductive Datum where
  /-- The written absence of a value. -/
  | null
  /-- A truth value. -/
  | bool (value : Bool)
  /-- A number without sign, fraction and exponent. -/
  | natural (value : Nat)
  /-- Any other number, as it was written. -/
  | number (literal : String)
  /-- A quoted text. -/
  | text (value : String)
  /-- An unquoted text, whose meaning depends on what is asked for. -/
  | plain (value : String)
  /-- Well-formed notation that denotes no value, such as half a surrogate pair. -/
  | unreadable
  | list (items : List Datum)
  | record (fields : List (String × Datum))
  deriving Inhabited

namespace Datum

/-! ### Plain scalars -/

/-- The digits of `cs` in a base up to 16, most significant first, after `acc`. -/
def digitsIn (base : Nat) : (acc : Nat) → List Char → Option Nat
  | acc, [] => some acc
  | acc, c :: rest =>
      let digit :=
        if '0' ≤ c ∧ c ≤ '9' then c.toNat - '0'.toNat
        else if 'a' ≤ c ∧ c ≤ 'f' then c.toNat - 'a'.toNat + 10
        else if 'A' ≤ c ∧ c ≤ 'F' then c.toNat - 'A'.toNat + 10
        else base
      if digit < base then digitsIn base (base * acc + digit) rest else none

/-- One or more digits in a base. -/
def digits? (base : Nat) : List Char → Option Nat
  | [] => none
  | cs => digitsIn base 0 cs

/-- The number that a plain scalar without a sign stands for: decimal without superfluous
zeros, or hexadecimal, octal or binary after `0x`, `0o` or `0b`. -/
def unsigned? : List Char → Option Nat
  | '0' :: 'x' :: rest => digits? 16 rest
  | '0' :: 'o' :: rest => digits? 8 rest
  | '0' :: 'b' :: rest => digits? 2 rest
  | ['0'] => some 0
  | '0' :: _ => none
  | cs => digits? 10 cs

/-- The number that a plain scalar stands for where no sign is expected; a plus sign makes
no difference. -/
def plainNatural? (s : String) : Option Nat :=
  match s.toList with
  | '+' :: rest => unsigned? rest
  | cs => unsigned? cs

/-- The truth value that a plain scalar stands for. -/
def plainBool? (s : String) : Option Bool :=
  if s ∈ ["true", "True", "TRUE"] then some true
  else if s ∈ ["false", "False", "FALSE"] then some false
  else none

/-- The plain scalars that stand for the absence of a value. -/
def plainNull (s : String) : Bool := s ∈ ["", "~", "null", "Null", "NULL"]

/-! ### Plain scalars without an expected kind -/

/-- The largest whole number with a meaning: 128 bits, all set. -/
def largestWhole : Nat := 0xFFFFFFFFFFFFFFFFFFFFFFFFFFFFFFFF

/-- The largest magnitude of a negative number: the highest of 128 bits. -/
def largestNegative : Nat := 0x80000000000000000000000000000000

/-- The whole number that a plain scalar stands for, as far as 128 bits reach. -/
def plainWhole? (s : String) : Option Int :=
  match s.toList with
  | '-' :: rest =>
      ((unsigned? rest).filter (· ≤ largestNegative)).map fun n => -(n : Int)
  | _ => ((plainNatural? s).filter (· ≤ largestWhole)).map fun n => (n : Int)

/-- A text without the sign in front of it. -/
def withoutSign : List Char → List Char
  | '+' :: rest | '-' :: rest => rest
  | cs => cs

/-- The magnitude of a decimal number: its digits without superfluous zeros in front, and how
many of them stand before the point. The text has an optional sign, digits with at most one
point among them, and perhaps an exponent. -/
def decimal? (cs : List Char) : Option (List Char × Int) :=
  let unsigned := withoutSign cs
  let whole := unsigned.takeWhile Char.isDigit
  let (fraction, rest) :=
    match unsigned.dropWhile Char.isDigit with
    | '.' :: rest => (rest.takeWhile Char.isDigit, rest.dropWhile Char.isDigit)
    | rest => ([], rest)
  let exponent : Option Int :=
    match rest with
    | [] => some 0
    | 'e' :: '-' :: ds | 'E' :: '-' :: ds => (digits? 10 ds).map fun n => -(n : Int)
    | 'e' :: '+' :: ds | 'E' :: '+' :: ds | 'e' :: ds | 'E' :: ds =>
        (digits? 10 ds).map fun n => (n : Int)
    | _ => none
  if whole.isEmpty && fraction.isEmpty then none
  else
    let digits := (whole ++ fraction).dropWhile (· == '0')
    exponent.map fun exponent => (digits, digits.length - fraction.length + exponent)

/-- The least number that is rounded to infinity in 64 bits: halfway between the largest
double and the next power of two. It has 309 digits. -/
def overflow : Nat := (Nat.pow 2 54 - 1) * Nat.pow 2 970

/-- Whether a magnitude is below `overflow`. With as many digits before the point these decide,
since `overflow` is a whole number. -/
def isFinite (digits : List Char) (before : Int) : Bool :=
  let whole := (digits ++ List.replicate 309 '0').take 309
  digits.isEmpty || before < 309 ||
    (before == 309 && (digits? 10 whole).any (· < overflow))

/-- Whether a text has a superfluous zero in front, so that it is not meant as a number. -/
def hasLeadingZero (cs : List Char) : Bool :=
  match withoutSign cs with
  | '0' :: c :: rest => (c :: rest).all Char.isDigit
  | _ => false

/-- Whether a plain scalar stands for a number that a double can hold. -/
def plainReal (s : String) : Bool :=
  (!hasLeadingZero s.toList &&
      (decimal? s.toList).any fun (digits, before) => isFinite digits before) ||
    s ∈ [".inf", ".Inf", ".INF", "+.inf", "+.Inf", "+.INF", "-.inf", "-.Inf", "-.INF",
      ".nan", ".NaN", ".NAN"]

/-- What a plain scalar stands for where values of every kind may stand. -/
inductive Meaning where
  | null
  | bool (value : Bool)
  | whole (value : Int)
  /-- Any other number. -/
  | real
  | text (value : String)
  deriving DecidableEq, Repr

/-- The meaning of a plain scalar: a text, if it is nothing else. -/
def plainMeaning (s : String) : Meaning :=
  if plainNull s then .null
  else
    match plainBool? s, plainWhole? s with
    | some b, _ => .bool b
    | none, some n => .whole n
    | none, none => if plainReal s then .real else .text s

/-! ### Readers -/

/-- The largest number that an index, a count or a length may be: 64 bits, all set. -/
def largestCount : Nat := 0xFFFFFFFFFFFFFFFF

/-- A tree that stands for no value, where a value may be left out. -/
def isNull : Datum → Bool
  | null => true
  | plain s => plainNull s
  | _ => false

/-- A text; a plain scalar is read as it stands, whatever else it may look like. -/
def text? : Datum → Option String
  | text s | plain s => some s
  | _ => none

/-- A number from 0 to `limit`. -/
def natural? (limit : Nat) (d : Datum) : Option Nat :=
  let value :=
    match d with
    | natural n => some n
    | plain s => plainNatural? s
    | _ => none
  value.filter (· ≤ limit)

/-- An index, a count or a length. -/
def count? (d : Datum) : Option Nat := d.natural? largestCount

/-- A count in a place where a text would do as well. There a plain scalar keeps its sign, so
that zero may have any. -/
def countOrWord? : Datum → Option (Nat ⊕ String)
  | text s => some (.inr s)
  | plain s =>
      match plainMeaning s with
      | .whole n => if 0 ≤ n ∧ n ≤ largestCount then some (.inl n.toNat) else none
      | .text s => some (.inr s)
      | _ => none
  | d => d.count?.map .inl

/-- A truth value. -/
def bool? : Datum → Option Bool
  | bool b => some b
  | plain s => plainBool? s
  | _ => none

/-- A list of trees; a plain scalar left empty is the empty list. -/
def list? : Datum → Option (List Datum)
  | list items => some items
  | plain "" => some []
  | _ => none

/-- A list whose items are all read by `item`. -/
def listOf? {α : Type} (item : Datum → Option α) (d : Datum) : Option (List α) :=
  d.list?.bind (·.mapM item)

/-- The fields of a record; a plain scalar left empty is the record without fields. -/
def record? : Datum → Option (List (String × Datum))
  | record fields => some fields
  | plain "" => some []
  | _ => none

/-- A value that may be null. -/
def optional? {α : Type} (value : Datum → Option α) (d : Datum) : Option (Option α) :=
  if d.isNull then some none else (value d).map some

/-- The name of an alternative without data: a text, or a record that gives null to it. -/
def alternative? : Datum → Option String
  | text s | plain s => some s
  | record [(name, null)] => some name
  | _ => none

/-! ### Fields of records -/

/-- The trees that a record gives to one field. -/
def valuesOf (fields : List (String × Datum)) (name : String) : List Datum :=
  (fields.filter (·.1 == name)).map (·.2)

/-- A field that has to be there, once. -/
def field? {α : Type} (fields : List (String × Datum)) (name : String)
    (value : Datum → Option α) : Option α :=
  match valuesOf fields name with
  | [d] => value d
  | _ => none

/-- A field that stands at most once and has a default. -/
def fieldOr? {α : Type} (fields : List (String × Datum)) (name : String)
    (value : Datum → Option α) (default : α) : Option α :=
  match valuesOf fields name with
  | [] => some default
  | [d] => value d
  | _ => none

/-- A field that stands at most once and may be null. -/
def optionalField? {α : Type} (fields : List (String × Datum)) (name : String)
    (value : Datum → Option α) : Option (Option α) :=
  fieldOr? fields name (optional? value) none

end Datum

end Interchange
