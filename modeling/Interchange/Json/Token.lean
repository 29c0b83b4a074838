import Interchange.Datum

/-!
# Tokens of JSON text

The lexical half of reading JSON: punctuation, the three words, numbers and strings.
A scalar token already carries its value. A string whose escapes leave half a surrogate
pair is still a token, but one without a text, so that it can be skipped where nobody
asks for it.
-/

namespace Interchange.Json

/-- A token of JSON text. -/
inductive Token where
  | openList
  | closeList
  | openRecord
  | closeRecord
  | comma
  | colon
  /-- A scalar, whole. -/
  | scalar (value : Datum)

namespace Token

/-! ### Strings -/

/-- The value of four hexadecimal digits. -/
def hexQuad? (a b c d : Char) : Option Nat := Datum.digits? 16 [a, b, c, d]

/-- The character after a backslash, for the one-letter escapes. -/
def escaped? : Char → Option Char
  | '"' => some '"'
  | '\\' => some '\\'
  | '/' => some '/'
  | 'b' => some '\x08'
  | 'f' => some '\x0c'
  | 'n' => some '\n'
  | 'r' => some '\r'
  | 't' => some '\t'
  | _ => none

/-- Whether a number is the first or the second half of a surrogate pair. -/
def isHighHalf (n : Nat) : Bool := 0xD800 ≤ n && n < 0xDC00

@[inherit_doc isHighHalf]
def isLowHalf (n : Nat) : Bool := 0xDC00 ≤ n && n < 0xE000

/-- One unit of a string: a character, or half a surrogate pair. -/
abbrev Unit16 := Char ⊕ Nat

/-- The units up to the closing quote and the text after it. -/
def units? : List Char → Option (List Unit16 × List Char)
  | [] => none
  | '"' :: rest => some ([], rest)
  | '\\' :: 'u' :: a :: b :: c :: d :: rest => do
      let n ← hexQuad? a b c d
      let (units, rest) ← units? rest
      let unit := if isHighHalf n || isLowHalf n then .inr n else .inl (Char.ofNat n)
      some (unit :: units, rest)
  | '\\' :: c :: rest => do
      let c ← escaped? c
      let (units, rest) ← units? rest
      some (.inl c :: units, rest)
  | c :: rest =>
      if c.toNat < 0x20 then none
      else do
        let (units, rest) ← units? rest
        some (.inl c :: units, rest)

/-- The text of a string: every first half has to be followed by a second half, and no
second half may stand alone. -/
def textOfUnits? : List Unit16 → Option (List Char)
  | [] => some []
  | .inl c :: rest => (textOfUnits? rest).map (c :: ·)
  | .inr high :: .inr low :: rest =>
      if isHighHalf high && isLowHalf low then
        (textOfUnits? rest).map
          (Char.ofNat (0x10000 + (high - 0xD800) * 0x400 + (low - 0xDC00)) :: ·)
      else none
  | .inr _ :: _ => none

/-! ### Numbers -/

/-- The digits in front of `cs` and what comes after them. -/
def spanDigits (cs : List Char) : List Char × List Char :=
  (cs.takeWhile Char.isDigit, cs.dropWhile Char.isDigit)

/-- The sign in front of `cs`, if it is one of `signs`, and what comes after it. -/
def spanSign (signs : List Char) : List Char → List Char × List Char
  | [] => ([], [])
  | c :: rest => if signs.contains c then ([c], rest) else ([], c :: rest)

/-- A fraction in front of `cs`, if there is one; a point needs a digit. -/
def fraction? : List Char → Option (List Char × List Char)
  | '.' :: rest =>
      let (digits, rest) := spanDigits rest
      if digits.isEmpty then none else some ('.' :: digits, rest)
  | cs => some ([], cs)

/-- An exponent in front of `cs`, if there is one; the letter needs a digit. -/
def exponent? : List Char → Option (List Char × List Char)
  | c :: rest =>
      if c = 'e' ∨ c = 'E' then
        let (sign, rest) := spanSign ['+', '-'] rest
        let (digits, rest) := spanDigits rest
        if digits.isEmpty then none else some (c :: sign ++ digits, rest)
      else some ([], c :: rest)
  | [] => some ([], [])

/-- The whole part in front of `cs`: a zero, or digits that do not start with one. -/
def whole? (cs : List Char) : Option (List Char × List Char) :=
  match cs with
  | '0' :: rest => some (['0'], rest)
  | _ =>
      let (digits, rest) := spanDigits cs
      if digits.isEmpty then none else some (digits, rest)

/-- The number in front of `cs`. -/
def number? (cs : List Char) : Option (Datum × List Char) := do
  let (sign, rest) := spanSign ['-'] cs
  let (whole, rest) ← whole? rest
  let (fraction, rest) ← fraction? rest
  let (exponent, rest) ← exponent? rest
  if sign.isEmpty && fraction.isEmpty && exponent.isEmpty then
    some (.natural (← Datum.digits? 10 whole), rest)
  else
    some (.number (String.ofList (sign ++ whole ++ fraction ++ exponent)), rest)

/-! ### Text -/

/-- The blanks that may stand between tokens. -/
def isBlank (c : Char) : Bool := c == ' ' || c == '\n' || c == '\t' || c == '\r'

/-- The token in front of `cs`, which starts with no blank. -/
def next? : List Char → Option (Token × List Char)
  | '[' :: rest => some (openList, rest)
  | ']' :: rest => some (closeList, rest)
  | '{' :: rest => some (openRecord, rest)
  | '}' :: rest => some (closeRecord, rest)
  | ',' :: rest => some (comma, rest)
  | ':' :: rest => some (colon, rest)
  | '"' :: rest => do
      let (units, rest) ← units? rest
      match textOfUnits? units with
      | some cs => some (scalar (.text (String.ofList cs)), rest)
      | none => some (scalar .unreadable, rest)
  | 'n' :: 'u' :: 'l' :: 'l' :: rest => some (scalar .null, rest)
  | 't' :: 'r' :: 'u' :: 'e' :: rest => some (scalar (.bool true), rest)
  | 'f' :: 'a' :: 'l' :: 's' :: 'e' :: rest => some (scalar (.bool false), rest)
  | cs => (number? cs).map fun (value, rest) => (scalar value, rest)

/-! ### Progress -/

theorem length_of_units? {cs rest : List Char} {us : List Unit16}
    (h : units? cs = some (us, rest)) : rest.length < cs.length := by
  fun_induction units? cs generalizing us rest <;>
    simp_all [Option.bind_eq_some_iff] <;> grind

theorem length_of_spanDigits (cs : List Char) :
    (spanDigits cs).1.length + (spanDigits cs).2.length = cs.length := by
  rw [← List.length_append]
  simp [spanDigits]

theorem length_of_spanSign (signs cs : List Char) :
    (spanSign signs cs).2.length ≤ cs.length := by
  cases cs with
  | nil => simp [spanSign]
  | cons c rest => grind [spanSign]

theorem length_of_whole? {cs digits rest : List Char} (h : whole? cs = some (digits, rest)) :
    rest.length < cs.length := by
  unfold whole? at h
  split at h
  · simp_all
  · have := length_of_spanDigits cs
    grind [List.isEmpty_iff_length_eq_zero]

theorem length_of_fraction? {cs digits rest : List Char}
    (h : fraction? cs = some (digits, rest)) : rest.length ≤ cs.length := by
  unfold fraction? at h
  split at h
  · rename_i tail
    have := length_of_spanDigits tail
    grind
  · simp_all

theorem length_of_exponent? {cs digits rest : List Char}
    (h : exponent? cs = some (digits, rest)) : rest.length ≤ cs.length := by
  unfold exponent? at h
  split at h
  · rename_i tail
    have := length_of_spanSign ['+', '-'] tail
    have := length_of_spanDigits (spanSign ['+', '-'] tail).2
    grind
  · simp_all

theorem length_of_number? {cs rest : List Char} {d : Datum}
    (h : number? cs = some (d, rest)) : rest.length < cs.length := by
  unfold number? at h
  simp only [Option.bind_eq_bind, Option.bind_eq_some_iff] at h
  obtain ⟨_, hw, _, hf, _, he, h⟩ := h
  have := length_of_spanSign ['-'] cs
  have := length_of_whole? hw
  have := length_of_fraction? hf
  have := length_of_exponent? he
  split at h
  · obtain ⟨_, _, h⟩ := Option.bind_eq_some_iff.1 h
    grind
  · grind

theorem length_of_next? {cs rest : List Char} {t : Token}
    (h : next? cs = some (t, rest)) : rest.length < cs.length := by
  unfold next? at h
  split at h
  case h_7 =>
    simp only [Option.bind_eq_bind, Option.bind_eq_some_iff] at h
    obtain ⟨_, hu, h⟩ := h
    have := length_of_units? hu
    grind
  case h_11 =>
    obtain ⟨_, hn, h⟩ := Option.map_eq_some_iff.1 h
    have := length_of_number? hn
    simp_all
  all_goals simp_all <;> grind

theorem length_of_next?_dropWhile {cs rest : List Char} {t : Token}
    (h : next? (cs.dropWhile isBlank) = some (t, rest)) : rest.length < cs.length :=
  Nat.lt_of_lt_of_le (length_of_next? h) (List.dropWhile_sublist isBlank).length_le

/-- The tokens of a whole text. A token is never empty, so what is left gets shorter. -/
def all? (cs : List Char) : Option (List Token) :=
  if (cs.dropWhile isBlank).isEmpty then some []
  else
    match h : next? (cs.dropWhile isBlank) with
    | none => none
    | some (token, rest) =>
        have : rest.length < cs.length := length_of_next?_dropWhile h
        (all? rest).map (token :: ·)
termination_by cs.length

end Token

end Interchange.Json
