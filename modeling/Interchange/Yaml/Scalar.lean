import Interchange.Datum

/-!
# Scalars of YAML text

A scalar may run over several lines. Inside it, blanks at the ends of lines do not count,
one line break reads as a space, and of several line breaks all but the first are kept.
`Gap` is what has been read between two words of a scalar, and `Gap.text` is what it
stands for.

There are three styles. Plain scalars have no quotes and end where something else could
begin; single quotes contain nothing special but the doubled quote; double quotes have
escapes, among them the escaped line break, which stands for nothing.
-/

namespace Interchange.Yaml

/-- A place in a text. -/
structure Place where
  /-- The line, from 0. -/
  line : Nat := 0
  /-- The column, from 0. -/
  column : Nat := 0
  /-- The number of bytes in front of the place on its line. -/
  bytes : Nat := 0
  deriving DecidableEq, Repr

namespace Place

/-- The place after one more character on the same line. -/
def after (p : Place) (c : Char) : Place :=
  { p with column := p.column + 1, bytes := p.bytes + c.utf8Size }

/-- The place after more characters on the same line. -/
def afterAll (p : Place) (cs : List Char) : Place := cs.foldl after p

/-- The beginning of the next line. -/
def down (p : Place) : Place := { line := p.line + 1 }

end Place

/-- Whether a character is a blank inside a line. -/
def isBlank (c : Char) : Bool := c == ' ' || c == '\t'

/-- Whether a character ends a line. Besides the newline these are the two separators of lines
and paragraphs. -/
def isBreak (c : Char) : Bool := c == '\n' || c == '\u2028' || c == '\u2029'

/-- Whether a word can not go on: there is a blank, a line break or nothing. -/
def atBlank : List Char → Bool
  | [] => true
  | c :: _ => isBlank c || isBreak c

/-- Whether a text starts with a mark between documents. -/
def atMarker : List Char → Bool
  | '-' :: '-' :: '-' :: rest | '.' :: '.' :: '.' :: rest => atBlank rest
  | _ => false

/-! ### Gaps -/

/-- What stands between two words of a scalar. -/
inductive Gap where
  /-- Blanks on one line, in reverse. -/
  | blanks (reversed : List Char)
  /-- A line break, and more of them, in reverse. -/
  | breaks (first : Char) (reversed : List Char)
  /-- An escaped line break, and more that are not escaped, in reverse. -/
  | escaped (reversed : List Char)

namespace Gap

/-- No gap. -/
def none : Gap := blanks []

/-- Whether there is no gap. -/
def isNone : Gap → Bool
  | blanks [] => true
  | _ => false

/-- Whether the next line has been reached. -/
def hasBreak : Gap → Bool
  | blanks _ => false
  | breaks _ _ | escaped _ => true

/-- A blank more. -/
def addBlank (c : Char) : Gap → Gap
  | blanks reversed => blanks (c :: reversed)
  | gap => gap

/-- A line break more. -/
def addBreak (c : Char) : Gap → Gap
  | blanks _ => breaks c []
  | breaks first reversed => breaks first (c :: reversed)
  | escaped reversed => escaped (c :: reversed)

/-- What the gap stands for, in reverse. A newline in front is folded; a separator is kept. -/
def reversedText : Gap → List Char
  | blanks reversed => reversed
  | breaks '\n' [] => [' ']
  | breaks '\n' reversed => reversed
  | breaks first reversed => reversed ++ [first]
  | escaped reversed => reversed

end Gap

/-! ### The three styles -/

/-- A scalar that has been read. -/
structure Reading where
  /-- The text of the scalar. -/
  text : String
  /-- What is left. -/
  rest : List Char
  /-- The place of what is left. -/
  place : Place
  /-- Whether what is left is on a line of its own. -/
  newLine : Bool := false

/-- Whether a plain scalar can not contain the text in front of `cs`, inside brackets if
`inFlow` is set. -/
def endsPlain (inFlow : Bool) : List Char → Bool
  | ':' :: rest => atBlank rest
  | c :: _ => inFlow && (c == ',' || c == '[' || c == ']' || c == '{' || c == '}')
  | [] => true

/-- A colon that stands against something special inside brackets. -/
def isStrayColon : List Char → Bool
  | ':' :: c :: _ =>
      c == ',' || c == '?' || c == '[' || c == ']' || c == '{' || c == '}'
  | _ => false

/-- Whether a plain scalar has come to its end before the text `cs`, which stands after a gap:
the line is not indented enough outside brackets, or a comment or a mark between documents
begins. -/
def endsAfterGap (inFlow : Bool) (indent : Nat) (gap : Gap) (place : Place) (cs : List Char) :
    Bool :=
  (gap.hasBreak && !inFlow && place.column < indent) ||
    (!gap.isNone && cs.head? == some '#') || (place.column == 0 && atMarker cs)

/-- The plain scalar with the given letters, in reverse, that ends in front of `rest`. The gap
after it is not a part of it. -/
def Reading.ofPlain (reversed : List Char) (gap : Gap) (place : Place) (rest : List Char) :
    Reading :=
  ⟨String.ofList reversed.reverse, rest, place, gap.hasBreak⟩

/-- Read on in a plain scalar. Outside brackets its lines have to be indented by `indent`
columns. -/
def plain? (inFlow : Bool) (indent : Nat) (reversed : List Char) (gap : Gap) (place : Place) :
    List Char → Option Reading
  | [] => some (.ofPlain reversed gap place [])
  | c :: rest =>
      if isBreak c then plain? inFlow indent reversed (gap.addBreak c) place.down rest
      else if isBlank c then
        if gap.hasBreak && place.column < indent && c == '\t' then none
        else plain? inFlow indent reversed (gap.addBlank c) (place.after c) rest
      else if endsAfterGap inFlow indent gap place (c :: rest) then
        some (.ofPlain reversed gap place (c :: rest))
      else if inFlow && isStrayColon (c :: rest) then none
      else if endsPlain inFlow (c :: rest) then some (.ofPlain reversed gap place (c :: rest))
      else
        plain? inFlow indent (c :: (gap.reversedText ++ reversed)) Gap.none (place.after c) rest

/-- Read on in a scalar between single quotes. -/
def single? (reversed : List Char) (gap : Gap) (place : Place) : List Char → Option Reading
  | [] => none
  | '\'' :: '\'' :: rest =>
      single? ('\'' :: (gap.reversedText ++ reversed)) Gap.none
        (place.afterAll ['\'', '\'']) rest
  | '\'' :: rest =>
      some ⟨String.ofList (gap.reversedText ++ reversed).reverse, rest, place.after '\'', false⟩
  | c :: rest =>
      if place.column = 0 ∧ atMarker (c :: rest) then none
      else if isBreak c then single? reversed (gap.addBreak c) place.down rest
      else if isBlank c then single? reversed (gap.addBlank c) (place.after c) rest
      else single? (c :: (gap.reversedText ++ reversed)) Gap.none (place.after c) rest

/-- The character of a one-letter escape. -/
def escaped? : Char → Option Char
  | '0' => some '\x00'
  | 'a' => some '\x07'
  | 'b' => some '\x08'
  | 't' | '\t' => some '\t'
  | 'n' => some '\n'
  | 'v' => some '\x0b'
  | 'f' => some '\x0c'
  | 'r' => some '\r'
  | 'e' => some '\x1b'
  | ' ' => some ' '
  | '"' => some '"'
  | '/' => some '/'
  | '\\' => some '\\'
  | 'N' => some '\u0085'
  | '_' => some '\u00a0'
  | 'L' => some '\u2028'
  | 'P' => some '\u2029'
  | _ => none

/-- The character with a number written in hexadecimal digits. -/
def numbered? (digits : List Char) : Option Char :=
  (Datum.digits? 16 digits).bind fun n =>
    if n.isValidChar then some (Char.ofNat n) else none

/-- Read on in a scalar between double quotes. -/
def double? (reversed : List Char) (gap : Gap) (place : Place) : List Char → Option Reading
  | [] => none
  | '"' :: rest =>
      some ⟨String.ofList (gap.reversedText ++ reversed).reverse, rest, place.after '"', false⟩
  | '\\' :: 'x' :: a :: b :: rest =>
      match numbered? [a, b] with
      | some c =>
          double? (c :: (gap.reversedText ++ reversed)) Gap.none
            (place.afterAll ['\\', 'x', a, b]) rest
      | none => none
  | '\\' :: 'u' :: a :: b :: c :: d :: rest =>
      match numbered? [a, b, c, d] with
      | some e =>
          double? (e :: (gap.reversedText ++ reversed)) Gap.none
            (place.afterAll ['\\', 'u', a, b, c, d]) rest
      | none => none
  | '\\' :: 'U' :: a :: b :: c :: d :: e :: f :: g :: h :: rest =>
      match numbered? [a, b, c, d, e, f, g, h] with
      | some i =>
          double? (i :: (gap.reversedText ++ reversed)) Gap.none
            (place.afterAll ['\\', 'U', a, b, c, d, e, f, g, h]) rest
      | none => none
  | '\\' :: c :: rest =>
      if isBreak c then double? (gap.reversedText ++ reversed) (.escaped []) place.down rest
      else
        match escaped? c with
        | some d =>
            double? (d :: (gap.reversedText ++ reversed)) Gap.none
              (place.afterAll ['\\', c]) rest
        | none => none
  | c :: rest =>
      if place.column = 0 ∧ atMarker (c :: rest) then none
      else if isBreak c then double? reversed (gap.addBreak c) place.down rest
      else if isBlank c then double? reversed (gap.addBlank c) (place.after c) rest
      else double? (c :: (gap.reversedText ++ reversed)) Gap.none (place.after c) rest

end Interchange.Yaml
