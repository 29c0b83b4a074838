import Interchange.Yaml.Scalar

/-!
# Tokens of YAML text

The structure of YAML text is given by indentation or by brackets. The scanner turns both
into tokens: where a deeper column begins a list or a mapping it puts an opening token, and
where the column becomes smaller again it puts closing tokens.

A mapping key is recognised late, by the colon after it. So the scanner remembers for each
level of brackets the last token that could be a key, and when the colon comes it puts the
key token, and if need be the opening of a mapping, in front of that token. A key stands on
one line and is not too long. Outside brackets a token at the column of the open mapping has
to be a key.
-/

namespace Interchange.Yaml

/-- A token of YAML text. -/
inductive Token where
  /-- The beginning of a list given by indentation. -/
  | blockList
  /-- The beginning of a mapping given by indentation. -/
  | blockMapping
  /-- The end of either. -/
  | blockEnd
  /-- The dash before an item. -/
  | dash
  | openList
  | closeList
  | openMapping
  | closeMapping
  | comma
  /-- The beginning of a key. -/
  | key
  /-- The beginning of a value. -/
  | value
  | scalar (value : Datum)
  /-- The mark before a document. -/
  | documentStart
  /-- The mark after a document. -/
  | documentEnd

/-- A token that may turn out to be a key. -/
structure Candidate where
  /-- Whether it has to be one. -/
  required : Bool
  /-- How many tokens come before it. -/
  index : Nat
  /-- Where it stands. -/
  place : Place

/-- How many bytes may lie between the beginning of a key and the colon after it. -/
def longestKey : Nat := 1024

/-- Whether a colon at a place can make a key of the candidate. -/
def Candidate.reaches (c : Candidate) (colon : Place) : Bool :=
  c.place.line == colon.line && colon.bytes ≤ c.place.bytes + longestKey

/-- The scanner between two tokens. -/
structure Scanner where
  rest : List Char
  place : Place := {}
  /-- How many brackets are open. -/
  flow : Nat := 0
  /-- The column of the innermost list or mapping given by indentation, -1 for none. -/
  indent : Int := -1
  /-- The columns of those around it. -/
  outer : List Int := []
  /-- Whether a key may begin here. -/
  keyAllowed : Bool := true
  /-- The last token that may turn out to be a key. -/
  candidate : Option Candidate := none
  /-- The same for the brackets around. -/
  outerCandidates : List (Option Candidate) := []
  /-- The tokens so far, in reverse. -/
  tokens : List Token := []
  /-- How many they are. -/
  count : Nat := 0

namespace Scanner

/-! ### Small steps -/

/-- One more token. -/
def emit (s : Scanner) (t : Token) : Scanner :=
  { s with tokens := t :: s.tokens, count := s.count + 1 }

/-- One more token, after the first `index` ones. -/
def emitAt (s : Scanner) (index : Nat) (t : Token) : Scanner :=
  let later := s.count - index
  { s with tokens := s.tokens.take later ++ t :: s.tokens.drop later, count := s.count + 1 }

/-- Skip a number of characters of the line. -/
def skip (s : Scanner) (n : Nat) : Scanner :=
  { s with rest := s.rest.drop n, place := s.place.afterAll (s.rest.take n) }

/-- Give up the last token that could have been a key; a token that has to be one can not
be given up. -/
def dropCandidate? (s : Scanner) : Option Scanner :=
  match s.candidate with
  | some c => if c.required then none else some { s with candidate := none }
  | none => some s

/-- Note that the next token may turn out to be a key. -/
def noteCandidate? (s : Scanner) : Option Scanner :=
  if s.keyAllowed then
    s.dropCandidate?.map fun s =>
      { s with
        candidate := some
          { required := s.flow == 0 && s.indent == s.place.column
            index := s.count
            place := s.place } }
  else some s

/-- Open a list or mapping at a column, if it is deeper than the innermost one. -/
def openBlock (s : Scanner) (column index : Nat) (t : Token) : Scanner :=
  if s.flow = 0 ∧ s.indent < column then
    { s with indent := column, outer := s.indent :: s.outer }.emitAt index t
  else s

/-- The number of lists and mappings deeper than a column, and the columns left. -/
def closedBy (column : Int) : (indent : Int) → (outer : List Int) → Nat × Int × List Int
  | indent, [] => (0, indent, [])
  | indent, next :: outer =>
      if column < indent then
        let (n, indent, outer) := closedBy column next outer
        (n + 1, indent, outer)
      else (0, indent, next :: outer)

/-- Close the lists and mappings that are deeper than a column. -/
def closeBlocks (s : Scanner) (column : Int) : Scanner :=
  if s.flow = 0 then
    let (n, indent, outer) := closedBy column s.indent s.outer
    { s with indent, outer, tokens := List.replicate n .blockEnd ++ s.tokens, count := s.count + n }
  else s

/-! ### Blanks -/

/-- What is left after the blanks, line breaks and comments in front of it, where it stands,
and whether a key may begin there. A tab is no indentation: it is only a blank where no key
may begin. A byte order mark is a blank in the first column of a line. -/
def afterBlanks (inFlow : Bool) :
    (inComment : Bool) → Place → (keyAllowed : Bool) → List Char → List Char × Place × Bool
  | _, place, keyAllowed, [] => ([], place, keyAllowed)
  | inComment, place, keyAllowed, c :: rest =>
      if isBreak c then afterBlanks inFlow false place.down (keyAllowed || !inFlow) rest
      else if inComment || c == ' ' || (c == '\t' && (inFlow || !keyAllowed)) ||
          (c == '\uFEFF' && place.column == 0) then
        afterBlanks inFlow inComment (place.after c) keyAllowed rest
      else if c = '#' then afterBlanks inFlow true (place.after c) keyAllowed rest
      else (c :: rest, place, keyAllowed)

/-- The scanner in front of the next token. -/
def skipBlanks (s : Scanner) : Scanner :=
  let (rest, place, keyAllowed) := afterBlanks (s.flow != 0) false s.place s.keyAllowed s.rest
  { s with rest, place, keyAllowed }

/-! ### Tokens -/

/-- A mark between documents. -/
def marker? (s : Scanner) (t : Token) : Option Scanner :=
  (s.closeBlocks (-1)).dropCandidate?.map fun s =>
    ({ s with keyAllowed := false }.skip 3).emit t

/-- An opening bracket, which may begin a key. -/
def openFlow? (s : Scanner) (t : Token) : Option Scanner :=
  s.noteCandidate?.map fun s =>
    ({ s with
        flow := s.flow + 1
        outerCandidates := s.candidate :: s.outerCandidates
        candidate := none
        keyAllowed := true }.skip 1).emit t

/-- A closing bracket. -/
def closeFlow? (s : Scanner) (t : Token) : Option Scanner :=
  s.dropCandidate?.map fun s =>
    ({ s with
        flow := s.flow - 1
        candidate := s.outerCandidates.head?.getD none
        outerCandidates := s.outerCandidates.tail
        keyAllowed := false }.skip 1).emit t

/-- A comma. -/
def comma? (s : Scanner) : Option Scanner :=
  s.dropCandidate?.map fun s => ({ s with keyAllowed := true }.skip 1).emit .comma

/-- The dash of an item, which stands where a key could stand. -/
def dash? (s : Scanner) : Option Scanner :=
  if s.flow = 0 ∧ s.keyAllowed = false then none
  else
    (s.openBlock s.place.column s.count .blockList).dropCandidate?.map fun s =>
      ({ s with keyAllowed := true }.skip 1).emit .dash

/-- The question mark of a key. -/
def questionMark? (s : Scanner) : Option Scanner :=
  if s.flow = 0 ∧ s.keyAllowed = false then none
  else
    (s.openBlock s.place.column s.count .blockMapping).dropCandidate?.map fun s =>
      ({ s with keyAllowed := s.flow == 0 }.skip 1).emit .key

/-- The colon of a value, after a candidate that it can make a key or after nothing. -/
def colon? (s : Scanner) : Option Scanner :=
  match s.candidate with
  | some c =>
      if c.reaches s.place then
        let s := (s.emitAt c.index .key).openBlock c.place.column c.index .blockMapping
        some (({ s with candidate := none, keyAllowed := false }.skip 1).emit .value)
      else if c.required then none
      else lonely? { s with candidate := none }
  | none => lonely? s
where
  /-- The colon of a value without a key. -/
  lonely? (s : Scanner) : Option Scanner :=
    if s.flow = 0 then
      if s.keyAllowed then
        some (((s.openBlock s.place.column s.count .blockMapping).skip 1).emit .value)
      else none
    else some (({ s with keyAllowed := false }.skip 1).emit .value)

/-- A scalar, read from the text after `skipped` characters. -/
def scalar? (s : Scanner) (skipped : Nat) (read : Place → List Char → Option Reading)
    (value : String → Datum) : Option Scanner := do
  let s ← s.noteCandidate?
  let start := s.skip skipped
  let reading ← read start.place start.rest
  return { s with
    rest := reading.rest
    place := reading.place
    keyAllowed := reading.newLine }.emit (.scalar (value reading.text))

/-- The characters that do not begin a plain scalar. -/
def isIndicator (c : Char) : Bool :=
  ['-', '?', ':', ',', '[', ']', '{', '}', '#', '&', '*', '!', '|', '>', '\'', '"', '%', '@',
    '`'].contains c

/-- Whether a plain scalar begins here. -/
def atPlain (s : Scanner) : Bool :=
  match s.rest with
  | [] => false
  | c :: rest =>
      !(atBlank s.rest || isIndicator c) || (c == '-' && !atBlank rest) ||
        (s.flow == 0 && (c == '?' || c == ':') && !atBlank rest)

/-- Scan the token in front of a text that does not start with a blank. -/
def token? (s : Scanner) : Option Scanner :=
  let s := s.closeBlocks s.place.column
  let inFlow := s.flow != 0
  match s.rest with
  | [] => none
  | c :: rest =>
      if s.place.column = 0 ∧ atMarker s.rest then
        s.marker? (if c = '-' then .documentStart else .documentEnd)
      else if c = '[' then s.openFlow? .openList
      else if c = '{' then s.openFlow? .openMapping
      else if c = ']' then s.closeFlow? .closeList
      else if c = '}' then s.closeFlow? .closeMapping
      else if c = ',' then s.comma?
      else if c = '-' ∧ atBlank rest then s.dash?
      else if c = '?' ∧ (inFlow || atBlank rest) then s.questionMark?
      else if c = ':' ∧ (inFlow || atBlank rest) then s.colon?
      else if c = '\'' then s.scalar? 1 (single? [] Gap.none) .text
      else if c = '"' then s.scalar? 1 (double? [] Gap.none) .text
      else if s.atPlain then
        s.scalar? 0 (plain? inFlow (s.indent + 1).toNat [] Gap.none) .plain
      else none

/-! ### Whole texts -/

/-- Scan to the end. Every token takes at least one character, so `fuel` tokens are enough
for as many characters. -/
def run? : (fuel : Nat) → Scanner → Option Scanner
  | fuel, s =>
      let s := s.skipBlanks
      if s.rest.isEmpty then (s.closeBlocks (-1)).dropCandidate?
      else
        match fuel with
        | 0 => none
        | fuel + 1 => s.token?.bind (run? fuel)

end Scanner

/-- Whether a character may stand in a text at all. -/
def isPermitted (c : Char) : Bool :=
  let n := c.toNat
  n == 0x9 || n == 0xa || n == 0xd || (0x20 ≤ n && n ≤ 0x7e) || n == 0x85 ||
    (0xa0 ≤ n && n ≤ 0xfffd) || 0x10000 ≤ n

/-- The text with a newline for each way to write one. -/
def unifyBreaks : List Char → List Char
  | [] => []
  | '\r' :: '\n' :: rest => '\n' :: unifyBreaks rest
  | c :: rest => (if c == '\r' || c == '\u0085' then '\n' else c) :: unifyBreaks rest

/-- The tokens of a whole text. -/
def tokens? (text : String) : Option (List Token) :=
  let cs := text.toList
  if cs.all isPermitted then
    let cs := unifyBreaks cs
    (Scanner.run? cs.length { rest := cs }).map (·.tokens.reverse)
  else none

end Interchange.Yaml
