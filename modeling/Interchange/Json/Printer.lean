import Interchange.Datum

/-!
# Writing JSON

Two layouts of one notation. The compact one has no blanks. The indented one gives every
item and every field a line of its own, two blanks deeper than what contains it, and
writes an empty list or record on one line. Fields are written in the order they have.
-/

namespace Interchange.Json

/-! ### Strings -/

/-- The lower-case hexadecimal digit of a number below 16. -/
def hexDigit (n : Nat) : Char :=
  if n < 10 then Char.ofNat ('0'.toNat + n) else Char.ofNat ('a'.toNat + (n - 10))

/-- A character inside a string: quotes, backslashes and control characters are escaped,
every other character stands for itself. -/
def escape (c : Char) : List Char :=
  match c with
  | '"' => ['\\', '"']
  | '\\' => ['\\', '\\']
  | '\n' => ['\\', 'n']
  | '\r' => ['\\', 'r']
  | '\t' => ['\\', 't']
  | '\x08' => ['\\', 'b']
  | '\x0c' => ['\\', 'f']
  | c =>
      if c.toNat < 0x20 then ['\\', 'u', '0', '0', hexDigit (c.toNat / 16), hexDigit (c.toNat % 16)]
      else [c]

/-- A text in quotes. -/
def quote (s : String) : String :=
  "\"" ++ String.ofList (s.toList.flatMap escape) ++ "\""

/-- A scalar; lists and records are left to the layouts. -/
def scalar : Datum → String
  | .null | .unreadable | .list _ | .record _ => "null"
  | .bool true => "true"
  | .bool false => "false"
  | .natural n => toString n
  | .number literal => literal
  | .text s | .plain s => quote s

/-! ### The compact layout -/

mutual

/-- A value without blanks. -/
def compact : Datum → String
  | .list items => "[" ++ ",".intercalate (compactItems items) ++ "]"
  | .record fields => "\x7b" ++ ",".intercalate (compactFields fields) ++ "\x7d"
  | d => scalar d

@[inherit_doc compact]
def compactItems : List Datum → List String
  | [] => []
  | d :: rest => compact d :: compactItems rest

@[inherit_doc compact]
def compactFields : List (String × Datum) → List String
  | [] => []
  | (name, d) :: rest => (quote name ++ ":" ++ compact d) :: compactFields rest

end

/-! ### The indented layout -/

/-- A line break and the blanks of a depth. -/
def newline (depth : Nat) : String := "\n" ++ String.ofList (List.replicate (2 * depth) ' ')

/-- Parts between brackets, each on a line one step deeper than the brackets. -/
def block (depth : Nat) (left : String) (parts : List String) (right : String) : String :=
  if parts.isEmpty then left ++ right
  else
    left ++ newline (depth + 1) ++ ("," ++ newline (depth + 1)).intercalate parts ++
      newline depth ++ right

mutual

/-- A value over several lines, inside `depth` brackets. -/
def indented (depth : Nat) : Datum → String
  | .list items => block depth "[" (indentedItems (depth + 1) items) "]"
  | .record fields => block depth "\x7b" (indentedFields (depth + 1) fields) "\x7d"
  | d => scalar d

@[inherit_doc indented]
def indentedItems (depth : Nat) : List Datum → List String
  | [] => []
  | d :: rest => indented depth d :: indentedItems depth rest

@[inherit_doc indented]
def indentedFields (depth : Nat) : List (String × Datum) → List String
  | [] => []
  | (name, d) :: rest => (quote name ++ ": " ++ indented depth d) :: indentedFields depth rest

end

/-- A value over several lines. -/
def pretty (d : Datum) : String := indented 0 d

end Interchange.Json
