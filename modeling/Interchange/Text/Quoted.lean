import Interchange.Text.Property

/-!
# Quoted text in messages

Messages that show a text, a possibly missing text, or a collection of texts put each
text in quotes and escape what could not be told apart on a screen: quotes and
backslashes, and characters without a visible form of their own. Everything else stands
for itself.
-/

namespace Interchange.Text

/-- The hexadecimal digits of a number, without superfluous zeros. -/
def hexDigits (n : Nat) : List Char := Nat.toDigits 16 n

/-- A character named by its number. -/
def numbered (c : Char) : List Char :=
  ['\\', 'u', '\x7b'] ++ hexDigits c.toNat ++ ['\x7d']

/-- A character inside quotes. -/
def shown (c : Char) : List Char :=
  match c with
  | '\x00' => ['\\', '0']
  | '\t' => ['\\', 't']
  | '\r' => ['\\', 'r']
  | '\n' => ['\\', 'n']
  | '"' => ['\\', '"']
  | '\\' => ['\\', '\\']
  | c => if isHidden c || isAttached c then numbered c else [c]

/-- A text in quotes. -/
def quoted (s : String) : String :=
  "\"" ++ String.ofList (s.toList.flatMap shown) ++ "\""

/-- A text that may be missing. -/
def quotedOption : Option String → String
  | none => "None"
  | some s => "Some(" ++ quoted s ++ ")"

/-- A list of texts. -/
def quotedList (ss : List String) : String :=
  "[" ++ ", ".intercalate (ss.map quoted) ++ "]"

/-- A set of texts. -/
def quotedSet (ss : List String) : String :=
  "\x7b" ++ ", ".intercalate (ss.map quoted) ++ "\x7d"

end Interchange.Text
