import Interchange.SimpleType
import Interchange.Value.Calendar

/-!
# Rules for values

What a simple type demands of a value: a length between its bounds, a code from its list
and the lexical form of its kind. The rules are independent of each other. A value can
break several of them, and `check` reports each broken rule once, in that order.
-/

namespace Interchange.Value

/-- How a value misses the lexical form of its kind. -/
inductive LexicalFault where
  | notInteger
  | notDecimal
  /-- A decimal with more decimal places than its type has. -/
  | tooManyPlaces (places : Int) (scale : Nat)
  | notDate
  | notTime
  deriving DecidableEq, Repr

/-- The wording of a lexical fault of a value. -/
def LexicalFault.message (value : String) : LexicalFault → String
  | notInteger => s!"'{value}' is not a valid integer"
  | notDecimal => s!"'{value}' is not a valid decimal"
  | tooManyPlaces places scale =>
      s!"'{value}' has {places} decimal places, at most {scale} allowed"
  | notDate => s!"'{value}' is not a valid date"
  | notTime => s!"'{value}' is not a valid time"

/-- An integer, of any size. -/
def checkInteger (value : String) : Except LexicalFault Unit :=
  if isInteger value.toList then .ok () else .error .notInteger

/-- A decimal whose exponent is a signed word and whose decimal places are not more than
the scale, when there is one. -/
def checkDecimal (value : String) (scale : Option Nat) : Except LexicalFault Unit :=
  match Decimal.parse? value.toList with
  | none => .error .notDecimal
  | some decimal =>
      if fitsWord decimal.exponent then
        let places := nearestWord decimal.places
        match scale with
        | none => .ok ()
        | some scale =>
            if (scale : Int) < places then .error (.tooManyPlaces places scale) else .ok ()
      else .error .notDecimal

/-- A date of the calendar. -/
def checkDate (value : String) : Except LexicalFault Unit :=
  if isDate value.toList then .ok () else .error .notDate

/-- A time of the clock. -/
def checkTime (value : String) : Except LexicalFault Unit :=
  if isTime value.toList then .ok () else .error .notTime

/-- The lexical form of the type's kind. -/
def checkLexical (t : SimpleType) (value : String) : Except LexicalFault Unit :=
  match t.kind with
  | .integer => checkInteger value
  | .decimal => checkDecimal value t.scale
  | .date => checkDate value
  | .time => checkTime value
  | .identifier | .string | .binary => .ok ()

/-- The length of a value as its kind measures it: digits before the exponent for
numbers, characters for everything else. -/
def length (kind : SimpleType.Kind) (value : String) : Nat :=
  if kind.isNumeric then
    ((value.toList.takeWhile fun c => c != 'E' && c != 'e').filter Char.isDigit).length
  else value.toList.length

/-- A broken rule. -/
inductive Failure where
  | tooShort (length min : Nat)
  | tooLong (length max : Nat)
  | notACode
  | lexical (fault : LexicalFault)
  deriving DecidableEq, Repr

namespace Failure

/-- How a broken rule is classified. -/
def kind : Failure → Violation.Kind
  | tooShort _ _ => .tooShort
  | tooLong _ _ => .tooLong
  | notACode => .invalidCodeValue
  | lexical _ => .invalidDateOrTimeOrNumber

/-- The wording of a broken rule, for a value of the type with the given id. -/
def message (id value : String) : Failure → String
  | tooShort length min => s!"{id}: length {length} is less than minimum {min}"
  | tooLong length max => s!"{id}: length {length} exceeds maximum {max}"
  | notACode => s!"{id}: '{value}' is not an allowed code"
  | lexical fault => s!"{id}: " ++ fault.message value

end Failure

/-- The lower bound of the length. -/
def checkMinLength (t : SimpleType) (version : Option String) (value : String) :
    List Failure :=
  let n := length t.kind value
  let min := t.minLengthFor version
  if n < min then [.tooShort n min] else []

/-- The upper bound of the length. -/
def checkMaxLength (t : SimpleType) (version : Option String) (value : String) :
    List Failure :=
  let n := length t.kind value
  let max := t.maxLengthFor version
  if max < n then [.tooLong n max] else []

/-- The list of codes. -/
def checkCode (t : SimpleType) (version : Option String) (value : String) : List Failure :=
  let codes := t.codesFor version
  if codes.isEmpty || codes.contains value then [] else [.notACode]

/-- The rules that a value breaks for a document version, the list of codes only when
`checkCodes` is set. Empty text carries no data and breaks no rule. -/
def check (t : SimpleType) (version : Option String) (checkCodes : Bool) (value : String) :
    List Failure :=
  if value = "" then []
  else
    checkMinLength t version value ++ checkMaxLength t version value ++
      (if checkCodes then checkCode t version value else []) ++
      match checkLexical t value with
      | .ok () => []
      | .error fault => [.lexical fault]

end Interchange.Value
