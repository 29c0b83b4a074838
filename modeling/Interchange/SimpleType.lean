import Interchange.Schema.Fault
import Interchange.Sorted
import Interchange.Datum

/-!
# Simple types

The type of an element or component value: its lexical kind, the bounds of its length
and the codes it is restricted to. Lengths and codes can be overridden for a range of
document versions; `minLengthFor`, `maxLengthFor` and `codesFor` say what holds for a
given version.
-/

namespace Interchange

/-- Allowed codes with their labels, sorted by code. -/
structure CodeList where
  entries : List (String × String) := []
  deriving DecidableEq, Repr

namespace CodeList

/-- Codes are sorted as texts; labels do not count. -/
def order (a b : String × String) : Ordering := compare a.1 b.1

/-- The list with one more code; a code that is there gets the new label. -/
def insert (l : CodeList) (code label : String) : CodeList :=
  ⟨Sorted.insert order (code, label) l.entries⟩

/-- The list of the given codes; the last label given to a code counts. -/
def ofList (entries : List (String × String)) : CodeList := ⟨Sorted.ofList order entries⟩

/-- No codes: no restriction. -/
def isEmpty (l : CodeList) : Bool := l.entries.isEmpty

/-- Whether a code is in the list. -/
def contains (l : CodeList) (code : String) : Bool := l.entries.any (·.1 == code)

end CodeList

namespace SimpleType

/-- The lexical kinds of values. -/
inductive Kind where
  | identifier
  | string
  | decimal
  | integer
  | date
  | time
  | binary
  deriving DecidableEq, Repr

namespace Kind

/-- Every kind. -/
def all : List Kind := [.identifier, .string, .decimal, .integer, .date, .time, .binary]

/-- The name of a kind in schema files. -/
def name : Kind → String
  | identifier => "identifier"
  | string => "string"
  | decimal => "decimal"
  | integer => "integer"
  | date => "date"
  | time => "time"
  | binary => "binary"

/-- The kind with a given name. -/
def ofName? (name : String) : Option Kind := all.find? (·.name == name)

/-- The serialized form of a kind. -/
def toDatum (k : Kind) : Datum := .text k.name

/-- The kind with a given serialized form. -/
def ofDatum? (d : Datum) : Option Kind := d.alternative?.bind ofName?

/-- The kinds whose length is a number of digits. -/
def isNumeric : Kind → Bool
  | decimal | integer => true
  | _ => false

end Kind

/-- What differs for a range of versions; what is not set is as in the base type. -/
structure Override where
  range : VersionRange
  minLength : Option Nat := none
  maxLength : Option Nat := none
  codes : Option CodeList := none
  deriving DecidableEq, Repr

end SimpleType

/-- The type of a value. -/
structure SimpleType where
  id : String
  kind : SimpleType.Kind
  /-- The largest number of decimal places, for decimals. -/
  scale : Option Nat := none
  minLength : Nat := 1
  /-- By default as large as a length can be. -/
  maxLength : Nat := Datum.largestCount
  /-- The allowed codes; none leave the value unrestricted. -/
  codes : CodeList := {}
  /-- What differs for ranges of versions; the first range that applies decides. -/
  overrides : List SimpleType.Override := []
  title : Option String := none
  deriving DecidableEq, Repr

namespace SimpleType

/-- The minimum length for a version. -/
def minLengthFor (t : SimpleType) (version : Option String) : Nat :=
  Version.resolve t.minLength t.overrides Override.range Override.minLength version

/-- The maximum length for a version. -/
def maxLengthFor (t : SimpleType) (version : Option String) : Nat :=
  Version.resolve t.maxLength t.overrides Override.range Override.maxLength version

/-- The allowed codes for a version. -/
def codesFor (t : SimpleType) (version : Option String) : CodeList :=
  Version.resolve t.codes t.overrides Override.range Override.codes version

/-- The first pair of lengths that excludes every value, in the base type or in one of
its overrides. -/
def lengthFault? (t : SimpleType) : Option Schema.Fault :=
  if t.maxLength < t.minLength then some (.reversedLengths t.id t.minLength t.maxLength)
  else
    t.overrides.findSome? fun o =>
      let min := o.minLength.getD t.minLength
      let max := o.maxLength.getD t.maxLength
      if max < min then some (.reversedLengthsFor t.id min max o.range) else none

/-- The type itself, unless its lengths exclude every value. -/
def checked (t : SimpleType) : Except Schema.Fault SimpleType :=
  match t.lengthFault? with
  | some fault => .error fault
  | none => .ok t

end SimpleType

end Interchange
