/-!
# Document versions

A version is a text such as `00401` or `D96A`. Two versions made of digits are compared
by the numbers they denote; any other pair is compared as texts. A `VersionRange` takes
in all versions between two optional bounds, both included.

Schema attributes can be overridden for a range of versions. The first override whose
range takes in the document version decides alone: where it leaves an attribute unset,
the base value holds, whatever later overrides say. Without a document version the base
value holds.
-/

namespace Interchange

namespace Version

/-- Whether a version is a number: digits and nothing else. -/
def isNumeric (v : String) : Bool := !v.isEmpty && v.toList.all Char.isDigit

/-- The digits of a number without the zeros in front. -/
def significant (v : String) : List Char := v.toList.dropWhile (· == '0')

/-- The order of versions. Numbers without zeros in front compare by their length first
and then digit by digit, so their size is not limited. -/
def compare (v w : String) : Ordering :=
  if isNumeric v && isNumeric w then
    (Ord.compare (significant v).length (significant w).length).then
      (Ord.compare (String.ofList (significant v)) (String.ofList (significant w)))
  else Ord.compare v w

end Version

/-- All versions between two bounds, which belong to the range. A missing bound leaves
that side open. -/
structure VersionRange where
  min : Option String := none
  max : Option String := none
  deriving DecidableEq, Repr

namespace VersionRange

/-- The range of all versions. -/
def unbounded : VersionRange := {}

/-- Why two bounds make no range: the lower one comes after the upper one. -/
inductive Fault where
  | reversed (min max : String)
  deriving DecidableEq, Repr

/-- The wording of a fault. -/
def Fault.message : Fault → String
  | reversed min max => s!"version range minimum '{min}' is greater than maximum '{max}'"

/-- The range between two bounds, which may be equal and may not be reversed. -/
def between (min max : Option String) : Except Fault VersionRange :=
  match min, max with
  | some lo, some hi =>
      if Version.compare lo hi = .gt then .error (.reversed lo hi) else .ok ⟨min, max⟩
  | _, _ => .ok ⟨min, max⟩

/-- Whether a version lies in the range. -/
def appliesTo (r : VersionRange) (version : String) : Bool :=
  (match r.min with
    | some lo => Version.compare version lo != .lt
    | none => true) &&
  (match r.max with
    | some hi => Version.compare version hi != .gt
    | none => true)

end VersionRange

namespace Version

variable {α β : Type}

/-- The override that decides for a version: the first whose range takes it in. -/
def deciding (overrides : List β) (range : β → VersionRange) : Option String → Option β
  | none => none
  | some version => overrides.find? fun o => (range o).appliesTo version

/-- The value of an attribute for a version. -/
def resolve (base : α) (overrides : List β) (range : β → VersionRange)
    (field : β → Option α) (version : Option String) : α :=
  ((deciding overrides range version).bind field).getD base

end Version

end Interchange
