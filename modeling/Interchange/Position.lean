/-!
# Positions inside a segment

A segment is a tag followed by numbered elements; an element may itself be split
into numbered components. A `Position` names one such slot the way implementation
guides do: both numbers start at 1, and a position without a component names the
element as a whole. For ordering, that is the slot of its first component.
-/

namespace Interchange

/-- Coordinates of a value inside its segment. -/
structure Position where
  /-- Number of the element, from 1. -/
  element : Nat
  /-- Number of the component inside a composite element, from 1. -/
  component : Option Nat := none
  deriving DecidableEq, Repr

namespace Position

/-- The component number, a simple element counting as its own first component. -/
def componentOrFirst (p : Position) : Nat := p.component.getD 1

/-- The order in which positions are read: by element, then by component. -/
def streamCompare (p q : Position) : Ordering :=
  (compare p.element q.element).then (compare p.componentOrFirst q.componentOrFirst)

/-- Two positions name the same slot of data. -/
def sameSlot (p q : Position) : Bool := p.streamCompare q == .eq

/-! ### Positions from outside -/

/-- Why a pair of numbers is not a position. -/
inductive Fault where
  /-- The element number is 0. -/
  | noElement
  /-- The component number is 0. -/
  | noComponent (element : Nat)
  deriving DecidableEq, Repr

/-- The wording of a fault. -/
def Fault.message : Fault → String
  | .noElement => "Invalid element position 0: element positions are 1-based"
  | .noComponent element =>
      s!"Invalid element position {element}: component positions are 1-based"

/-- A position from numbers that nobody has checked: neither may be 0. -/
def checked (element : Nat) (component : Option Nat) : Except Fault Position :=
  if element = 0 then .error .noElement
  else if component = some 0 then .error (.noComponent element)
  else .ok ⟨element, component⟩

/-! ### Text -/

/-- A number with at least two digits. -/
def twoDigits (n : Nat) : String :=
  if n < 10 then "0" ++ toString n else toString n

/-- How a position is written in messages: `03`, or `04-02` with a component. -/
def text (p : Position) : String :=
  match p.component with
  | none => twoDigits p.element
  | some component => twoDigits p.element ++ "-" ++ twoDigits component

end Position

end Interchange
