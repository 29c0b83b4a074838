import Interchange.Event
import Interchange.Sorted
import Interchange.Text.Quoted

/-!
# Discriminators

Segments and loops that start alike can have several implementations. Each names a
discriminator: a position in the first segment and the values that select it. `select`
answers from the values read so far, and it can answer that the value has not come yet.
-/

namespace Interchange

/-- A position and the values that trigger a choice. -/
structure Discriminator where
  position : Position
  /-- Sorted, each value once. -/
  values : List String
  deriving DecidableEq, Repr

namespace Discriminator

/-- The discriminator of a position and a set of values. -/
def ofValues (position : Position) (values : List String) : Discriminator :=
  ⟨position, Sorted.ofList compare values⟩

/-- Whether a value triggers the choice. -/
def accepts (d : Discriminator) (value : String) : Bool := d.values.contains value

/-- The value at the position, taken from the first repetition, among the values read so
far. A value that cannot come any more counts as empty: the segment is complete, or a
later position has been read. -/
def valueIn? (d : Discriminator) (elements : List ElementValue) (complete : Bool) :
    Option String :=
  match elements.find? fun e => e.repetition == 0 && e.position.sameSlot d.position with
  | some found => some found.value
  | none =>
      let passed :=
        match elements.getLast? with
        | some last => last.position.streamCompare d.position == .gt
        | none => false
      if complete || passed then some "" else none

/-- How a discriminator is written in messages. -/
def text (d : Discriminator) : String := d.position.text ++ " in " ++ Text.quotedSet d.values

end Discriminator

/-- One of several implementations of a loop or segment. -/
structure Implementation (β : Type) where
  id : String
  discriminator : Discriminator
  /-- What stands in for the base definition when the implementation is selected. -/
  body : β
  deriving Repr

/-- The answer to which implementation is meant. -/
inductive Selection where
  /-- The implementation at this index. -/
  | resolved (index : Nat)
  /-- None: the value is known and selects nothing. -/
  | noMatch
  /-- The value has not been read yet. -/
  | unresolved
  deriving DecidableEq, Repr

namespace Implementation

variable {β : Type}

/-- Whether the implementation is selected by the values read so far; `none` while that
is open. -/
def selected? (i : Implementation β) (elements : List ElementValue) (complete : Bool) :
    Option Bool :=
  (i.discriminator.valueIn? elements complete).map i.discriminator.accepts

/-- The selection among implementations whose indices start at `index`; `waiting` tells
whether an earlier one is still open. -/
def selectFrom (elements : List ElementValue) (complete : Bool) :
    (index : Nat) → (waiting : Bool) → List (Implementation β) → Selection
  | _, waiting, [] => if waiting then .unresolved else .noMatch
  | index, waiting, i :: rest =>
      match i.selected? elements complete with
      | some true => .resolved index
      | some false => selectFrom elements complete (index + 1) waiting rest
      | none => selectFrom elements complete (index + 1) true rest

/-- The first implementation selected by the values read so far. `complete` tells that
the segment has ended. -/
def select (implementations : List (Implementation β)) (elements : List ElementValue)
    (complete : Bool) : Selection :=
  selectFrom elements complete 0 false implementations

end Implementation

end Interchange
