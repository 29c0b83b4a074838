import Interchange.Discriminator
import Interchange.SimpleType

/-!
# The structure of documents

A schema is a tree. Loops contain segments and further loops, segments contain elements,
and an element holds a value of a simple type or a composite of several such values.
Loops and segments can have implementations that stand in for the base definition when
their discriminator selects them.

Every occurrence of a loop inside another one starts with the loop's first segment, its
leading segment. The tag of that segment announces the loop, so `leadingTag` is what the
stream is matched against.
-/

namespace Interchange

/-! ### Values -/

/-- One slot of a composite. -/
structure Component where
  simpleType : SimpleType
  required : Bool := false
  deriving DecidableEq, Repr

/-- Values that share one element, in a fixed order. -/
structure Composite where
  id : String
  components : List Component
  deriving DecidableEq, Repr

/-- The entry at a place counted from 1. -/
def entry? {α : Type} (entries : List α) : (place : Nat) → Option α
  | 0 => none
  | place + 1 => entries[place]?

@[simp] theorem entry?_zero {α : Type} (entries : List α) : entry? entries 0 = none := rfl

@[simp] theorem entry?_succ {α : Type} (entries : List α) (place : Nat) :
    entry? entries (place + 1) = entries[place]? := rfl

namespace Composite

/-- The component at a place counted from 1. -/
def component? (c : Composite) (place : Nat) : Option Component := entry? c.components place

end Composite

/-- What an element holds. -/
inductive Content where
  | simple (type : SimpleType)
  | composite (type : Composite)
  deriving DecidableEq, Repr

/-- One slot of a segment. -/
structure Element where
  content : Content
  required : Bool := false
  /-- How many repetitions the element may have. -/
  maxOccurs : Nat := 1
  deriving DecidableEq, Repr

namespace Element

/-- The id of the element's type. -/
def id (e : Element) : String :=
  match e.content with
  | .simple type => type.id
  | .composite type => type.id

/-- The element with a number of repetitions, of which it always has one. -/
def repeats (e : Element) (maxOccurs : Nat) : Element := { e with maxOccurs := max maxOccurs 1 }

end Element

/-! ### Segments -/

/-- A tag with numbered elements. -/
structure Segment where
  id : String
  tag : String
  elements : List Element
  implementations : List (Implementation Segment)

namespace Segment

/-- Whether the segment has implementations. -/
def isPolymorphic (s : Segment) : Bool := !s.implementations.isEmpty

/-- The element at a place counted from 1. -/
def element? (s : Segment) (place : Nat) : Option Element := entry? s.elements place

/-- What a position of a segment addresses. -/
inductive Lookup where
  /-- A value of this type. -/
  | simple (type : SimpleType)
  /-- Nothing: there are fewer elements. -/
  | noSuchElement
  /-- Nothing: the element has fewer components, or none at all. -/
  | noSuchComponent
  deriving DecidableEq, Repr

/-- What a position addresses. A simple element is its own first component, and a
composite without a component number stands for its first one. -/
def lookup (s : Segment) (position : Position) : Lookup :=
  match s.element? position.element with
  | none => .noSuchElement
  | some element =>
      match element.content, position.component with
      | .simple type, none | .simple type, some 1 => .simple type
      | .simple _, some _ => .noSuchComponent
      | .composite type, component =>
          match type.component? (component.getD 1) with
          | some c => .simple c.simpleType
          | none => .noSuchComponent

end Segment

/-! ### Loops -/

/-- How often something may occur. -/
inductive MaxOccurs where
  | bounded (max : Nat)
  | unbounded
  deriving DecidableEq, Repr

namespace MaxOccurs

/-- Whether a number of occurrences is allowed. -/
def allows : MaxOccurs → Nat → Bool
  | bounded max, count => count ≤ max
  | unbounded, _ => true

/-- How a maximum is written. -/
def text : MaxOccurs → String
  | bounded max => toString max
  | unbounded => "unbounded"

end MaxOccurs

/-- What a child of a loop is; `α` is the type of loops. -/
inductive Target (α : Type) where
  | segment (segment : Segment)
  | loop (loop : α)

/-- A child of a loop: a segment or a loop with the bounds of its occurrences. -/
structure Reference (α : Type) where
  target : Target α
  minOccurs : Nat := 0
  maxOccurs : MaxOccurs := .bounded 1

/-- A group of segments and loops that occurs as a whole. -/
structure Loop where
  id : String
  children : List (Reference Loop)
  implementations : List (Implementation (List (Reference Loop)))

/-- A child of a loop. -/
abbrev Child := Reference Loop

namespace Loop

/-- Whether the loop has implementations. -/
def isPolymorphic (l : Loop) : Bool := !l.implementations.isEmpty

/-- The segment that opens each occurrence of a list of children, if it starts with one. -/
def leadingSegmentOf? : List Child → Option Segment
  | ⟨.segment s, _, _⟩ :: _ => some s
  | _ => none

/-- The segment that opens each occurrence of the loop, if it starts with one. -/
def leadingSegment? (l : Loop) : Option Segment := leadingSegmentOf? l.children

/-- The tag that opens each occurrence of the loop. -/
def leadingTag? (l : Loop) : Option String := l.leadingSegment?.map (·.tag)

end Loop

namespace Reference

/-- Whether the child is a loop. -/
def isLoop (c : Child) : Bool :=
  match c.target with
  | .segment _ => false
  | .loop _ => true

/-- The id of the segment or loop. -/
def id (c : Child) : String :=
  match c.target with
  | .segment s => s.id
  | .loop l => l.id

/-- The tag that opens each occurrence of the child. -/
def leadingTag? (c : Child) : Option String :=
  match c.target with
  | .segment s => some s.tag
  | .loop l => l.leadingTag?

/-- Whether a segment with this tag opens an occurrence of the child. -/
def startsWith (c : Child) (tag : String) : Bool := c.leadingTag? == some tag

/-- The child with at least one occurrence required. -/
def require (c : Child) : Child := { c with minOccurs := max c.minOccurs 1 }

end Reference

/-- The index of the first child, from index `start` on, that the tag starts. -/
def findChild? (children : List Child) (tag : String) (start : Nat) : Option Nat :=
  ((children.drop start).findIdx? (·.startsWith tag)).map (start + ·)

end Interchange
