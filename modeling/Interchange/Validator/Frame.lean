import Interchange.Validator.OpenSegment

/-!
# Open loops

A `Frame` is an occurrence of a loop that has been opened and not closed. It counts how
often each child has occurred, and its cursor stands at the child entered last: children
before the cursor have been passed, and a tag can only start a child from the cursor on.

Which list of children is in effect depends on the implementation of the loop. Until the
discriminator has been read, and when it selects nothing, that is the list of the loop
itself.
-/

namespace Interchange.Validator

/-- Which list of children is in effect. -/
inductive Active where
  /-- The discriminator has not been read. -/
  | pending
  /-- The list of the loop itself. -/
  | base
  /-- The list of the implementation at an index. -/
  | implementation (index : Nat)
  deriving DecidableEq, Repr

/-- An open occurrence of a loop. -/
structure Frame where
  loop : Loop
  /-- The path of the loop, with the implementation once it is selected. -/
  path : String
  active : Active
  /-- How often each child has occurred. -/
  counts : List Nat
  /-- The index of the child entered last. -/
  cursor : Nat := 0

namespace Frame

/-- The counts of a list of children whose first has occurred once. -/
def opened (children : List Child) : List Nat :=
  match children with
  | [] => []
  | _ :: rest => 1 :: rest.map fun _ => 0

/-- The frame of the root loop, nothing of which has been read. -/
def ofRoot (root : Loop) : Frame where
  loop := root
  path := root.id
  active := .base
  counts := root.children.map fun _ => 0

/-- The frame of a loop whose leading segment has just been read. -/
def ofLoop (loop : Loop) (path : String) : Frame where
  loop := loop
  path := path
  active := if loop.isPolymorphic then .pending else .base
  counts := opened loop.children

/-- The list of children in effect. -/
def children (f : Frame) : List Child :=
  match f.active with
  | .implementation index =>
      match f.loop.implementations[index]? with
      | some i => i.body
      | none => f.loop.children
  | .pending | .base => f.loop.children

/-- How often the child at an index has occurred. -/
def count (f : Frame) (index : Nat) : Nat := f.counts[index]?.getD 0

/-! ### Missing children -/

/-- The children with their indices. -/
def indexed (f : Frame) : List (Child × Nat) := f.children.zipIdx

/-- Whether the child at an index has not occurred often enough. -/
def isShort (f : Frame) (entry : Child × Nat) : Bool := f.count entry.2 < entry.1.minOccurs

/-- The report that a child has not occurred often enough. -/
def shortage (f : Frame) (here : Location) (entry : Child × Nat) : Violation :=
  let (child, index) := entry
  { kind := if child.isLoop then .requiredLoopMissing else .requiredSegmentMissing
    location := { here with schemaPath := f.path ++ "/" ++ child.id }
    message :=
      s!"{child.id} occurs {f.count index} time(s), at least {child.minOccurs} required" }

/-- The reports on the children with indices from `start` up to `stop`, without the
latter. -/
def missing (f : Frame) (start stop : Nat) (here : Location) : List Violation :=
  (((f.indexed.take stop).drop start).filter f.isShort).map (f.shortage here)

/-- The reports on the children from the cursor on, when the loop is closed. -/
def close (f : Frame) (here : Location) : List Violation :=
  f.missing f.cursor f.children.length here

/-- Whether every child from the cursor on has occurred often enough. -/
def isSatisfied (f : Frame) : Bool := !(f.indexed.drop f.cursor).any f.isShort

/-- Whether a tag starts a child that has been passed while a required child is still
outstanding. -/
def isOutOfSequence (f : Frame) (tag : String) : Bool :=
  (f.children.take f.cursor).any (·.startsWith tag) && !f.isSatisfied

/-! ### Matching -/

/-- The first child from an index on that a tag starts. -/
def childFrom? (f : Frame) (tag : String) (start : Nat) : Option (Nat × Child) :=
  (findChild? f.children tag start).bind fun index => f.children[index]?.map (index, ·)

/-- Move the cursor to a child, which occurs once more. -/
def enter (f : Frame) (index : Nat) : Frame :=
  { f with cursor := index, counts := f.counts.set index (f.count index + 1) }

/-! ### Selecting an implementation -/

/-- The frame and the segment that opened it after selecting an implementation of the
loop, `none` while the value that decides has not come. The children of an implementation
are counted anew, its first being the segment that has just been read. -/
def resolve? (f : Frame) (s : OpenSegment) (complete : Bool) :
    Option (Frame × OpenSegment × List Violation) :=
  match Implementation.select f.loop.implementations s.values complete with
  | .unresolved => none
  | .noMatch =>
      some ({ f with active := .base }, s, [s.unresolved f.loop.implementations f.path])
  | .resolved index =>
      match f.loop.implementations[index]? with
      | none => some (f, s, [])
      | some i =>
          let path := f.path ++ "[" ++ i.id ++ "]"
          let s :=
            match Loop.leadingSegmentOf? i.body with
            | some leading =>
                { s with path := path ++ "/" ++ leading.id, definition := some leading }
            | none => s
          some ({ f with active := .implementation index, path, counts := opened i.body,
                         cursor := 0 }, s, [])

end Frame

end Interchange.Validator
