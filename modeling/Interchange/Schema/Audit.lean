import Interchange.Structure

/-!
# Auditing a structure tree

Before documents are validated the whole tree is looked over once, from the root and in
the order of the definitions.

* A malformed tree is refused with the first `Schema.Fault` met: a loop that cannot be
  announced by its first segment, or an implementation that does not fit what it
  implements.
* A tree that would make matching ambiguous is reported with all its defects. Two
  children clash when one tag starts both and the reader could be waiting for either,
  which is so when no required child lies between them. Implementations clash when they
  look at different positions or share a value.

The audit is a list of checks, each of which looks at one part of the tree. Which loops are
entered on the way is left open: `checks` enters every loop of a tree, and
`definitionChecks` enters only the first of the loops with one id, which is the right thing
where all of them are uses of one definition.
-/

namespace Interchange

namespace Schema

/-! ### Defects -/

/-- A defect of the definition at a path. -/
def ambiguity (path message : String) : Violation where
  kind := .ambiguousSchemaDefinition
  location := Location.ofSchema path
  message := message

/-- The children that can come next when the ones before them have been met: up to the
first that is required. -/
def reachable : List Child → List Child
  | [] => []
  | c :: rest => if 0 < c.minOccurs then [c] else c :: reachable rest

/-- The first later child that could be meant by the tag that starts `c`. -/
def rival? (c : Child) (later : List Child) : Option Child :=
  c.leadingTag?.bind fun tag => (reachable later).find? (·.startsWith tag)

/-- The clashes in a list of children. -/
def clashes (path : String) : List Child → List Violation
  | [] => []
  | c :: rest =>
      match c.leadingTag?, rival? c rest with
      | some tag, some rival =>
          ambiguity path
            s!"segment tag '{tag}' starts both '{c.id}' and '{rival.id}' without a discriminator" ::
          clashes path rest
      | _, _ => clashes path rest

variable {β : Type}

/-- The values of an implementation that an earlier one has claimed; of several earlier
ones the last is named. -/
def sharedValues (path : String) (earlier : List (Implementation β)) (i : Implementation β) :
    List Violation :=
  i.discriminator.values.filterMap fun value =>
    (earlier.find? (·.discriminator.accepts value)).map fun owner =>
      ambiguity path s!"discriminator value '{value}' selects both '{owner.id}' and '{i.id}'"

/-- The clashes of implementations whose discriminators should look at `position`, after
`earlier`, which has the last one first. -/
def discriminatorClashes (path : String) (position : Position) :
    (earlier : List (Implementation β)) → List (Implementation β) → List Violation
  | _, [] => []
  | earlier, i :: rest =>
      (if i.discriminator.position = position then []
        else
          [ambiguity path <|
            s!"implementation '{i.id}' discriminates on {i.discriminator.position.text} but " ++
              s!"its siblings use {position.text}"]) ++
        sharedValues path earlier i ++ discriminatorClashes path position (i :: earlier) rest

/-- The clashes of the implementations of one definition. -/
def implementationClashes (path : String) (implementations : List (Implementation β)) :
    List Violation :=
  match implementations with
  | [] => []
  | first :: _ => discriminatorClashes path first.discriminator.position [] implementations

/-! ### Checks -/

/-- What is wrong with an implementation of a segment at a path. -/
def implementationFault? (path tag : String) (i : Implementation Segment) : Option Fault :=
  if i.body.tag ≠ tag then some (.implementationTag i.id path i.body.tag)
  else if i.body.isPolymorphic then some (.nestedImplementations i.id path)
  else none

/-- A part of a tree that is checked on its own. -/
inductive Check where
  /-- The list of children at a path. -/
  | children (path : String) (children : List Child)
  /-- A segment in the list of children at a path. -/
  | segment (path : String) (segment : Segment)
  /-- A loop inside another one, at a path of its own. -/
  | nested (path : String) (loop : Loop)
  /-- The children of the loop at a path, which has implementations. -/
  | leading (path : String) (children : List Child)
  /-- The children of the implementation at a path, whose loop starts with a tag. -/
  | body (path : String) (tag : Option String) (children : List Child)
  /-- The implementations of the loop at a path. -/
  | implementations (path : String) (implementations : List (Implementation (List Child)))

namespace Check

/-- The defects that a check finds, or a fault. -/
def run : Check → Except Fault (List Violation)
  | children path cs => .ok (clashes path cs)
  | segment path s =>
      let segmentPath := path ++ "/" ++ s.id
      match s.implementations.findSome? (implementationFault? segmentPath s.tag) with
      | some fault => .error fault
      | none => .ok (implementationClashes segmentPath s.implementations)
  | nested path loop =>
      if loop.leadingSegment?.isSome then .ok [] else .error (.noLeadingSegment path)
  | leading path cs =>
      match Loop.leadingSegmentOf? cs with
      | none => .error (.implementationsWithoutLeading path)
      | some s => if s.isPolymorphic then .error (.polymorphicLeading path s.tag) else .ok []
  | body path tag cs =>
      if (Loop.leadingSegmentOf? cs).map (·.tag) = tag then .ok []
      else .error (.implementationStart path (tag.getD ""))
  | implementations path is => .ok (implementationClashes path is)

/-- The tag of the segment that a check looks at. -/
def tag? : Check → Option String
  | segment _ s => some s.tag
  | _ => none

end Check

/-! ### The checks of a tree -/

section Walk

variable {m : Type → Type} [Monad m] (entered : Loop → m Bool)

mutual

/-- The checks of a loop at a path. A loop inside it is looked into if it is `entered`. -/
def checksOfLoop (path : String) : Loop → m (List Check)
  | ⟨_, children, implementations⟩ => do
      let base ← checksOfChildren path children
      let bodies ←
        checksOfBodies path ((Loop.leadingSegmentOf? children).map (·.tag)) implementations
      return .children path children :: base ++
        (if implementations.isEmpty then []
          else .leading path children :: bodies ++ [.implementations path implementations])

/-- The checks of each child in a list at a path. -/
def checksOfChildren (path : String) : List Child → m (List Check)
  | [] => return []
  | ⟨.segment s, _, _⟩ :: rest => do
      let others ← checksOfChildren path rest
      return .segment path s :: others
  | ⟨.loop l, _, _⟩ :: rest => do
      let loopPath := path ++ "/" ++ l.id
      let inside ← if ← entered l then checksOfLoop loopPath l else pure []
      let others ← checksOfChildren path rest
      return .nested loopPath l :: inside ++ others

/-- The checks of the implementations of a loop that starts with `tag`. -/
def checksOfBodies (path : String) (tag : Option String) :
    List (Implementation (List Child)) → m (List Check)
  | [] => return []
  | ⟨id, _, body⟩ :: rest => do
      let bodyPath := path ++ "[" ++ id ++ "]"
      let inside ← checksOfChildren bodyPath body
      let others ← checksOfBodies path tag rest
      return .body bodyPath tag body :: .children bodyPath body :: inside ++ others

end

end Walk

/-- The checks of a tree in which every loop is a definition of its own. -/
def checks (root : Loop) : List Check :=
  Id.run (checksOfLoop (fun _ => pure true) root.id root)

/-- Whether no loop with the id of `l` has been met before; now one has. -/
def meet (l : Loop) : StateM (List String) Bool := do
  let met ← get
  if l.id ∈ met then return false
  set (l.id :: met)
  return true

/-- The checks of a tree in which loops with one id are uses of one definition. -/
def definitionChecks (root : Loop) : List Check :=
  (Id.run ((checksOfLoop meet root.id root).run [root.id])).1

end Schema

end Interchange
