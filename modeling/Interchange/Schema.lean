import Interchange.Schema.Audit

/-!
# Schemas

A schema is a named tree of loops that has passed the audit: the root loop stands for a
whole interchange, every loop can be told by its first segment, and no tag is ambiguous.
`Schema.bind` makes a schema of a tree.
-/

namespace Interchange

/-- A structure tree that documents can be validated against. -/
structure Schema where
  name : String
  /-- The loop of a whole interchange. -/
  root : Loop
  /-- The tags of the segments met in the audit. -/
  tags : List String

namespace Schema

/-- Whether some segment of the schema has this tag. -/
def definesTag (s : Schema) (tag : String) : Bool := s.tags.contains tag

/-- A schema of a tree without faults and defects. A fault is the answer even where defects
have been found before it. -/
def bindChecked (name : String) (root : Loop) (checks : List Check) : Except Error Schema :=
  if root.isPolymorphic then .error (.invalid (.polymorphicRoot root.id))
  else
    match checks.mapM Check.run with
    | .error fault => .error (.invalid fault)
    | .ok found =>
        if found.flatten.isEmpty then .ok ⟨name, root, checks.filterMap Check.tag?⟩
        else .error (.ambiguous found.flatten)

/-- A schema of a tree in which every loop is a definition of its own. -/
def bind (name : String) (root : Loop) : Except Error Schema :=
  bindChecked name root (checks root)

/-- A schema of a tree in which loops with one id are uses of one definition. -/
def bindDefinitions (name : String) (root : Loop) : Except Error Schema :=
  bindChecked name root (definitionChecks root)

end Schema

end Interchange
