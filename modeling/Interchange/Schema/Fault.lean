import Interchange.Format
import Interchange.Position
import Interchange.Text.Quoted
import Interchange.Version
import Interchange.Violation

/-!
# What can be wrong with a schema

`Fault` lists the causes for which a definition is refused, and `Error` the ways in which
getting hold of a schema can fail. Each is a cause; the wording is in `message`.
-/

namespace Interchange.Schema

/-- The kinds of definition that others refer to. -/
inductive DefinitionKind where
  | element
  | composite
  | segment
  | loop
  deriving DecidableEq, Repr

/-- What a kind of definition is called. -/
def DefinitionKind.name : DefinitionKind → String
  | element => "element"
  | composite => "composite"
  | segment => "segment"
  | loop => "loop"

/-- Why a definition is refused. -/
inductive Fault where
  /-- The bounds of a version range make no range. -/
  | versionRange (fault : VersionRange.Fault)
  /-- The minimum length of an element type exceeds its maximum length. -/
  | reversedLengths (id : String) (min max : Nat)
  /-- The same, for the lengths that hold for a range of versions. -/
  | reversedLengthsFor (id : String) (min max : Nat) (range : VersionRange)
  /-- Two definitions of one kind share an id. -/
  | duplicateId (id : String)
  /-- A segment and a loop share an id. -/
  | segmentAndLoop (id : String)
  /-- An element and a composite share an id. -/
  | elementAndComposite (id : String)
  /-- A reference leads to no definition. -/
  | unknownReference (kind : DefinitionKind) (id : String)
  /-- A definition contains itself. -/
  | circularReference (id : String)
  /-- A child has to occur more often than it may. -/
  | reversedOccurs (target : String) (min max : Nat)
  /-- A discriminator names no position. -/
  | discriminatorPosition (fault : Position.Fault)
  /-- The root loop has implementations. -/
  | polymorphicRoot (id : String)
  /-- A loop inside another loop does not start with a segment. -/
  | noLeadingSegment (path : String)
  /-- A loop with implementations does not start with a segment. -/
  | implementationsWithoutLeading (path : String)
  /-- A loop with implementations starts with a segment that has some too. -/
  | polymorphicLeading (path tag : String)
  /-- An implementation of a loop starts differently from the loop. -/
  | implementationStart (path tag : String)
  /-- An implementation of a segment has another tag. -/
  | implementationTag (implementation path tag : String)
  /-- An implementation of a segment has implementations itself. -/
  | nestedImplementations (implementation path : String)
  deriving DecidableEq, Repr

/-- The wording of a fault. -/
def Fault.message : Fault → String
  | versionRange fault => fault.message
  | reversedLengths id min max =>
      s!"element type '{id}': minLength {min} exceeds maxLength {max}"
  | reversedLengthsFor id min max range =>
      s!"element type '{id}': minLength {min} exceeds maxLength {max} for versions " ++
        Text.quotedOption range.min ++ "..=" ++ Text.quotedOption range.max
  | duplicateId id => s!"duplicate definition id '{id}'"
  | segmentAndLoop id => s!"id '{id}' names both a segment and a loop"
  | elementAndComposite id => s!"id '{id}' names both an element and a composite"
  | unknownReference kind id => s!"unknown {kind.name} reference '{id}'"
  | circularReference id => s!"circular reference involving '{id}'"
  | reversedOccurs target min max =>
      s!"{target}: min_occurs {min} exceeds max_occurs {max}"
  | discriminatorPosition fault => fault.message
  | polymorphicRoot id => s!"root loop '{id}' cannot declare implementations"
  | noLeadingSegment path => s!"loop '{path}' must start with a segment"
  | implementationsWithoutLeading path =>
      s!"loop '{path}' has implementations but does not start with a segment"
  | polymorphicLeading path tag =>
      s!"loop '{path}' has implementations and so cannot start with polymorphic segment '{tag}'"
  | implementationStart path tag =>
      s!"implementation '{path}' must start with segment '{tag}'"
  | implementationTag implementation path tag =>
      s!"implementation '{implementation}' of segment '{path}' has tag '{tag}'"
  | nestedImplementations implementation path =>
      s!"implementation '{implementation}' of segment '{path}' cannot nest implementations"

/-- Why there is no schema. -/
inductive Error where
  /-- No file of the name in any of the search paths. -/
  | notFound (name : String) (paths : List String)
  /-- The file is there and cannot be read. -/
  | unreadable
  /-- The text is not of its notation, or not a schema description. -/
  | malformed (format : Format)
  /-- A maximum is given by a word other than the one that lifts it. -/
  | unknownMaximum (word : String)
  /-- A definition is refused. -/
  | invalid (fault : Fault)
  /-- Matching would be ambiguous. -/
  | ambiguous (defects : List Violation)
  deriving DecidableEq, Repr

/-- The wording of an error. -/
def Error.message : Error → String
  | notFound name paths =>
      s!"Schema not found: Schema {name} not found in search paths: " ++ Text.quotedList paths
  | unreadable => "IO error"
  | malformed format => format.complaint
  | unknownMaximum word =>
      s!"Invalid schema format: max_occurs must be a number or 'unbounded', found '{word}'"
  | invalid fault => s!"Invalid schema definition: {fault.message}"
  | ambiguous defects => s!"Ambiguous schema definition ({defects.length} defects)"

end Interchange.Schema
