import Interchange.Position

/-!
# Locations

Where a finding lies: which segment of the stream, which slot of it, and which path
through the schema led there. A finding about the schema itself has a path only.
-/

namespace Interchange

/-- Where in the stream, and where in the schema, something was found. -/
structure Location where
  /-- How many segments had been started, this one included; 0 for none. -/
  segmentIndex : Nat := 0
  /-- Tag of that segment. -/
  segmentTag : Option String := none
  /-- The slot inside the segment, for findings about data. -/
  position : Option Position := none
  /-- Which repetition of the element, from 0. -/
  repetition : Option Nat := none
  /-- Path of definitions from the root loop, such as `ROOT/L0100/N1`. -/
  schemaPath : String := ""
  deriving DecidableEq, Repr

namespace Location

/-- The location of a whole segment. -/
def ofSegment (index : Nat) (tag path : String) : Location where
  segmentIndex := index
  segmentTag := some tag
  schemaPath := path

/-- The location of a definition, outside any stream. -/
def ofSchema (path : String) : Location where
  schemaPath := path

/-- The same location, narrowed to one slot of the segment. -/
def narrow (l : Location) (position : Position) (repetition : Nat) : Location :=
  { l with position := some position, repetition := some repetition }

/-- How a location is written in messages. -/
def text (l : Location) : String :=
  let place :=
    match l.segmentTag with
    | some tag => s!"segment {l.segmentIndex} ({tag})"
    | none => "schema"
  let slot :=
    match l.position with
    | some position => " element " ++ position.text
    | none => ""
  let path := if l.schemaPath = "" then "" else " at " ++ l.schemaPath
  place ++ slot ++ path

end Location

end Interchange
