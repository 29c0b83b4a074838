import Interchange.Schema.Resolver

/-!
# Schemas from text

A text that is not of its notation, and one that does not describe a schema, are malformed
alike.
-/

namespace Interchange.Schema

/-- The schema that a text describes. -/
def ofText (format : Format) (text : String) : Except Error Schema :=
  match (format.parse? text).bind Description.ofDatum? with
  | some description => description.toSchema
  | none => .error (.malformed format)

end Interchange.Schema
