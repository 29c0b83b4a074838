import Interchange.Json.Parser
import Interchange.Yaml.Parser

/-!
# Notations

Schemas and configurations are written in JSON or in YAML.
-/

namespace Interchange

/-- A notation for structured data. -/
inductive Format where
  | json
  | yaml
  deriving DecidableEq, Repr

namespace Format

/-- What a notation is called. -/
def name : Format → String
  | json => "JSON"
  | yaml => "YAML"

/-- The data that a text denotes, `none` when the text is not of the notation. -/
def parse? : Format → String → Option Datum
  | json, text => Json.parse? text
  | yaml, text => Yaml.parse? text

/-- The report on a text that is not of the notation or does not say what it should. -/
def complaint (f : Format) : String := f.name ++ " parse error"

end Format

end Interchange
