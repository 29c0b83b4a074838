import Interchange.Catalog.Files
import Interchange.Catalog.Registry
import Interchange.Schema.Source
import Interchange.Text.LowerCase

/-!
# Catalogs of schemas

A catalog finds schemas by name. It looks into its registry first. A name that is not
there is looked for in the search paths, in order: the name in lower case, with the
endings `.json`, `.yaml` and `.yml` in turn. The first file that exists is the only
candidate, and a schema that was loaded is registered under the name that was asked for.
Nothing is registered when loading fails.
-/

namespace Interchange

/-- A registry with the paths in which missing schemas are looked for. -/
structure Catalog where
  registry : Catalog.Registry := {}
  paths : List String := ["."]

namespace Catalog

/-- The catalog with one more search path, after the others. -/
def addPath (c : Catalog) (path : String) : Catalog := { c with paths := c.paths ++ [path] }

/-- The notation of a file, by its name. -/
def formatOf (path : String) : Format :=
  match Files.extension? path with
  | some "yaml" | some "yml" => .yaml
  | _ => .json

/-- The schema that a file describes. -/
def loadFile (files : Files) (path : String) : Except Schema.Error Schema :=
  match files.read? path with
  | some text => Schema.ofText (formatOf path) text
  | none => .error .unreadable

/-- The files in which the schema of a name may be, the most preferred first. -/
def candidates (paths : List String) (name : String) : List String :=
  paths.flatMap fun path =>
    [".json", ".yaml", ".yml"].map fun ending =>
      Files.join path (Text.lowerCase name ++ ending)

/-- The schema of a name, looked for in the search paths. -/
def find (files : Files) (paths : List String) (name : String) : Except Schema.Error Schema :=
  match (candidates paths name).find? files.exists? with
  | some path => loadFile files path
  | none => .error (.notFound name paths)

/-- The schema of a name, and the catalog in which it is registered afterwards. -/
def load (c : Catalog) (files : Files) (name : String) :
    Except Schema.Error (Schema × Catalog) :=
  match c.registry.get? name with
  | some schema => .ok (schema, c)
  | none => do
      let schema ← find files c.paths name
      return (schema, { c with registry := c.registry.register name schema })

end Catalog

end Interchange
