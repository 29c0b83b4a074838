/-!
# Files

What a catalog of schemas needs to know of files: which paths exist and what they hold.
`Files` is a tree of directories as it is seen from one of them, the present directory. A
path is read step by step: an empty step and `.` stay where they are, `..` goes back up, and
every step has to start from a directory that exists. Nothing is known of the directories
above the present one except what has been written there.
-/

namespace Interchange.Catalog

/-- A path as a list of names. Without detours it names a place: below the present directory,
after some `..` below a directory above it, or after `/` below the top of all directories. -/
abbrev Steps := List String

/-- A tree of directories. Places are written as paths without detours. -/
structure Files where
  /-- The contents of the files, by place. -/
  contents : List (String × String) := []
  /-- The places of the directories that have been made. -/
  directories : List String := []

namespace Files

/-! ### Paths -/

/-- The steps of a path as they are written. -/
def steps (path : String) : Steps := (path.toList.splitOn '/').map String.ofList

/-- Whether a path starts at the top of all directories. -/
def isAbsolute (path : String) : Bool := path.toList.head? == some '/'

/-- The path of `name` below `path`; an absolute name stands for itself. -/
def join (path name : String) : String :=
  if isAbsolute name then name
  else if path = "" ∨ path.toList.getLast? = some '/' then path ++ name
  else path ++ "/" ++ name

/-- The last name of a path that does not end in `..`. -/
def fileName? (path : String) : Option String :=
  match (steps path).reverse.filter (fun step => step ≠ "" ∧ step ≠ ".") with
  | name :: _ => if name = ".." then none else some name
  | [] => none

/-- The part of a path's last name after its last point. A point in front of a name does
not count. -/
def extension? (path : String) : Option String :=
  (fileName? path).bind fun name =>
    match name.toList.reverse.span (· ≠ '.') with
    | (after, '.' :: before) =>
        if before.isEmpty then none else some (String.ofList after.reverse)
    | _ => none

/-! ### Places -/

/-- Whether a path can lead anywhere: it has some and fewer than 4096 bytes, none of them
zero. -/
def isPath (path : String) : Bool :=
  0 < path.utf8ByteSize && path.utf8ByteSize < 4096 && !path.toList.contains '\x00'

/-- Whether a step can be the name of something: it has at most 255 bytes. -/
def isName (step : String) : Bool := step.utf8ByteSize ≤ 255

/-- Where a path starts. -/
def start (path : String) : Steps := if isAbsolute path then ["/"] else []

/-- Where one step leads from a directory. Going up from the top leads to the top. -/
def enter (place : Steps) (step : String) : Steps :=
  if step = "" ∨ step = "." then place
  else if step = ".." then
    if place = ["/"] then place
    else if place.all (· == "..") then place ++ [".."]
    else place.dropLast
  else place ++ [step]

/-- The path of a place. -/
def pathOf (place : Steps) : String := "/".intercalate place

/-- Whether there is a directory at a place: the present one, one above it, the top, or one
that has been made. -/
def isDirectory (f : Files) (place : Steps) : Bool :=
  place.all (· == "..") || place == ["/"] || f.directories.contains (pathOf place)

/-- The content of the file at a place. -/
def contentAt? (f : Files) (place : Steps) : Option String := f.contents.lookup (pathOf place)

/-- Where steps lead from a place, `none` when they pass through something that is no
directory. -/
def follow? (f : Files) : (place : Steps) → Steps → Option Steps
  | place, [] => some place
  | place, step :: rest =>
      if f.isDirectory place && isName step then follow? f (enter place step) rest else none

/-- Where a path leads. There need be nothing at the place itself. -/
def locate? (f : Files) (path : String) : Option Steps :=
  if isPath path then f.follow? (start path) (steps path) else none

/-! ### Contents -/

/-- The content of a file. -/
def read? (f : Files) (path : String) : Option String :=
  (f.locate? path).bind f.contentAt?

/-- Whether there is a file or directory. -/
def exists? (f : Files) (path : String) : Bool :=
  match f.locate? path with
  | some place => f.isDirectory place || (f.contentAt? place).isSome
  | none => false

/-- The files with a directory at the end of each step. A file that is in the way ends the
way. -/
def makeDirectories (f : Files) (place : Steps) : Steps → Files
  | [] => f
  | step :: rest =>
      let next := enter place step
      if f.isDirectory next then makeDirectories f next rest
      else if (f.contentAt? next).isSome || !isName step then f
      else makeDirectories { f with directories := pathOf next :: f.directories } next rest

/-- The steps to the directory in which a path names something. -/
def parent (path : String) : Steps :=
  ((steps path).reverse.dropWhile fun step => step = "" ∨ step = ".").tail.reverse

/-- The files with one of the given content, which can not take the place of a directory. The
directories on the way to it are made where they are missing. -/
def write (f : Files) (path content : String) : Files :=
  if isPath path then
    let f := f.makeDirectories (start path) (parent path)
    match f.locate? path with
    | some place =>
        if f.isDirectory place then f
        else
          let others := f.contents.filter (·.1 ≠ pathOf place)
          { f with contents := (pathOf place, content) :: others }
    | none => f
  else f

/-- The files without the one at a path. -/
def remove (f : Files) (path : String) : Files :=
  match f.locate? path with
  | some place => { f with contents := f.contents.filter (·.1 ≠ pathOf place) }
  | none => f

end Files

end Interchange.Catalog
