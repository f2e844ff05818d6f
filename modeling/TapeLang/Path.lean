/-!
# Paths

Paths are texts with `/` between names.  Empty names and `.` do not count, except a `.` at the very front of a relative
path; the last name may have an extension, which starts at its last dot unless that is its first character.
-/

namespace TapeLang.Path

/-- One step of a path. -/
inductive Component where
  /-- The root of an absolute path. -/
  | root
  /-- A `.` at the front. -/
  | here
  /-- A `..`. -/
  | up
  /-- A name. -/
  | name (text : List Char)
deriving DecidableEq

/-- The pieces between slashes. -/
def pieces : List Char → List (List Char)
  | [] => [[]]
  | c :: cs =>
    if c = '/' then [] :: pieces cs
    else
      match pieces cs with
      | [] => [[c]]
      | p :: ps => (c :: p) :: ps

/-- Whether a path starts at the root. -/
def isAbsolute (path : List Char) : Bool := path.head? == some '/'

/-- What a piece counts as behind the front of a path. -/
def component? (piece : List Char) : Option Component :=
  if piece = [] ∨ piece = ['.'] then none
  else if piece = ['.', '.'] then some .up
  else some (.name piece)

/-- The steps of a path. -/
def components (path : List Char) : List Component :=
  match pieces path with
  | [] => []
  | first :: rest =>
    let front :=
      if isAbsolute path then [.root]
      else if first = ['.'] then [.here]
      else (component? first).toList
    front ++ rest.filterMap component?

/-- The last step, if it is a name. -/
def fileName? (path : List Char) : Option (List Char) :=
  match (components path).getLast? with
  | some (.name n) => some n
  | _ => none

/-- A name cut at its last dot: what stands before it and after it.  No cut is made at a leading dot. -/
def splitExtension (name : List Char) : List Char × Option (List Char) :=
  let after := (name.reverse.takeWhile (· != '.')).reverse
  let before := (name.reverse.dropWhile (· != '.')).reverse.dropLast
  if before = [] then (name, none) else (before, some after)

/-- The last name without its extension. -/
def stem? (path : List Char) : Option (List Char) := (fileName? path).map fun n => (splitExtension n).1

/-- The extension of the last name. -/
def extension? (path : List Char) : Option (List Char) := (fileName? path).bind fun n => (splitExtension n).2

/-- A path without the slashes and dots behind its last name. -/
def dropTail (path : List Char) : List Char := (dropBack path.reverse).reverse
where
  /-- From the back: pieces that do not count are dropped with their slashes. -/
  dropBack : List Char → List Char
    | '/' :: cs => dropBack cs
    | '.' :: '/' :: cs => dropBack cs
    | cs => cs

/-- A path whose last name has no extension, given one.  A path without a last name stays as it is. -/
def addExtension (path extension : List Char) : List Char :=
  match fileName? path with
  | some _ => dropTail path ++ '.' :: extension
  | none => path

/-- A path, with an extension added if it has none. -/
def withDefaultExtension (path extension : List Char) : List Char :=
  if (extension? path).isSome then path else addExtension path extension

/-- A path taken from a directory: an absolute path stays as it is. -/
def join (directory path : List Char) : List Char :=
  if isAbsolute path then path
  else if directory = [] ∨ directory.getLast? = some '/' then directory ++ path
  else directory ++ '/' :: path

end TapeLang.Path
