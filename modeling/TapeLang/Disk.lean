import TapeLang.Error
import TapeLang.Path

/-!
# Disks

A tree of directories and files, kept flat: each node under the names that lead to it from the root.  A path is walked
name by name from the root or from a working directory.  Reading needs a file at the end of the walk; writing needs a
directory before the last name, and never makes one.
-/

namespace TapeLang

/-- The names on the way from the root. -/
abbrev Place := List (List Char)

/-- What is at a place. -/
inductive Node where
  | directory
  | file (data : ByteArray) (executable : Bool)

/-- Whether a node is a directory. -/
def Node.isDirectory : Node → Bool
  | directory => true
  | file _ _ => false

/-- The nodes of a tree.  The root is always a directory. -/
structure Disk where
  /-- Every node but the root, with its place. -/
  nodes : List (Place × Node) := []

namespace Disk

/-- The node at a place. -/
def get? (d : Disk) (place : Place) : Option Node :=
  if place = [] then some .directory else (d.nodes.find? (·.1 = place)).map (·.2)

/-- Puts a node at a place, in the stead of one that is there. -/
def put (d : Disk) (place : Place) (node : Node) : Disk :=
  if d.nodes.any (·.1 = place) then ⟨d.nodes.map fun n => if n.1 = place then (place, node) else n⟩
  else ⟨d.nodes ++ [(place, node)]⟩

/-- Whether a directory is at a place. -/
def hasDirectory (d : Disk) (place : Place) : Bool := (d.get? place).any Node.isDirectory

/-- Makes a directory at a place, and on the way to it, where nothing is. -/
def makeDirectories (d : Disk) (place : Place) : Disk :=
  let ways := (List.range (place.length + 1)).map (place.take ·)
  ways.foldl (fun d way => if (d.get? way).isSome then d else d.put way .directory) d

/-- Everything below a place, with the way from there: a directory before what it holds, names in order. -/
def below (d : Disk) (place : Place) : List (Place × Node) :=
  let inside := d.nodes.filter fun n => place.isPrefixOf n.1 && place.length < n.1.length
  (inside.map fun n => (n.1.drop place.length, n.2)).mergeSort fun a b => (compare a.1 b.1).isLE

/-! ## Walking -/

/-- The largest size of a name, in bytes. -/
def nameLimit : Nat := 255

/-- Paths are shorter than this, in bytes. -/
def pathLimit : Nat := 4096

/-- The size of a text in bytes. -/
def byteSize (cs : List Char) : Nat := cs.foldl (fun n c => n + c.utf8Size) 0

/-- Whether a path can be walked at all. -/
def checkPath (path : List Char) : Except Fault Unit :=
  if path.contains '\x00' then .error .nulInName
  else if path = [] then .error .notFound
  else if pathLimit ≤ byteSize path then .error .nameTooLong
  else .ok ()

/-- One step of a walk. -/
def step (d : Disk) (place : Place) (piece : List Char) : Except Fault Place :=
  if !d.hasDirectory place then .error .notDirectory
  else if piece = [] ∨ piece = ['.'] then .ok place
  else if piece = ['.', '.'] then .ok place.dropLast
  else if nameLimit < byteSize piece then .error .nameTooLong
  else if (d.get? (place ++ [piece])).isSome then .ok (place ++ [piece])
  else .error .notFound

/-- A walk. -/
def walk (d : Disk) (place : Place) (pieces : List (List Char)) : Except Fault Place := pieces.foldlM d.step place

/-- Where a path starts, seen from a working directory. -/
def start (here : Place) (path : List Char) : Place := if Path.isAbsolute path then [] else here

/-- The place of something that exists. -/
def locate (d : Disk) (here : Place) (path : List Char) : Except Fault Place := do
  checkPath path
  d.walk (start here path) (Path.pieces path)

/-- Pieces up to the last one that is not empty. -/
def dropEmpty (pieces : List (List Char)) : List (List Char) := (pieces.reverse.dropWhile (·.isEmpty)).reverse

/-- The place of a file that may be made.  A path that ends like that of a directory is refused. -/
def target (d : Disk) (here : Place) (path : List Char) : Except Fault Place := do
  checkPath path
  let pieces := Path.pieces path
  let names := dropEmpty pieces
  let some name := names.getLast? | throw .isDirectory
  let parent ← d.walk (start here path) names.dropLast
  if !d.hasDirectory parent then throw .notDirectory
  if names.length < pieces.length ∨ name = ['.'] ∨ name = ['.', '.'] then throw .isDirectory
  if nameLimit < byteSize name then throw .nameTooLong
  return parent ++ [name]

/-! ## Operations -/

/-- Whether a path leads somewhere. -/
def contains (d : Disk) (here : Place) (path : List Char) : Bool := (d.locate here path).isOk

/-- The bytes of a file. -/
def read (d : Disk) (here : Place) (path : List Char) : Except Fault ByteArray := do
  match d.get? (← d.locate here path) with
  | some (.file data _) => return data
  | some .directory => throw .isDirectory
  | none => throw .notFound

/-- Fills a file, which is made if it is missing.  Whether it can be executed stays as it is. -/
def write (d : Disk) (here : Place) (path : List Char) (data : ByteArray) : Except Fault Disk := do
  let place ← d.target here path
  match d.get? place with
  | some (.file _ executable) => return d.put place (.file data executable)
  | some .directory => throw .isDirectory
  | none => return d.put place (.file data false)

/-- Lets everyone execute a file. -/
def makeExecutable (d : Disk) (here : Place) (path : List Char) : Except Fault Disk := do
  let place ← d.locate here path
  match d.get? place with
  | some (.file data _) => return d.put place (.file data true)
  | _ => return d

/-- The path of a place. -/
def pathTo (place : Place) : List Char := if place = [] then ['/'] else place.flatMap ('/' :: ·)

/-- The path of a place, if it can be walked. -/
def nameOf (place : Place) : Except Fault (List Char) :=
  if pathLimit ≤ byteSize (pathTo place) then .error .nameTooLong else .ok (pathTo place)

/-- The one path of what a path leads to that starts at the root and has no detours. -/
def canonical (d : Disk) (here : Place) (path : List Char) : Except Fault (List Char) := do
  nameOf (← d.locate here path)

end Disk
end TapeLang
