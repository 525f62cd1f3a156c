import LayeredConfig.Error
import LayeredConfig.Files.Path
/-!
# Disks

A disk holds files and directories below the directory in which the program works. Reading a file
follows its path component by component; outside of that directory nothing is known but that there
are directories above it.
-/
namespace LayeredConfig.Files

/-- What stands at a place. A file whose bytes are no text is only known to be there. -/
inductive Node where
  | directory
  | text (content : String)
  | binary
  deriving DecidableEq, Repr

/-- How the content of a file is got. -/
abbrev Reader := String → Except FileFault String

/-- Nodes by the names that lead to them; the directory at the top is always there. What was found
out about whole paths in another way comes before that. -/
structure Disk where
  nodes : List (List String × Node) := []
  known : List (String × Except FileFault String) := []

/-- The most bytes that a component may have. -/
def nameMax : Nat := 255

/-- Paths have fewer bytes than this. -/
def pathMax : Nat := 4096

namespace Disk

def empty : Disk := {}

def node? (d : Disk) (place : List String) : Option Node :=
  if place.isEmpty then some .directory else d.nodes.lookup place

/-- The node at the end of a path that starts at a directory. Above the one at the top there is
always another one. -/
def walk (d : Disk) (place : List String) : List String → Except FileFault Node
  | [] => .ok .directory
  | name :: rest =>
    if name.isEmpty || name == "." then d.walk place rest
    else if name == ".." then
      if place.isEmpty then empty.walk [] rest else d.walk place.dropLast rest
    else if nameMax < name.utf8ByteSize then .error .nameTooLong
    else match d.node? (place ++ [name]) with
      | none => .error .notFound
      | some .directory => d.walk (place ++ [name]) rest
      | some file => if rest.isEmpty then .ok file else .error .notADirectory

/-- The content of the file at the end of a path. -/
def find (d : Disk) (path : String) : Except FileFault String :=
  if path.toList.contains '\x00' then .error .nulInName
  else if path.isEmpty then .error .notFound
  else if pathMax ≤ path.utf8ByteSize then .error .nameTooLong
  else
    let start := if isAbsolute path then empty else d
    match start.walk [] (pieces path) with
    | .error fault => .error fault
    | .ok .directory => .error .isADirectory
    | .ok .binary => .error .notUtf8
    | .ok (.text content) => .ok content

def read (d : Disk) : Reader := fun path =>
  (d.known.lookup path).getD (d.find path)

/-- The place that a path leads to, if everything on the way to it is a directory. -/
def place (path : String) : List String :=
  ((pieces path).filter fun name => !name.isEmpty && name != ".").foldl
    (fun place name => if name == ".." then place.dropLast else place ++ [name]) []

/-- The disk with a node at a place. -/
def put (d : Disk) (place : List String) (node : Node) : Disk :=
  { d with nodes := (place, node) :: d.nodes.filter fun (other, _) => other != place }

/-- The disk with directories at a place and above it. -/
def makeDirectories (d : Disk) (place : List String) : Disk :=
  (List.range place.length).foldl (fun d n => d.put (place.take (n + 1)) .directory) d

/-- The disk with a file at a path; the directories that it needs are made. -/
def write (d : Disk) (path : String) (node : Node) : Disk :=
  let target := place path
  (d.makeDirectories target.dropLast).put target node

/-- The disk with a directory at a path. -/
def makeDirectory (d : Disk) (path : String) : Disk :=
  d.makeDirectories (place path)

/-- The disk without what a path leads to. -/
def remove (d : Disk) (path : String) : Disk :=
  let target := place path
  { d with nodes := d.nodes.filter fun (other, _) => !target.isPrefixOf other }

end Disk
end LayeredConfig.Files
