import LayeredConfig.Text.Pieces
/-!
# Paths of files

A path is a text whose components are separated by slashes; it is absolute if it begins with one.
-/
namespace LayeredConfig.Files

/-- The pieces between slashes, empty ones included. -/
def pieces (path : String) : List String :=
  (path.toList.splitOn '/').map String.ofList

/-- The path begins at the root of all files. -/
def isAbsolute (path : String) : Bool :=
  path.toList.head? == some '/'

/-- The path of `part` seen from `base`: an absolute part stands for itself, and a slash is put
between the two unless `base` is empty or ends with one. -/
def join (base part : String) : String :=
  if isAbsolute part then part
  else if base.isEmpty || base.toList.getLast? == some '/' then base ++ part
  else base ++ "/" ++ part

/-- The components by which paths are told apart: a slash at the front counts as one, and neither
empty pieces nor points behind the front do. -/
def components (path : String) : List String :=
  let named (pieces : List String) := pieces.filter fun piece => !piece.isEmpty && piece != "."
  if isAbsolute path then "/" :: named (pieces path)
  else match pieces path with
    | "." :: rest => "." :: named rest
    | all => named all

/-- The last component, if it is the name of a file. -/
def fileName? (path : String) : Option String :=
  match (components path).getLast? with
  | some name => if name == "/" || name == "." || name == ".." then none else some name
  | none => none

/-- What stands behind the last point of the file name; a name that has no other point than one at
its front has no extension. -/
def extension (path : String) : String :=
  match (fileName? path).bind fun name => Text.cutAtLast '.' name.toList with
  | some (_ :: _, after) => String.ofList after
  | _ => ""

end LayeredConfig.Files
