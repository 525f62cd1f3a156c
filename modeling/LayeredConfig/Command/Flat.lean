import LayeredConfig.Json.Writer
import LayeredConfig.Text.Blank
import LayeredConfig.Tree.Path
/-!
# Flat output

A value as lines, one for every leaf: the path that leads to it and its JSON text. Arrays and
objects without content are leaves too.
-/
namespace LayeredConfig.Command

/-- The value that is asked for: the one at a path, or the whole tree if the path is blank. -/
def select (t : Tree) (path : Option String) : Except ConfigError Value :=
  match path.bind Text.trimToOption with
  | none => .ok t.toValue
  | some path =>
    match t.get? path with
    | some v => .ok v
    | none => .error (.extract path "no value at this path")

/-- The path to what a key leads to from another path. -/
def below (path key : String) : String :=
  if path.isEmpty then key else path ++ "." ++ key

def leafLine (path : String) (leaf : Value) : String :=
  path ++ " = " ++ Json.write leaf

mutual

/-- The lines of a value at a path. -/
def flatLines (path : String) : Value → List String
  | .arr items => if items.isEmpty then [leafLine path (.arr [])] else flatItems path 0 items
  | .obj fields => if fields.isEmpty then [leafLine path (.obj [])] else flatFields path fields
  | v => [leafLine path v]
termination_by structural v => v

/-- The lines of the items of an array from an index on. -/
def flatItems (path : String) (index : Nat) : List Value → List String
  | [] => []
  | v :: rest => flatLines (below path (toString index)) v ++ flatItems path (index + 1) rest
termination_by structural items => items

/-- The lines of the fields of an object. -/
def flatFields (path : String) : Fields → List String
  | [] => []
  | (k, v) :: rest => flatLines (below path k) v ++ flatFields path rest
termination_by structural fields => fields

end

end LayeredConfig.Command
