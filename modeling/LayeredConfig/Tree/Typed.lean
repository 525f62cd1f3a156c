import LayeredConfig.Json.Reader
import LayeredConfig.Shape
import LayeredConfig.Tree.Path
/-!
# Reading typed values from a tree

The value at a path is read as a shape. A string that does not have the shape is read once more as
the JSON scalar that it spells; the error is always that of the first attempt.
-/
namespace LayeredConfig

namespace Value

/-- The scalar that a text spells in JSON. -/
def spelledScalar? (text : String) : Option Value :=
  match Json.read (Text.trim text) with
  | some (.arr _) | some (.obj _) | none => none
  | some v => some v

/-- What a text from an untyped place stands for: a boolean or a number if it spells one, else the
text itself. -/
def ofText (text : String) : Value :=
  match Json.read (Text.trim text) with
  | some (.bool b) => .bool b
  | some (.int i) => .int i
  | some (.float x) => .float x
  | _ => .str text

theorem ordered_ofText (text : String) : (ofText text).Ordered := by
  unfold ofText
  split <;> trivial

/-- Reads a value as a shape, a string if need be as the scalar that it spells. -/
def coerce (shape : Shape) (path : String) (v : Value) : Except ConfigError Value :=
  match shape.read v with
  | .ok read => .ok read
  | .error first =>
    match v.text?.bind spelledScalar? with
    | none => .error (.extract path first.message)
    | some scalar =>
      match shape.read scalar with
      | .ok read => .ok read
      | .error _ => .error (.extract path first.message)

end Value

namespace Tree

/-- The value at a path read as a shape; nothing where the path leads nowhere. -/
def getAs (t : Tree) (shape : Shape) (path : String) : Except ConfigError (Option Value) :=
  match t.get? path with
  | none => .ok none
  | some v => (v.coerce shape path).map some

end Tree
end LayeredConfig
