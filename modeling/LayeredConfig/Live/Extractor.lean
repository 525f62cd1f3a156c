import LayeredConfig.Live.Script
import LayeredConfig.Mapper
import LayeredConfig.Tree.Typed
/-!
# Extractors

The usual rules by which derived cells follow the tree.
-/
namespace LayeredConfig.Live.Extractor

/-- The value at a path read as a shape; nothing if the path leads nowhere. -/
def atPath (shape : Shape) (path : String) : Extractor := fun t => t.getAs shape path

/-- The value at a path, or the whole tree for a blank path, read as a shape after a mapper has
prepared it. -/
def bean (mapper : Mapper) (shape : Shape) (path : String) : Extractor :=
  let path := Text.trim path
  fun t =>
    let found := if path.isEmpty then some t.toValue else t.get? path
    match found with
    | none => .ok none
    | some v => (mapper.mapBean shape v path).map some

def whole : Extractor := fun t => .ok (some t.toValue)

end LayeredConfig.Live.Extractor
