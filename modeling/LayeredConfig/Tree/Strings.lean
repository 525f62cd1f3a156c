import LayeredConfig.Tree.Basic
/-!
# Visiting the strings of a tree

Every string of a tree is shown to a visitor together with its path, in document order: fields in
the order of their names, items by index. The visitor may replace the string, keep state, or fail.
-/
namespace LayeredConfig

namespace Value

mutual

/-- The value with every string in it shown to the visitor; `path` leads to the value. -/
def mapStrings {m : Type → Type} [Monad m] (visit : String → String → m (Option String))
    (path : String) : Value → m Value
  | .str s => do
    match ← visit path s with
    | some replaced => pure (.str replaced)
    | none => pure (.str s)
  | .arr items => do pure (.arr (← mapItemStrings visit path 0 items))
  | .obj fields => do pure (.obj (← mapFieldStrings visit (some path) fields))
  | v => pure v
termination_by structural v => v

/-- The items of an array from an index on. -/
def mapItemStrings {m : Type → Type} [Monad m] (visit : String → String → m (Option String))
    (path : String) (index : Nat) : List Value → m (List Value)
  | [] => pure []
  | v :: rest => do
    let v ← mapStrings visit (path ++ "." ++ toString index) v
    pure (v :: (← mapItemStrings visit path (index + 1) rest))
termination_by structural items => items

/-- The fields of an object; the root has no path. -/
def mapFieldStrings {m : Type → Type} [Monad m] (visit : String → String → m (Option String))
    (path : Option String) : Fields → m Fields
  | [] => pure []
  | (k, v) :: rest => do
    let v ← mapStrings visit (match path with | some p => p ++ "." ++ k | none => k) v
    pure ((k, v) :: (← mapFieldStrings visit path rest))
termination_by structural fields => fields

end

end Value

namespace Tree

/-- The tree with every string in it shown to the visitor. -/
def mapStrings {m : Type → Type} [Monad m] (visit : String → String → m (Option String))
    (t : Tree) : m Tree := do
  pure (ofFields (← Value.mapFieldStrings visit none t.root))

end Tree
end LayeredConfig
