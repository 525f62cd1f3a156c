import LayeredConfig.Tree.Basic
/-!
# Merging trees

Laying one tree over another: objects are merged field by field, and any other value replaces what
was there, arrays included.
-/
namespace LayeredConfig

namespace Value

mutual

/-- What is left when a value is laid over what was there. -/
def laidOver (base : Option Value) : Value → Value
  | .obj fields =>
    match base with
    | some (.obj under) => .obj (mergeFields under fields)
    | _ => .obj fields
  | v => v
termination_by structural v => v

/-- The fields of `base` with those of an object laid over them. -/
def mergeFields (base : Fields) : Fields → Fields
  | [] => base
  | (k, v) :: rest => mergeFields (Fields.insert k (laidOver (Fields.get? base k) v) base) rest
termination_by structural fields => fields

end

mutual

/-- A value in order laid over one in order is in order. -/
theorem Ordered.laidOver : ∀ {v : Value} {base : Option Value}, v.Ordered →
    (∀ b ∈ base, b.Ordered) → (laidOver base v).Ordered
  | .null, _, _, _ | .bool _, _, _, _ | .int _, _, _, _ | .float _, _, _, _ | .str _, _, _, _ =>
    trivial
  | .arr _, _, ordered, _ => ordered
  | .obj fields, base, ordered, below => by
    cases base with
    | none => exact ordered
    | some under =>
      cases under with
      | obj under => exact Ordered.mergeFields ordered.2 (below _ rfl)
      | _ => exact ordered
termination_by structural v => v

theorem Ordered.mergeFields : ∀ {fields base : Fields}, OrderedFields fields →
    (Value.obj base).Ordered → (Value.obj (mergeFields base fields)).Ordered
  | [], _, _, below => below
  | (key, v) :: rest, base, ordered, below => by
    have under : ∀ b ∈ Fields.get? base key, b.Ordered := fun _ field => below.2.of_get? field
    have placed := Ordered.laidOver ordered.1 under
    rw [Value.mergeFields]
    exact Ordered.mergeFields ordered.2 (below.insert placed key)
termination_by structural fields => fields

end

end Value

namespace Tree

def mergedWith (base overlay : Tree) : Tree :=
  ⟨Value.mergeFields base.root overlay.root,
    Value.Ordered.mergeFields overlay.ordered.2 base.ordered⟩

@[simp] theorem mergedWith_empty (t : Tree) : t.mergedWith empty = t := rfl

/-- Trees laid over each other from the first to the last. -/
def mergeAll (trees : List Tree) : Tree :=
  trees.foldl mergedWith empty

@[simp] theorem mergeAll_nil : mergeAll [] = empty := rfl

theorem mergeAll_append_singleton (trees : List Tree) (t : Tree) :
    mergeAll (trees ++ [t]) = (mergeAll trees).mergedWith t := by
  simp [mergeAll]

end Tree
end LayeredConfig
