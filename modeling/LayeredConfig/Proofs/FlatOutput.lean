import LayeredConfig.Command.Flat
import LayeredConfig.Proofs.Paths
/-!
# Flat output and paths

Flat output has one line for every leaf of a value. Each line begins with a path, and at this path
the leaf is found again. The path that was asked for is printed as it was given, blanks and all;
this does no harm, because blanks in paths do not matter.

Main statements: `flatLines_eq`, which says what the lines are, and `lines_address_leaves`.
-/
namespace LayeredConfig

namespace Value

/-- Nothing stands below the value: it is a scalar, or an array or an object without content. -/
def isLeaf : Value → Bool
  | .arr items => items.isEmpty
  | .obj fields => fields.isEmpty
  | _ => true

/-- The leaves of a value. -/
def leafParts (v : Value) : List Part := v.parts.filter fun part => part.value.isLeaf

theorem parts_of_isLeaf {v : Value} (leaf : v.isLeaf = true) : v.parts = [⟨[], v⟩] := by
  cases v with
  | arr items =>
    obtain rfl : items = [] := by simpa [isLeaf] using leaf
    rfl
  | obj fields =>
    obtain rfl : fields = [] := by simpa [isLeaf] using leaf
    rfl
  | _ => rfl

theorem enumerates_leafParts {v : Value} (ordered : v.Ordered) :
    v.Enumerates (fun w => w.isLeaf = true) v.leafParts :=
  enumerates_filter ordered isLeaf

theorem leafParts_of_isLeaf {v : Value} (leaf : v.isLeaf = true) : v.leafParts = [⟨[], v⟩] := by
  simp [leafParts, parts_of_isLeaf leaf, leaf]

end Value

namespace Command

/-- The path to the end of a route from another path. -/
def belowAll (path : String) (route : Route) : String :=
  route.foldl (fun path b => below path b.segment) path

/-- The line of a leaf of the value at a path. -/
def partLine (path : String) (part : Part) : String :=
  leafLine (belowAll path part.route) part.value

/-! ### A line for every leaf -/

theorem flatLines_of_isLeaf (path : String) {v : Value} (leaf : v.isLeaf = true) :
    flatLines path v = v.leafParts.map (partLine path) := by
  rw [Value.leafParts_of_isLeaf leaf]
  cases v with
  | arr items =>
    obtain rfl : items = [] := by simpa [Value.isLeaf] using leaf
    rfl
  | obj fields =>
    obtain rfl : fields = [] := by simpa [Value.isLeaf] using leaf
    rfl
  | _ => rfl

mutual

/-- The lines are those of the leaves. -/
theorem flatLines_eq : ∀ (v : Value) (path : String),
    flatLines path v = v.leafParts.map (partLine path)
  | .null, path | .bool _, path | .int _, path | .float _, path | .str _, path =>
    flatLines_of_isLeaf path rfl
  | .arr [], path | .obj [], path => flatLines_of_isLeaf path rfl
  | .arr (first :: rest), path => flatItems_eq (first :: rest) path 0
  | .obj (first :: rest), path => flatFields_eq (first :: rest) path
termination_by structural v => v

theorem flatItems_eq : ∀ (items : List Value) (path : String) (index : Nat),
    flatItems path index items =
      ((Value.itemParts index items).filter fun part => part.value.isLeaf).map (partLine path)
  | [], _, _ => rfl
  | v :: rest, path, index => by
    rw [flatItems, Value.filter_itemParts, flatLines_eq v, flatItems_eq rest, List.map_append,
      List.map_map]
    rfl
termination_by structural items => items

theorem flatFields_eq : ∀ (fields : Fields) (path : String),
    flatFields path fields =
      ((Value.fieldParts fields).filter fun part => part.value.isLeaf).map (partLine path)
  | [], _ => rfl
  | (k, v) :: rest, path => by
    rw [flatFields, Value.filter_fieldParts, flatLines_eq v, flatFields_eq rest, List.map_append,
      List.map_map]
    rfl
termination_by structural fields => fields

end

/-! ### The paths of the lines -/

theorem pathSegments_below (path key : String) :
    pathSegments (below path key) = pathSegments path ++ pathSegments key := by
  rw [below]
  split
  next empty =>
    obtain rfl : path = "" := by simpa using empty
    rw [pathSegments_of_blank .empty, List.nil_append]
  · exact pathSegments_append path key

theorem pathSegments_belowAll {route : Route} (plain : route.Plain) (path : String) :
    pathSegments (belowAll path route) = pathSegments path ++ route.map Branch.segment := by
  induction route generalizing path with
  | nil => simp [belowAll]
  | cons b route ih =>
    obtain ⟨here, later⟩ := Route.plain_cons_iff.1 plain
    calc pathSegments (belowAll path (b :: route))
        = pathSegments (belowAll (below path b.segment) route) := rfl
      _ = pathSegments (below path b.segment) ++ route.map Branch.segment := ih later _
      _ = pathSegments path ++ (b :: route).map Branch.segment := by
          rw [pathSegments_below, here.pathSegments, List.append_assoc]
          rfl

/-! ### The value that is asked for -/

section Selection

variable {t : Tree} {path : Option String} {v : Value}

theorem select_eq_ok_iff : select t path = .ok v ↔
    (path.bind Text.trimToOption = none ∧ t.toValue = v) ∨
      ∃ trimmed, path.bind Text.trimToOption = some trimmed ∧ t.get? trimmed = some v := by
  unfold select
  cases path.bind Text.trimToOption with
  | none => simp
  | some trimmed => cases found : t.get? trimmed <;> simp [found]

/-- The path as it was given has the segments of the one that is looked up. -/
theorem pathSegments_given (path : Option String) : pathSegments (path.getD "") =
    ((path.bind Text.trimToOption).map pathSegments).getD [] := by
  cases path with
  | none => exact pathSegments_of_blank .empty
  | some path =>
    have segments : pathSegments (Text.trim path) = pathSegments path := pathSegments_trim path
    by_cases empty : Text.trim path = ""
    · rw [empty, pathSegments_of_blank .empty] at segments
      simp [Text.trimToOption, empty, ← segments]
    · simp [Text.trimToOption, empty, segments]

/-- What is selected stands at the end of the path as it was given. -/
theorem walk?_of_select (selected : select t path = .ok v) :
    t.toValue.walk? (pathSegments (path.getD "")) = some v := by
  rw [pathSegments_given]
  rcases select_eq_ok_iff.1 selected with ⟨whole, rfl⟩ | ⟨trimmed, given, found⟩
  · rw [whole]
    rfl
  · rw [given]
    exact Tree.walk?_of_get? found

/-- There is a segment in the path to each leaf, unless all of an empty tree is asked for. -/
theorem segments_nonempty (selected : select t path = .ok v)
    (content : path.bind Text.trimToOption = none → t.isEmpty = false) {part : Part}
    (member : part ∈ v.leafParts) :
    pathSegments (path.getD "") ++ part.route.map Branch.segment ≠ [] := by
  rw [pathSegments_given]
  rcases select_eq_ok_iff.1 selected with ⟨whole, rfl⟩ | ⟨trimmed, given, found⟩
  · -- a tree with content is no leaf, and so the route has a branch
    intro empty
    obtain ⟨member, leaf⟩ := List.mem_filter.1 member
    obtain ⟨route, w⟩ := part
    obtain rfl : route = [] := by simpa [whole] using empty
    obtain rfl : w = t.toValue := Value.nil_mem_parts.1 member
    have nonempty := content whole
    simp [Tree.isEmpty] at nonempty
    simp [Tree.toValue, Value.isLeaf, nonempty] at leaf
  · simp [given, Tree.segments_of_get? found]

end Selection

/-! ### Leaves and their paths -/

/-- A line of flat output: a path, and the leaf that stands behind it. -/
structure FlatEntry where
  path : String
  leaf : Part

def FlatEntry.line (e : FlatEntry) : String := e.path ++ " = " ++ Json.write e.leaf.value

/-- The entries give for each leaf of a value a path at which the leaf is found in the tree, where
`given` is a path to the value. -/
structure Addresses (t : Tree) (given : String) (v : Value) (entries : List FlatEntry) :
    Prop where
  /-- There is one entry for every leaf, in document order. -/
  leaves : v.Enumerates (fun w => w.isLeaf = true) (entries.map FlatEntry.leaf)
  /-- The path goes on from the one to the value along the route to the leaf. -/
  segments : ∀ e ∈ entries,
    pathSegments e.path = pathSegments given ++ e.leaf.route.map Branch.segment
  found : ∀ e ∈ entries, t.get? e.path = some e.leaf.value
  distinct : (entries.map FlatEntry.path).Nodup

/-- The entries of the leaves of a value at a path. -/
def entries (given : String) (v : Value) : List FlatEntry :=
  v.leafParts.map fun part => ⟨belowAll given part.route, part⟩

theorem flatLines_eq_entries (given : String) (v : Value) :
    flatLines given v = (entries given v).map FlatEntry.line := by
  rw [flatLines_eq, entries, List.map_map]
  rfl

section Entries

variable {t : Tree} {given : String} {v : Value}

/-- The path to a leaf goes on from the one to the value along the route to the leaf. -/
theorem pathSegments_leaf (given : String) (ordered : v.Ordered) (plain : v.PlainKeys)
    {part : Part} (member : part ∈ v.leafParts) : pathSegments (belowAll given part.route) =
      pathSegments given ++ part.route.map Branch.segment := by
  have reached := (Value.enumerates_leafParts ordered).reached member
  exact pathSegments_belowAll (plain.plain_route reached) given

theorem addresses_entries (walked : t.toValue.walk? (pathSegments given) = some v)
    (ordered : v.Ordered) (plain : v.PlainKeys) (indexable : v.Indexable)
    (nonempty : ∀ part ∈ v.leafParts,
      pathSegments given ++ part.route.map Branch.segment ≠ []) :
    Addresses t given v (entries given v) := by
  have leaves := Value.enumerates_leafParts ordered
  have segments (part : Part) (member : part ∈ v.leafParts) :=
    pathSegments_leaf given ordered plain member
  constructor
  · simpa [entries, Function.comp_def] using leaves
  · intro e listed
    obtain ⟨part, member, rfl⟩ := List.mem_map.1 listed
    exact segments part member
  · intro e listed
    obtain ⟨part, member, rfl⟩ := List.mem_map.1 listed
    -- the lookup walks to the value and then along the route to the leaf
    have further := nonempty part member
    rw [← segments part member] at further
    rw [Tree.get?_of_segments further, segments part member, Value.walk?_append, walked]
    exact Value.walk?_segments indexable (leaves.reached member)
  · rw [entries, List.map_map]
    exact leaves.nodup_paths segments

end Entries

/-- Flat output addresses every leaf of the value that is asked for. -/
theorem lines_address_leaves (t : Tree) (path : Option String) (v : Value)
    (plain : t.toValue.PlainKeys) (indexable : t.toValue.Indexable)
    (selected : select t path = .ok v)
    (content : path.bind Text.trimToOption = none → t.isEmpty = false) :
    ∃ entries, flatLines (path.getD "") v = entries.map FlatEntry.line ∧
      Addresses t (path.getD "") v entries := by
  have walked := walk?_of_select selected
  obtain ⟨base, reached⟩ := Value.exists_reach?_of_walk? walked
  refine ⟨entries (path.getD "") v, flatLines_eq_entries _ v, ?_⟩
  exact addresses_entries walked (t.ordered_toValue.below reached) (plain.below reached)
    (indexable.below reached) fun part member => segments_nonempty selected content member

/-- The path is given with blanks around it and with blank segments, and its index with a zero. -/
theorem lines_address_leaves_givenWithBlanks :
    let v : Value := .obj [("b", .obj []), ("c", .arr [.str "x", .null])]
    let t : Tree := { root := [("a", .arr [.bool true, v])] }
    let given := " a . . 01 "
    t.toValue.PlainKeys ∧ t.toValue.Indexable ∧ select t (some given) = .ok v ∧
    (∃ entries, flatLines given v = entries.map FlatEntry.line ∧ Addresses t given v entries) ∧
    flatLines given v =
      [" a . . 01 .b = \x7b\x7d", " a . . 01 .c.0 = \"x\"", " a . . 01 .c.1 = null"] ∧
    t.get? " a . . 01 .c.1" = some .null := by
  intro v t given
  have plain : t.toValue.PlainKeys := (Value.forall_reach?_iff t.ordered_toValue).2 (by decide)
  have indexable : t.toValue.Indexable := (Value.forall_reach?_iff t.ordered_toValue).2 (by decide)
  have selected : select t (some given) = .ok v := by
    simp only [v, t, given]
    rfl
  have content : t.isEmpty = false := rfl
  refine ⟨plain, indexable, selected, ?_, by decide, ?_⟩
  · exact lines_address_leaves t (some given) v plain indexable selected fun _ => content
  · simp only [v, t]
    rfl

end Command
end LayeredConfig
