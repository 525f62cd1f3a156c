import LayeredConfig.Decimal.Whole
import LayeredConfig.Text.Blank
import LayeredConfig.Text.Pieces
import LayeredConfig.Tree.Basic
/-!
# Dotted paths

A path is a text whose segments are separated by points. Blanks around a segment do not count, and
blank segments are left out. A segment names a field of an object or an item of an array.
-/
namespace LayeredConfig

def pathSegments (path : String) : List String :=
  ((path.toList.splitOn '.').map fun piece =>
    String.ofList (Text.trimChars piece)).filter fun segment => !segment.isEmpty

/-- The largest index of an item. -/
def indexMax : Nat := Width.unsignedMax 64

def arrayIndex? (segment : String) : Option Nat :=
  Decimal.natural? indexMax segment

namespace Value

def step? (v : Value) (segment : String) : Option Value :=
  match v with
  | .obj fields => Fields.get? fields segment
  | .arr items => (arrayIndex? segment).bind fun i => items[i]?
  | _ => none

/-- The value at the end of a list of segments. -/
def walk? (v : Value) : List String → Option Value
  | [] => some v
  | segment :: rest => (v.step? segment).bind fun next => next.walk? rest

@[simp] theorem walk?_nil (v : Value) : v.walk? [] = some v := rfl

theorem walk?_append (v : Value) (first second : List String) :
    v.walk? (first ++ second) = (v.walk? first).bind fun next => next.walk? second := by
  induction first generalizing v with
  | nil => rfl
  | cons segment rest ih =>
    cases h : v.step? segment with
    | none => simp [walk?, h]
    | some next => simp [walk?, h, ih]

theorem Ordered.step? {v next : Value} {segment : String} (ordered : v.Ordered)
    (found : v.step? segment = some next) : next.Ordered := by
  cases v with
  | obj => exact ordered.2.of_get? found
  | arr items =>
    obtain ⟨i, -, item⟩ := Option.bind_eq_some_iff.1 found
    exact orderedItems_iff.1 ordered next (List.mem_of_getElem? item)
  | _ => cases found

theorem Ordered.walk? {v last : Value} {segments : List String} (ordered : v.Ordered)
    (found : v.walk? segments = some last) : last.Ordered := by
  induction segments generalizing v with
  | nil => exact Option.some.inj found ▸ ordered
  | cons segment rest ih =>
    obtain ⟨next, step, found⟩ := Option.bind_eq_some_iff.1 found
    exact ih (ordered.step? step) found

end Value

/-- The segments of two paths with a point between them are those of the one and then those of the
other. -/
theorem pathSegments_append (first second : String) :
    pathSegments (first ++ "." ++ second) = pathSegments first ++ pathSegments second := by
  have chars : (first ++ "." ++ second).toList = first.toList ++ '.' :: second.toList := by simp
  simp [pathSegments, chars, List.splitOn_append_cons_self]

namespace Tree

/-- The value at a path. A path without segments leads nowhere. -/
def get? (t : Tree) (path : String) : Option Value :=
  match pathSegments path with
  | [] => none
  | segments => t.toValue.walk? segments

/-- There is a value at the path, be it null. -/
def hasPath (t : Tree) (path : String) : Bool :=
  (t.get? path).isSome

theorem ordered_of_get? {t : Tree} {path : String} {v : Value} (found : t.get? path = some v) :
    v.Ordered := by
  unfold get? at found
  split at found
  · cases found
  · exact t.ordered_toValue.walk? found

/-- The object at a path as a tree of its own; a blank path leads to the tree itself. -/
def subtree? (t : Tree) (path : String) : Option Tree :=
  if Text.isBlankText path then some t
  else match found : t.get? path with
    | some (.obj fields) => some ⟨fields, ordered_of_get? found⟩
    | _ => none

end Tree
end LayeredConfig
