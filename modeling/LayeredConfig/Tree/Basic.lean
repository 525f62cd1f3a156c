import LayeredConfig.Digest.Sha256
import LayeredConfig.Error
import LayeredConfig.Json.Writer
import LayeredConfig.Value.Order
/-!
# Configuration trees

A configuration tree is an object in order: the fields of all objects in it stand in the order of
their names. Trees are compared structurally; their compact JSON text is the form in which they are
shown and from which their fingerprint is taken.
-/
namespace LayeredConfig

/-- A configuration tree: the fields of its root. -/
@[ext]
structure Tree where
  root : Fields
  ordered : (Value.obj root).Ordered := by decide

namespace Tree

def empty : Tree := ⟨[], Value.ordered_nil⟩

instance : Inhabited Tree := ⟨empty⟩

def isEmpty (t : Tree) : Bool := t.root.isEmpty

def toValue (t : Tree) : Value := .obj t.root

theorem ordered_toValue (t : Tree) : t.toValue.Ordered := t.ordered

/-- Structural equality of trees. -/
instance : BEq Tree := ⟨fun a b => a.toValue == b.toValue⟩

/-- The tree with the fields of an object, brought in order. -/
def ofFields (fields : Fields) : Tree :=
  ⟨Fields.ofList (Value.mapFieldKeys id fields), Value.ordered_mapKeys id (.obj fields)⟩

theorem ofFields_of_ordered {fields : Fields} (ordered : (Value.obj fields).Ordered) :
    ofFields fields = ⟨fields, ordered⟩ :=
  Tree.ext (Value.obj.inj (Value.mapKeys_id ordered))

theorem toValue_injective {t u : Tree} (same : t.toValue = u.toValue) : t = u :=
  Tree.ext (Value.obj.inj same)

/-- The name for the root in messages. -/
def rootName : String := "(root)"

/-- A tree from a value; `name` says in messages where the value comes from. Null stands for the
tree without fields, and only an object is a tree otherwise. -/
def ofValueAt (name : String) : Value → Except ConfigError Tree
  | .obj fields => .ok (ofFields fields)
  | .null => .ok empty
  | v => .error (.parse name
      (.text ("configuration root must be an object, found " ++ v.kind)))

/-- A tree from a value that comes from no document. -/
def ofValue (v : Value) : Except ConfigError Tree :=
  ofValueAt rootName v

def display (t : Tree) : String :=
  Json.write t.toValue

def fingerprint (t : Tree) : String :=
  Digest.sha256 t.display.toUTF8.toList

end Tree
end LayeredConfig
