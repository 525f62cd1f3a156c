import LayeredConfig.Environment.Basic
import LayeredConfig.Settings
import LayeredConfig.Text.Pieces
import LayeredConfig.Tree.Typed
/-!
# Trees from environments

The variables whose names begin with a prefix are values of a tree: the rest of a name, cut at a
separator, is the path of keys that leads to the value.
-/
namespace LayeredConfig

namespace Fields

/-- What is found below a field; only objects have something below them. -/
def below (fields : Fields) (key : String) : Fields :=
  match get? fields key with
  | some (.obj inner) => inner
  | _ => []

/-- The fields with a value at the end of a path of keys. On the way to it anything that is no
object gives way to one; but an object at its end stays, since a variable with a longer name put it
there. -/
def insertAt : List String → Value → Fields → Fields
  | [], _, fields => fields
  | [key], value, fields =>
    match get? fields key with
    | some (.obj _) => fields
    | _ => insert key value fields
  | key :: next :: rest, value, fields =>
    insert key (.obj (insertAt (next :: rest) value (below fields key))) fields

theorem ordered_below {fields : Fields} (ordered : (Value.obj fields).Ordered) (key : String) :
    (Value.obj (below fields key)).Ordered := by
  unfold below
  split
  next inner field => exact ordered.2.of_get? field
  next => exact Value.ordered_nil

/-- Inserting keeps the fields in order. -/
theorem ordered_insertAt {fields : Fields} {value : Value} (valueOrdered : value.Ordered)
    (path : List String) (ordered : (Value.obj fields).Ordered) :
    (Value.obj (insertAt path value fields)).Ordered := by
  induction path generalizing fields with
  | nil => exact ordered
  | cons key rest ih =>
    cases rest with
    | nil =>
      simp only [insertAt]
      split
      · exact ordered
      · exact ordered.insert valueOrdered key
    | cons next rest => exact ordered.insert (ih (ordered_below ordered key)) key

end Fields

/-- Which variables of an environment belong to a tree, and where the names are cut. -/
structure EnvSource where
  name : String := "env"
  leader : String := "APP_"
  separator : String := "__"
  allowErrors : Bool := false
  env : Environment

namespace EnvSource

/-- The path of keys of a variable: the pieces of its name behind the leader, in small letters,
without the empty ones. -/
def keyPath? (s : EnvSource) (variableName : String) : Option (List String) :=
  (Text.stripLead s.leader.toList variableName.toList).map fun rest =>
    ((Text.splitSeq s.separator.toList rest).map fun piece =>
      Text.lowerAscii (String.ofList piece)).filter fun piece => !piece.isEmpty

/-- The fields with one variable added; other variables than those of the source add nothing. -/
def addVariable (s : EnvSource) (fields : Fields) (entry : String × String) : Fields :=
  match s.keyPath? entry.1 with
  | some path => Fields.insertAt path (Value.ofText entry.2) fields
  | none => fields

theorem ordered_addVariable {s : EnvSource} {fields : Fields} (ordered : (Value.obj fields).Ordered)
    (entry : String × String) : (Value.obj (s.addVariable fields entry)).Ordered := by
  unfold addVariable
  split
  next path _ => exact Fields.ordered_insertAt (Value.ordered_ofText entry.2) path ordered
  next => exact ordered

theorem ordered_foldl (s : EnvSource) (vars : List (String × String)) :
    (Value.obj (vars.foldl s.addVariable [])).Ordered :=
  List.foldlRecOn (motive := fun fields => (Value.obj fields).Ordered) vars _ Value.ordered_nil
    fun _ ordered entry _ => ordered_addVariable ordered entry

/-- The tree that comes of adding variables one after the other. -/
def treeFrom (s : EnvSource) (vars : List (String × String)) : Tree :=
  ⟨vars.foldl s.addVariable [], s.ordered_foldl vars⟩

/-- The tree of the variables, taken in the order of their names. -/
def tree (s : EnvSource) : Tree := s.treeFrom s.env.vars

def ofSettings (env : Environment) (s : Settings) : Except Cause EnvSource := do
  let setting {α : Type} (read : Except ConfigError α) : Except Cause α := read.mapError .error
  let leader ← setting (s.textOr "prefix" "APP_")
  let separator ← setting (s.textOr "separator" "__")
  if separator.isEmpty then throw (.text "env source separator cannot be empty")
  let common ← setting (SourceSettings.ofSettings s)
  pure ⟨common.nameOr "env", leader, separator, common.allowErrors, env⟩

end EnvSource
end LayeredConfig
