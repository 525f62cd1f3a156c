import LayeredConfig.Json.Writer
import LayeredConfig.Settings
/-!
# Registries

A registry holds the implementations of one kind of thing under their names and makes instances
from nodes of a configuration: a node selects an implementation by name and holds its settings.
-/
namespace LayeredConfig

/-- An implementation: its names, its rank among those that share a name, and how an instance is
made from settings. -/
structure Entry (α : Type) where
  name : String
  aliases : List String := []
  qualifiedName : Option String := none
  order : Int := 0
  make : Settings → Except Cause α

/-- The implementations of one kind, in the order in which they were registered. -/
structure Registry (α : Type) where
  kind : String
  entries : List (Entry α)

/-- The last part of a name whose parts are separated by double colons. -/
def lastPart (qualified : String) : String :=
  let reversed := qualified.toList.reverse
  match Text.cutAtFirst [':', ':'] reversed with
  | some (last, _) => String.ofList last.reverse
  | none => qualified

namespace Entry

variable {α : Type}

/-- The last part of the qualified name. -/
def simpleName? (e : Entry α) : Option String := e.qualifiedName.map lastPart

/-- Everything that the implementation may be called. -/
def candidates (e : Entry α) : List String :=
  e.name :: e.aliases ++ e.qualifiedName.toList ++ e.simpleName?.toList

/-- A name without blanks at its ends calls the implementation, whatever the case of ASCII
letters. -/
def answersTo (e : Entry α) (name : String) : Bool :=
  e.candidates.any fun candidate => Text.sameIgnoringCase (Text.trim candidate) name

end Entry

namespace Registry

variable {α : Type}

/-- The entry of the lowest order; of several the first. -/
def lowest : List (Entry α) → Option (Entry α)
  | [] => none
  | e :: rest =>
    match lowest rest with
    | none => some e
    | some best => if best.order < e.order then some best else some e

def resolve (r : Registry α) (name : String) : Option (Entry α) :=
  let name := Text.trim name
  if name.isEmpty then none else lowest (r.entries.filter fun e => e.answersTo name)

theorem lowest_eq_none_iff {entries : List (Entry α)} : lowest entries = none ↔ entries = [] := by
  cases entries with
  | nil => simp [lowest]
  | cons e rest =>
    simp only [lowest, reduceCtorEq, iff_false]
    split
    · simp
    · split <;> simp

theorem lowest_mem {entries : List (Entry α)} {e : Entry α} (h : lowest entries = some e) :
    e ∈ entries := by
  induction entries with
  | nil => simp [lowest] at h
  | cons first rest ih =>
    simp only [lowest] at h
    split at h
    · exact Option.some.inj h ▸ List.mem_cons_self
    · rename_i best found
      split at h
      · exact List.mem_cons_of_mem _ (ih (found.trans h))
      · exact Option.some.inj h ▸ List.mem_cons_self

/-- No entry has a lower order than the lowest. -/
theorem lowest_le {entries : List (Entry α)} {e other : Entry α} (h : lowest entries = some e)
    (member : other ∈ entries) : e.order ≤ other.order := by
  induction entries generalizing e with
  | nil => simp at member
  | cons first rest ih =>
    simp only [lowest] at h
    split at h
    · rename_i nothing
      rw [lowest_eq_none_iff] at nothing
      subst nothing
      obtain rfl := Option.some.inj h
      rcases List.mem_cons.1 member with rfl | later
      · exact Int.le_refl _
      · simp at later
    · rename_i best found
      have bound := fun later => ih found later
      split at h
      · rename_i less
        obtain rfl := Option.some.inj h
        rcases List.mem_cons.1 member with rfl | later
        · exact Int.le_of_lt less
        · exact bound later
      · rename_i notLess
        obtain rfl := Option.some.inj h
        rcases List.mem_cons.1 member with rfl | later
        · exact Int.le_refl _
        · exact Int.le_trans (Int.not_lt.1 notLess) (bound later)

/-- A node that says it is not enabled. -/
def isDisabled (node : Fields) : Bool :=
  match Fields.get? node "enabled" with
  | some (.bool b) => !b
  | some (.str s) => Text.sameIgnoringCase (Text.trim s) "false"
  | _ => false

/-- The value that selects an implementation; one key goes before the other even if it holds
null. -/
def selector? (node : Fields) : Option Value :=
  (Fields.get? node "impl").or (Fields.get? node "type")

/-- The error that nothing can be made from a node. -/
def creationError (r : Registry α) (implementation : String) (node : Value) (cause : Cause) :
    ConfigError :=
  .creation r.kind implementation (Json.write node) cause

/-- The instance that the selected implementation makes from a node. -/
def make (r : Registry α) (node : Value) (name : String) : Except ConfigError α :=
  match r.resolve name with
  | none =>
    .error (r.creationError name node (.text ("no " ++ r.kind ++ " named '" ++ name ++
      "' (known: " ++ String.intercalate ", " (r.entries.map Entry.name) ++ ")")))
  | some e =>
    match e.make (Settings.ofNode e.name node) with
    | .ok made => .ok made
    | .error cause => .error (r.creationError name node cause)

/-- The instance that a node asks for. A node that is not enabled, or that selects nothing, asks for
none. -/
def create (r : Registry α) (node : Value) : Except ConfigError (Option α) :=
  match node with
  | .obj fields =>
    if isDisabled fields then .ok none
    else match selector? fields with
      | none | some .null => .ok none
      | some (.str s) =>
        let name := Text.trim s
        if name.isEmpty then .ok none else (r.make node name).map some
      | some other =>
        .error (r.creationError (Json.write other) node (.text "'impl' must be a string"))
  | _ => .error (r.creationError "(none)" node (.text "configuration must be an object"))

/-- What a node selects, as messages about a list of nodes show it. -/
def selectedName (node : Value) : String :=
  match selector? node.fields with
  | none => ""
  | some (.str s) => Text.trim s
  | some v => Json.write v

/-- The instances that nodes ask for, from the position `index` in a list on. The first failure ends
the work. -/
def createFrom (r : Registry α) (index : Nat) : List Value → Except ConfigError (List α)
  | [] => .ok []
  | node :: rest =>
    match r.create node with
    | .error e => .error (.batchCreation r.kind index (selectedName node) e)
    | .ok none => r.createFrom (index + 1) rest
    | .ok (some made) => (r.createFrom (index + 1) rest).map (made :: ·)

/-- The instances that a list of nodes asks for, in order. -/
def createAll (r : Registry α) (nodes : List Value) : Except ConfigError (List α) :=
  r.createFrom 0 nodes

end Registry
end LayeredConfig
