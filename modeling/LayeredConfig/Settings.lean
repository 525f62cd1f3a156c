import LayeredConfig.Decimal.Whole
import LayeredConfig.Error
import LayeredConfig.Shape
import LayeredConfig.Text.Blank
import LayeredConfig.Text.Pieces
/-!
# Settings

The settings of one implementation: the fields of the node that selects it, without the fields that
do the selecting. A key may be written with hyphens or with underscores.
-/
namespace LayeredConfig

/-- The settings of an implementation. -/
structure Settings where
  implementation : String
  values : Fields

/-- The keys that select an implementation and are no settings of it. -/
def selectorKeys : List String := ["impl", "type", "enabled"]

namespace Settings

/-- The settings in a node; a node that is no object holds none. -/
def ofNode (implementation : String) (node : Value) : Settings :=
  ⟨implementation, node.fields.filter fun (k, _) => !selectorKeys.contains k⟩

def keys (s : Settings) : List String := Fields.names s.values

/-- The other spelling of a key: underscores for hyphens, or hyphens for underscores if it has no
hyphen. -/
def otherSpelling (key : String) : String :=
  let swap (a b : Char) := String.ofList (key.toList.map fun c => if c == a then b else c)
  if key.toList.contains '-' then swap '-' '_' else swap '_' '-'

/-- The value under a key as written, else under its other spelling. -/
def get? (s : Settings) (key : String) : Option Value :=
  match Fields.get? s.values key with
  | some v => some v
  | none => Fields.get? s.values (otherSpelling key)

/-- The error that says what is wrong with a setting. -/
def invalid (s : Settings) (key problem : String) : ConfigError :=
  .invalidSettings (s.implementation ++ ": '" ++ key ++ "' " ++ problem)

/-- A text. Null counts as absent, here and below. -/
def text? (s : Settings) (key : String) : Except ConfigError (Option String) :=
  match s.get? key with
  | none | some .null => .ok none
  | some (.str text) => .ok (some text)
  | some _ => .error (s.invalid key "must be a string")

/-- A text that must be there and not be blank. -/
def requiredText (s : Settings) (key : String) : Except ConfigError String := do
  match ← s.text? key with
  | some text => if Text.isBlankText text then .error (s.invalid key "is required") else .ok text
  | none => .error (s.invalid key "is required")

def textOr (s : Settings) (key default : String) : Except ConfigError String := do
  pure ((← s.text? key).getD default)

/-- The truth value that a word stands for. -/
def truthOfWord? (word : String) : Option Bool :=
  let w := Text.lowerAscii (Text.trim word)
  if ["true", "yes", "on"].contains w then some true
  else if ["false", "no", "off"].contains w then some false
  else none

/-- A truth value, or the default. Some words stand for truth values. -/
def boolOr (s : Settings) (key : String) (default : Bool) : Except ConfigError Bool :=
  let refuse := .error (s.invalid key "must be a boolean")
  match s.get? key with
  | none | some .null => .ok default
  | some (.bool b) => .ok b
  | some (.str text) =>
    match truthOfWord? text with
    | some b => .ok b
    | none => refuse
  | some _ => refuse

/-- A whole number of 64 bits, which may be written as a text. -/
def integer? (s : Settings) (key : String) : Except ConfigError (Option Int) :=
  let refuse := .error (s.invalid key "must be an integer")
  match s.get? key with
  | none | some .null => .ok none
  | some (.int i) => if Width.fitsSigned 64 i then .ok (some i) else refuse
  | some (.str text) =>
    match Decimal.integer? (Text.trim text) with
    | some i => .ok (some i)
    | none => refuse
  | some _ => refuse

def millis? (s : Settings) (key : String) : Except ConfigError (Option Nat) := do
  match ← s.integer? key with
  | none => pure none
  | some i => if i < 0 then .error (s.invalid key "cannot be negative") else pure (some i.toNat)

def read? (s : Settings) (key : String) (shape : Shape) : Except ConfigError (Option Value) :=
  match s.get? key with
  | none | some .null => .ok none
  | some v =>
    match shape.read v with
    | .ok read => .ok (some read)
    | .error mismatch => .error (s.invalid key mismatch.message)

/-- How long what was fetched may be used again, in milliseconds; zero or less means not at all. -/
def cacheTtl (s : Settings) : Except ConfigError Int := do
  pure ((← s.integer? "cache-ttl-ms").getD 0)

end Settings

/-- What all sources can be told: a name to be shown, and to be passed over when they fail. -/
structure SourceSettings where
  name : Option String
  allowErrors : Bool

namespace SourceSettings

def ofSettings (s : Settings) : Except ConfigError SourceSettings := do
  let name ← s.text? "name"
  let allowErrors ← s.boolOr "allow-errors" false
  pure ⟨name, allowErrors⟩

def nameOr (s : SourceSettings) (default : String) : String := s.name.getD default

end SourceSettings
end LayeredConfig
