import LayeredConfig.Json.Reader
import LayeredConfig.Text.Blank
import LayeredConfig.Text.Pieces
import LayeredConfig.Tree.Basic
import LayeredConfig.Yaml.Reader
/-!
# Documents

The formats of configuration documents, and reading a document as a tree.
-/
namespace LayeredConfig

/-- A format of documents. -/
inductive FileFormat where
  | yaml
  | json
  | toml
  deriving DecidableEq, Repr

namespace FileFormat

/-- The ending of the names of files in a format. -/
def extension : FileFormat → String
  | .yaml => "yaml"
  | .json => "json"
  | .toml => "toml"

def isEnabled : FileFormat → Bool
  | .toml => false
  | _ => true

/-- The format where none is chosen. -/
def standard : FileFormat := .yaml

/-- The format that a name calls, whatever the case of ASCII letters and the blanks around it. -/
def ofName (name : String) : Except ConfigError FileFormat :=
  match Text.lowerAscii (Text.trim name) with
  | "yaml" | "yml" => .ok .yaml
  | "json" => .ok .json
  | "toml" => .error (.unsupportedFormat "toml (enable the 'toml' feature)")
  | other => .error (.unsupportedFormat other)

end FileFormat

/-- The value in a document, by the extension of its name; `name` stands for the document in
messages. -/
def Value.ofDocument (extension content name : String) : Except ConfigError Value :=
  match extension with
  | "yaml" | "yml" => (Yaml.read content).mapError fun
    | .malformed => .parse name .malformed
    | .breakdown => .parse name .breakdown
  | "json" => match Json.read content with
    | some v => .ok v
    | none => .error (.parse name .malformed)
  | other => .error (.unsupportedFormat other)

def Tree.ofDocument (extension content name : String) : Except ConfigError Tree := do
  Tree.ofValueAt name (← Value.ofDocument extension content name)

end LayeredConfig
