import LayeredConfig.Environment.Nesting
import LayeredConfig.Files.Layers
import LayeredConfig.Registry
import LayeredConfig.Substitution.Placeholder
import LayeredConfig.Substitution.Secret
/-!
# Built-in implementations

The sources and transformers that every registry knows.
-/
namespace LayeredConfig

/-- A source whose tree is fixed. -/
structure InlineSource where
  name : String := "inline"
  tree : Tree

namespace InlineSource

def ofSettings (s : Settings) : Except ConfigError InlineSource := do
  let tree ← match s.get? "value" with
    | some v => Tree.ofValue v
    | none => pure .empty
  let common ← SourceSettings.ofSettings s
  pure ⟨common.nameOr "inline", tree⟩

end InlineSource

/-- A source of a built-in kind. -/
inductive BuiltinSource where
  | files (source : FileSource)
  | variables (source : EnvSource)
  | fixed (source : InlineSource)

namespace BuiltinSource

def name : BuiltinSource → String
  | .files s => s.name
  | .variables s => s.name
  | .fixed s => s.name

/-- The source is passed over when it fails. -/
def allowErrors : BuiltinSource → Bool
  | .files s => s.allowErrors
  | .variables s => s.allowErrors
  | .fixed _ => false

/-- What the source holds for a query, the source afterwards, and the paths that were read. -/
def get (s : BuiltinSource) (read : Files.Reader) (now : Nat) (q : Query) :
    Except ConfigError Tree × BuiltinSource × List String :=
  match s with
  | .files source =>
    let found := source.get read now q
    (found.outcome, .files { source with cache := found.cache }, found.paths)
  | .variables source => (.ok source.tree, s, [])
  | .fixed source => (.ok source.tree, s, [])

def close : BuiltinSource → BuiltinSource
  | .files source => .files source.close
  | s => s

end BuiltinSource

/-- A transformer that takes secrets from the files in a directory. -/
structure FileSecrets where
  directory : String
  substitution : Secret.Substitution

namespace FileSecrets

def ofSettings (s : Settings) : Except ConfigError FileSecrets := do
  let directory ← s.requiredText "directory"
  let leader ← s.textOr "prefix" "secret:"
  let ttl ← s.cacheTtl
  pure ⟨directory, ⟨leader, .ofMillis ttl⟩⟩

end FileSecrets

/-- A transformer of a built-in kind. -/
inductive BuiltinTransformer where
  | placeholders (substitution : Placeholder.Substitution)
  | secrets (source : FileSecrets)

namespace BuiltinTransformer

def name : BuiltinTransformer → String
  | .placeholders _ => "placeholders"
  | .secrets _ => "secrets"

/-- The transformed tree, the transformer afterwards, and the paths that were read. -/
def transform (f : BuiltinTransformer) (read : Files.Reader) (now : Nat) (t : Tree) :
    Except ConfigError Tree × BuiltinTransformer × List String :=
  match f with
  | .placeholders substitution => (substitution.transform t, f, [])
  | .secrets source =>
    let found := source.substitution.transform (Secret.fromFiles source.directory read) now t
    (found.outcome,
      .secrets { source with substitution := { source.substitution with cache := found.cache } },
      found.asked.filterMap fun key => (Secret.filePath source.directory key).toOption)

end BuiltinTransformer

/-- The registries from which a configuration is built. -/
structure Registries where
  sources : Registry BuiltinSource
  transformers : Registry BuiltinTransformer

/-- An implementation whose instances can fail only with errors of the library. -/
def makeWith {α β : Type} (wrap : α → β) (make : Settings → Except ConfigError α)
    (s : Settings) : Except Cause β :=
  ((make s).mapError .error).map wrap

/-- The registries that know the built-in kinds and no others. -/
def Registries.builtin (env : Environment) : Registries where
  sources := ⟨"config source", [
    { name := "file", aliases := ["filesystem", "fs"],
      qualifiedName := some "reloadable_config::sources::FileSource",
      make := makeWith .files FileSource.ofSettings },
    { name := "env", aliases := ["environment"],
      qualifiedName := some "reloadable_config::sources::EnvSource",
      make := fun s => (EnvSource.ofSettings env s).map .variables },
    { name := "inline", aliases := ["static"],
      qualifiedName := some "reloadable_config::sources::InlineSource",
      make := makeWith .fixed InlineSource.ofSettings }]⟩
  transformers := ⟨"config transformer", [
    { name := "placeholders", aliases := ["env-substitution"],
      qualifiedName := some "reloadable_config::transformers::PlaceholderTransformer",
      make := makeWith .placeholders fun s =>
        (s.boolOr "allow-missing" false).map fun allow => ⟨env, allow⟩ },
    { name := "secrets", aliases := ["decrypt"],
      qualifiedName := some "reloadable_config::transformers::SecretTransformer",
      make := makeWith .secrets FileSecrets.ofSettings }]⟩

end LayeredConfig
