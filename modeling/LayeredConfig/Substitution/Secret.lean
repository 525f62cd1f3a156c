import LayeredConfig.Files.Disk
import LayeredConfig.Settings
import LayeredConfig.Text.Blank
import LayeredConfig.Text.Pieces
import LayeredConfig.Tree.Strings
import LayeredConfig.TtlCache
/-!
# Secrets

A string that begins with a leader refers to a secret: what follows the leader, trimmed, is the key
under which a provider knows it. Secrets that were fetched are kept for a while.
-/
namespace LayeredConfig

namespace Value

mutual

/-- The strings in a value, in document order. -/
def strings : Value → List String
  | .str s => [s]
  | .arr items => itemStrings items
  | .obj fields => fieldStrings fields
  | _ => []
termination_by structural v => v

/-- The strings in the items of an array. -/
def itemStrings : List Value → List String
  | [] => []
  | v :: rest => strings v ++ itemStrings rest
termination_by structural items => items

/-- The strings in the fields of an object. -/
def fieldStrings : Fields → List String
  | [] => []
  | (_, v) :: rest => strings v ++ fieldStrings rest
termination_by structural fields => fields

end

end Value

namespace Secret

/-- How a secret is got by its key. -/
abbrev Provider := String → Except ConfigError String

/-- Secrets that were fetched, by their keys. -/
abbrev Cache := TtlCache String String

/-- The key in a string that refers to a secret. -/
def key? (leader text : String) : Option String :=
  (Text.stripLead leader.toList text.toList).map fun rest => String.ofList (Text.trimChars rest)

/-- What looking secrets up gave: the outcome, the secrets now kept, and the keys for which the
provider was asked. -/
structure Lookup (α : Type) where
  outcome : Except ConfigError α
  cache : Cache
  asked : List String

/-- The secret of one key, from memory if it was fetched not too long ago. -/
def lookup (provider : Provider) (now : Nat) (cache : Cache) (key : String) : Lookup String :=
  match cache.get? now key with
  | some known => ⟨.ok known, cache, []⟩
  | none =>
    match provider key with
    | .ok value => ⟨.ok value, cache.put now key value, [key]⟩
    | .error e => ⟨.error e, cache, [key]⟩

/-- Adds to the secrets that are `resolved` those of more keys, each key once. The first that fails
ends the work. -/
def lookupAll (provider : Provider) (now : Nat) (cache : Cache)
    (resolved : List (String × String)) : List String → Lookup (List (String × String))
  | [] => ⟨.ok resolved, cache, []⟩
  | key :: rest =>
    if (resolved.lookup key).isSome then lookupAll provider now cache resolved rest
    else match lookup provider now cache key with
      | ⟨.error e, cache, asked⟩ => ⟨.error e, cache, asked⟩
      | ⟨.ok value, cache, asked⟩ =>
        let others := lookupAll provider now cache ((key, value) :: resolved) rest
        { others with asked := asked ++ others.asked }

/-- Replaces references to secrets. -/
structure Substitution where
  leader : String := "secret:"
  cache : Cache := .new 0

namespace Substitution

/-- The keys to which the strings of a tree refer, in document order. -/
def keys (s : Substitution) (t : Tree) : List String :=
  t.toValue.strings.filterMap (key? s.leader)

/-- A tree with secrets in place of the references to them. -/
def transform (s : Substitution) (provider : Provider) (now : Nat) (t : Tree) : Lookup Tree :=
  let found := lookupAll provider now s.cache [] (s.keys t)
  let outcome := found.outcome.map fun resolved =>
    t.mapStrings fun _ text =>
      (pure ((key? s.leader text).bind fun key => resolved.lookup key) : Id (Option String))
  ⟨outcome, found.cache, found.asked⟩

end Substitution

/-- The file of a key: a plain file name within the directory. -/
def filePath (directory key : String) : Except ConfigError String :=
  if key.isEmpty || key.toList.any (fun c => c == '/' || c == '\\') || key == ".." || key == "."
  then .error (.invalidSettings ("secret key '" ++ key ++ "' is not a plain file name"))
  else .ok (Files.join directory key)

/-- The provider whose secrets are the trimmed contents of the files in a directory. -/
def fromFiles (directory : String) (read : Files.Reader) : Provider := fun key => do
  let path ← filePath directory key
  match read path with
  | .ok content => pure (Text.trim content)
  | .error fault => throw (.file path fault)

end Secret
end LayeredConfig
