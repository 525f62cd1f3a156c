import LayeredConfig.Files.Disk
import LayeredConfig.Files.Document
import LayeredConfig.Query
import LayeredConfig.Settings
import LayeredConfig.Tree.Merge
import LayeredConfig.TtlCache
/-!
# Layered files

The configuration of an application lies in several documents of one name: one for all environments,
and one for each environment, for its datacenter and for its zone. They are laid over each other in
this order. A layer that is not there is left out, but at least one must be there.
-/
namespace LayeredConfig

/-- The layers for a query, from the weakest to the strongest. -/
def layerPaths (directory : String) (format : FileFormat) (q : Query) : List String :=
  let file := q.app ++ "." ++ format.extension
  let ofEnv (env : String) : List String :=
    let envDirectory := Files.join directory env
    Files.join envDirectory file ::
      match q.datacenter with
      | none => []
      | some datacenter =>
        let datacenterDirectory := Files.join envDirectory datacenter
        Files.join datacenterDirectory file ::
          match q.zone with
          | none => []
          | some zone => [Files.join (Files.join datacenterDirectory zone) file]
  Files.join directory file :: q.envs.flatMap ofEnv

/-- The layers that were read, by the components of their paths; nothing stands for a layer that was
not there. -/
abbrev LayerCache := TtlCache (List String) (Option Tree)

/-- A source that reads layered files. -/
structure FileSource where
  name : String := "file"
  directory : String
  format : FileFormat
  allowErrors : Bool := false
  cache : LayerCache := .new 0

/-- What an attempt to get something from files gave: the outcome, the layers now remembered, and
the paths that were read. -/
structure LayersRead (α : Type) where
  outcome : Except ConfigError α
  cache : LayerCache
  paths : List String

namespace FileSource

/-- The content of a layer as a tree; nothing if there is no such file. -/
def parseLayer (format : FileFormat) (read : Files.Reader) (path : String) :
    Except ConfigError (Option Tree) :=
  match read path with
  | .ok content => (Tree.ofDocument format.extension content path).map some
  | .error .notFound => .ok none
  | .error fault => .error (.file path fault)

/-- One layer, from memory if it was read not too long ago. -/
def layer (format : FileFormat) (read : Files.Reader) (now : Nat) (cache : LayerCache)
    (path : String) : LayersRead (Option Tree) :=
  let key := Files.components path
  match cache.get? now key with
  | some known => ⟨.ok known, cache, []⟩
  | none =>
    match parseLayer format read path with
    | .ok found => ⟨.ok found, cache.put now key found, [path]⟩
    | .error e => ⟨.error e, cache, [path]⟩

/-- The layers that are there, in order. The first that cannot be read ends the work. -/
def layers (format : FileFormat) (read : Files.Reader) (now : Nat) (cache : LayerCache) :
    List String → LayersRead (List Tree)
  | [] => ⟨.ok [], cache, []⟩
  | path :: rest =>
    match layer format read now cache path with
    | ⟨.error e, cache, paths⟩ => ⟨.error e, cache, paths⟩
    | ⟨.ok found, cache, paths⟩ =>
      let others := layers format read now cache rest
      ⟨others.outcome.map (found.toList ++ ·), others.cache, paths ++ others.paths⟩

/-- The layers for a query laid over each other. -/
def get (s : FileSource) (read : Files.Reader) (now : Nat) (q : Query) : LayersRead Tree :=
  let paths := layerPaths s.directory s.format q
  let found := layers s.format read now s.cache paths
  let outcome := match found.outcome with
    | .error e => .error e
    | .ok [] => .error (.fileNotFound (paths.headD ""))
    | .ok trees => .ok (Tree.mergeAll trees)
  ⟨outcome, found.cache, found.paths⟩

/-- The source once it has forgotten all layers. -/
def close (s : FileSource) : FileSource :=
  { s with cache := s.cache.clear }

def ofSettings (s : Settings) : Except ConfigError FileSource := do
  let directory ← s.requiredText "directory"
  let format ← match ← s.text? "format" with
    | some name => FileFormat.ofName name
    | none => pure .standard
  let ttl ← s.cacheTtl
  let common ← SourceSettings.ofSettings s
  pure ⟨common.nameOr "file", directory, format, common.allowErrors, .ofMillis ttl⟩

end FileSource
end LayeredConfig
