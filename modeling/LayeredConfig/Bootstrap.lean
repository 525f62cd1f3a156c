import LayeredConfig.Builtin
import LayeredConfig.Mapper
import LayeredConfig.Tree.Typed
/-!
# Bootstrap documents

A bootstrap document says from which sources a configuration comes, through which transformers it
goes, and how it is kept up to date.
-/
namespace LayeredConfig

/-- The plan for a configuration. Times are in milliseconds. -/
structure Bootstrap where
  sources : List Value
  transformers : List Value
  refreshInterval : Option Nat
  getTimeout : Nat
  reverseUpdateOrder : Bool
  mapper : Mapper

/-- How long a caller waits for a first configuration if nothing else is said. -/
def defaultGetTimeout : Nat := 10000

/-- An interval of zero is none. -/
def intervalOf (millis : Nat) : Option Nat :=
  if millis = 0 then none else some millis

namespace Bootstrap

/-- The error that says what is wrong with a bootstrap document. -/
def invalid (problem : String) : ConfigError :=
  .invalidSettings ("bootstrap: " ++ problem)

def millis? (t : Tree) (key : String) : Except ConfigError (Option Nat) := do
  match ← t.getAs .i64 key with
  | some (.int i) =>
    if i < 0 then throw (invalid ("'" ++ key ++ "' must not be negative"))
    else pure (some i.toNat)
  | _ => pure none

/-- A list of nodes; null is an empty one. -/
def nodes (t : Tree) (key : String) : Except ConfigError (List Value) :=
  match t.get? key with
  | none | some .null => .ok []
  | some (.arr items) => .ok items
  | some _ => .error (invalid ("'" ++ key ++ "' must be a list"))

def mapperNamed (name : String) : Except ConfigError Mapper :=
  match Text.lowerAscii (Text.trim name) with
  | "relaxed" => .ok .relaxed
  | "strict" => .ok .strict
  | other => .error (invalid ("unknown mapper '" ++ other ++ "' (expected relaxed or strict)"))

def ofTree (t : Tree) : Except ConfigError Bootstrap := do
  let interval ← millis? t "refresh-interval-ms"
  let timeout ← millis? t "get-timeout-ms"
  let reverse ← t.getAs .bool "reverse-update-order"
  let mapper ← match ← t.getAs .string "mapper" with
    | some (.str name) => mapperNamed name
    | _ => pure .relaxed
  let sources ← nodes t "sources"
  let transformers ← nodes t "transformers"
  pure {
    sources, transformers, mapper
    refreshInterval := interval.bind intervalOf
    getTimeout := timeout.getD defaultGetTimeout
    reverseUpdateOrder := match reverse with
      | some (.bool b) => b
      | _ => false }

def withRefreshInterval (b : Bootstrap) (millis : Nat) : Bootstrap :=
  { b with refreshInterval := intervalOf millis }

def load (read : Files.Reader) (path : String) : Except ConfigError Bootstrap :=
  match read path with
  | .error .notFound => .error (.fileNotFound path)
  | .error fault => .error (.file path fault)
  | .ok content => do
    ofTree (← Tree.ofDocument (Files.extension path) content path)

/-- The sources and the transformers that the plan asks for. -/
def parts (b : Bootstrap) (r : Registries) :
    Except ConfigError (List BuiltinSource × List BuiltinTransformer) := do
  let sources ← r.sources.createAll b.sources
  let transformers ← r.transformers.createAll b.transformers
  pure (sources, transformers)

end Bootstrap
end LayeredConfig
