import LayeredConfig.Live.World
import LayeredConfig.Query
/-!
# Sources and transformers

A configuration is fetched from sources, whose trees are laid over each other, and goes through
transformers. Both may make the caller wait, keep state in the surroundings, and fail.
-/
namespace LayeredConfig.Live

/-- How long an answer is waited for: not at all, for some milliseconds, or until files have been
read. -/
inductive Pace where
  | atOnce
  | after (millis : Nat)
  | fromFiles
  deriving DecidableEq, Repr

/-- A source: being asked may change the surroundings before the answer comes. Whether it may fail
is decided by the surroundings when it has failed. -/
structure Source (σ : Type) where
  name : String
  allowErrors : σ → Bool
  ask : Query → σ → Pace × σ
  answer : Query → σ → Except ConfigError Tree × σ
  close : σ → Except ConfigError Unit × σ

/-- A transformer of trees. -/
structure Transformer (σ : Type) where
  name : String
  ask : Tree → σ → Pace × σ
  answer : Tree → σ → Except ConfigError Tree × σ

/-- What a configuration is made of, which never changes. Times are in milliseconds. -/
structure Plan (σ : Type) where
  query : Query
  sources : List (Source σ) := []
  transformers : List (Transformer σ) := []
  order : NotifyOrder := .registration
  getTimeout : Nat := 10000
  refreshInterval : Option Nat := none

end LayeredConfig.Live
