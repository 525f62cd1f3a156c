import LayeredConfig.Error
import LayeredConfig.Tree.Basic
/-!
# Scripts

A script says what is done to the cells and to the configuration of a world, one operation after the
other, each depending on what the earlier ones gave. Listeners are scripts that depend on a value.
Scripts also read and change their surroundings, whose type is `σ`.
-/
namespace LayeredConfig.Live

/-- What something that was done had to say. -/
inductive Reply where
  | nothing
  | flag (b : Bool)
  | present (value : Option Value)
  | outcome (result : Except ConfigError Value)

/-- What a derived cell holds: a value or nothing, computed from a tree. -/
abbrev Extractor := Tree → Except ConfigError (Option Value)

/-- A script. Cells and listeners are told apart by numbers. -/
inductive Script (σ : Type) where
  -- Ends with a reply.
  | done (reply : Reply)
  -- Breaks off, and everything that is under way with it.
  | panic
  -- Replaces the value of a cell.
  | update (cell : Nat) (value : Option Value) (next : Except ConfigError Bool → Script σ)
  -- Adds a listener to a cell.
  | register (cell : Nat) (name : String) (listener : Option Value → Script σ)
      (next : Nat → Script σ)
  -- Adds a listener to a cell and calls it at once if the cell has a value.
  | registerAndCall (cell : Nat) (name : String) (listener : Option Value → Script σ)
      (next : Nat → Script σ)
  -- Takes a listener from a cell.
  | deregister (cell listener : Nat) (next : Script σ)
  -- Closes a cell.
  | close (cell : Nat) (next : Script σ)
  -- Has a script run when a cell is closed.
  | onClose (cell : Nat) (hook : Script σ) (next : Script σ)
  -- Reads the value of a cell.
  | look (cell : Nat) (next : Option Value → Script σ)
  -- Makes a cell that follows the tree of the configuration.
  | derive (extract : Extractor) (next : Except ConfigError Nat → Script σ)
  -- Lets a derived cell follow the tree no longer.
  | untrack (entry : Nat) (next : Script σ)
  -- Reads the tree of the configuration.
  | tree (next : Option Tree → Script σ)
  -- Closes the configuration.
  | shut (next : Script σ)
  -- Starts a refresh loop, if the configuration has an interval.
  | start (next : Bool → Script σ)
  -- Reads the surroundings.
  | inspect (next : σ → Script σ)
  -- Changes the surroundings.
  | alter (change : σ → σ) (next : Script σ)
  -- Puts on record what a step of a listener had to say.
  | note (listener step : String) (reply : Reply) (next : Script σ)

/-- A listener: its name, and what it does with a value or with the news that there is none. -/
structure Listener (σ : Type) where
  name : String
  react : Option Value → Script σ

end LayeredConfig.Live
