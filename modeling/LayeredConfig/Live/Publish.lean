import LayeredConfig.Live.Run
/-!
# Publishing trees

A tree that differs from the current one takes its place, and every derived cell gets the value that
its rule computes from it. All values are computed first: if one of them fails nothing changes.
-/
namespace LayeredConfig.Live

variable {σ : Type}

/-- The values of derived cells for a tree. The first that fails ends the work. -/
def computeAll (tree : Tree) : List Tracked → Except ConfigError (List (Nat × Option Value))
  | [] => .ok []
  | t :: rest => do
    let value ← t.extract tree
    pure ((t.cell, value) :: (← computeAll tree rest))

/-- Updates cells one after the other; one that was closed meanwhile is passed over. -/
def updateAll (plan : Plan σ) (fuel : Nat) : List (Nat × Option Value) → Act σ Unit
  | [] => return
  | (c, value) :: rest => do
    let _ ← update plan fuel c value
    updateAll plan fuel rest

/-- Does something while the configuration is marked as publishing. -/
def dispatching {α : Type} (act : Act σ α) : Act σ α :=
  between (·.modifyConfig ({ · with dispatching := true }))
    (·.modifyConfig ({ · with dispatching := false })) act

def publish (plan : Plan σ) (fuel : Nat) (tree : Tree) : Act σ (Except ConfigError Tree) := do
  let state := (← get).config
  if state.closed then return .error (.closed "reloadable config")
  else if state.current == some tree then return .ok tree
  else match computeAll tree state.tracked with
    | .error e => return .error e
    | .ok updates =>
      modify (·.modifyConfig ({ · with current := some tree }))
      record (.published tree)
      dispatching (updateAll plan fuel (plan.order.arrange updates))
      return .ok tree

/-- The state of a configuration once a refresh ended: its error is remembered, unless that is only
that the configuration is closed, and success clears it. -/
def ConfigState.ended (s : ConfigState) (now : Nat) : Except ConfigError Tree → ConfigState
  | .ok _ => { s with lastRefreshed := some now, lastError := none }
  | .error (.closed _) => s
  | .error e => { s with lastError := some e }

/-- Publishes what a fetch gave, if it gave a tree, and remembers how the refresh ended. -/
def conclude (plan : Plan σ) (fuel : Nat) (fetched : Except ConfigError Tree) :
    Act σ (Except ConfigError Tree) := do
  let result ← match fetched with
    | .ok tree => publish plan fuel tree
    | .error e => pure (.error e)
  modify fun w => w.modifyConfig (·.ended w.now result)
  return result

end LayeredConfig.Live
