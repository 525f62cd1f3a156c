import LayeredConfig.Live.Source
/-!
# Running scripts

Running a script changes a world. An update of a cell calls its listeners, which are scripts again
and may update any cell; an update of a cell whose listeners are being called is put off until they
are through. A script that panics breaks off whatever is under way, but every mark that was set is
taken back.

The amount of fuel bounds the work, since listeners may go on updating each other for ever; running
out of it is told apart from every other outcome.
-/
namespace LayeredConfig.Live

/-- Why a script did not come to its end. -/
inductive Stop where
  | panicked
  | exhausted
  deriving DecidableEq, Repr

/-- Something that changes a world and may be broken off; what was changed until then stays. -/
abbrev Act (σ : Type) := ExceptT Stop (StateM (World σ))

variable {σ : Type}

def readCell (c : Nat) : Act σ (Cell σ) := do
  return (← get).cell c

def changeCell (c : Nat) (f : Cell σ → Cell σ) : Act σ Unit :=
  modify fun w => w.modifyCell c f

def record (e : Event) : Act σ Unit :=
  modify fun w => w.log e

/-- Does something between two changes of the world, the second of which happens in any case. -/
def between {α : Type} (before after : World σ → World σ) (act : Act σ α) : Act σ α :=
  ExceptT.mk do
    modify before
    let result ← act.run
    modify after
    pure result

theorem run_between {α : Type} (before after : World σ → World σ) (act : Act σ α) (w : World σ) :
    (between before after act).run.run w =
      (((act.run.run (before w)).1, after (act.run.run (before w)).2)) := rfl

/-- Does something while a cell is marked as notifying. -/
def notifying {α : Type} (c : Nat) (act : Act σ α) : Act σ α :=
  between (·.modifyCell c .mark) (·.modifyCell c .unmark) act

/-- Adds a listener to a cell and gives its number. -/
def register (c : Nat) (l : Listener σ) (atOnce : Bool) : Act σ Nat := do
  let id := (← readCell c).nextId
  changeCell c (·.register l)
  record (.registered c id atOnce)
  return id

/-- The first update that was put off, which no longer counts as such. -/
def nextDeferred (c : Nat) : Act σ (Option (Option Value)) := do
  match (← readCell c).deferred with
  | [] => return none
  | value :: rest =>
    changeCell c fun cell => { cell with deferred := rest }
    return some value

/-- Puts a value into a cell, unless it is already there or the cell is closed. Gives the listeners
to be called, in order, and nothing for a closed cell. -/
def store (c : Nat) (value : Option Value) : Act σ (Option (Bool × List (Nat × Listener σ))) := do
  let cell ← readCell c
  if cell.closed then return none
  else if cell.value == value then return some (false, [])
  else
    changeCell c fun cell => { cell with value }
    record (.stored c value)
    return some (true, cell.order.arrange cell.listeners)

/-- What a derived cell starts with; nothing while no tree is loaded. -/
def seed (extract : Extractor) : Option Tree → Except ConfigError (Option Value)
  | some tree => extract tree
  | none => .ok none

/-- Adds an entry to the derived cells that follow the tree. -/
def ConfigState.track (s : ConfigState) (t : Tracked) : ConfigState :=
  { s with nextId := s.nextId + 1, tracked := s.tracked ++ [t] }

/-- Adds a cell that follows the tree; gives the number of the cell and that of its entry. -/
def track (extract : Extractor) (value : Option Value) : Act σ (Nat × Nat) := do
  let w ← get
  let c := w.cells.length
  let entry := w.config.nextId
  set ((w.addCell { value }).modifyConfig (·.track ⟨entry, c, extract⟩))
  return (c, entry)

/-- Removes an entry from the derived cells that follow the tree. -/
def ConfigState.untrack (s : ConfigState) (entry : Nat) : ConfigState :=
  { s with tracked := s.tracked.filter fun t => t.id != entry }

def ConfigState.shut (s : ConfigState) : ConfigState :=
  { s with closed := true, tracked := [] }

/-- Closes a source; that it fails to close changes nothing. -/
def closeSource (index : Nat) (source : Source σ) : Act σ Unit :=
  modify fun w =>
    { w with surroundings := (source.close w.surroundings).2 }.log (.sourceClosed index)

/-- Closes sources, counting from `index`. -/
def closeSources (index : Nat) : List (Source σ) → Act σ Unit
  | [] => return
  | source :: rest => do
    closeSource index source
    closeSources (index + 1) rest

mutual

def run (plan : Plan σ) : Nat → Script σ → Act σ Reply
  | 0, _ => throw .exhausted
  | fuel + 1, script =>
    match script with
    | .done reply => return reply
    | .panic => throw .panicked
    | .update c value next => do run plan fuel (next (← update plan fuel c value))
    | .register c name listener next => do
      run plan fuel (next (← register c ⟨name, listener⟩ false))
    | .registerAndCall c name listener next => do
      run plan fuel (next (← registerAndCall plan fuel c ⟨name, listener⟩))
    | .deregister c listener next => do
      changeCell c (·.deregister listener)
      record (.deregistered c listener)
      run plan fuel next
    | .close c next => do
      closeCell plan fuel c
      run plan fuel next
    | .onClose c hook next => do
      if (← readCell c).closed then
        record (.hookRan c)
        let _ ← run plan fuel hook
      else changeCell c fun cell => { cell with hook := some hook }
      run plan fuel next
    | .look c next => do run plan fuel (next (← readCell c).value)
    | .derive extract next => do run plan fuel (next (← derive plan fuel extract))
    | .untrack entry next => do
      modify (·.modifyConfig (·.untrack entry))
      run plan fuel next
    | .tree next => do run plan fuel (next (← get).config.current)
    | .shut next => do
      shut plan fuel
      run plan fuel next
    | .start next => do
      let periodic := plan.refreshInterval.isSome
      if periodic then modify fun w => { w with loops := w.loops + 1 }
      run plan fuel (next periodic)
    | .inspect next => do run plan fuel (next (← get).surroundings)
    | .alter change next => do
      modify fun w => { w with surroundings := change w.surroundings }
      run plan fuel next
    | .note listener step reply next => do
      record (.noted listener step reply)
      run plan fuel next
termination_by structural fuel => fuel

def call (plan : Plan σ) (fuel : Nat) (c : Nat) (id : Nat) (l : Listener σ)
    (value : Option Value) : Act σ Unit :=
  match fuel with
  | 0 => throw .exhausted
  | fuel + 1 => do
    record (.called c id l.name value)
    let _ ← run plan fuel (l.react value)
termination_by structural fuel

def callAll (plan : Plan σ) (fuel : Nat) (c : Nat) (listeners : List (Nat × Listener σ))
    (value : Option Value) : Act σ Unit :=
  match fuel, listeners with
  | 0, _ => throw .exhausted
  | _ + 1, [] => return
  | fuel + 1, (id, l) :: rest => do
    call plan fuel c id l value
    callAll plan fuel c rest value
termination_by structural fuel

/-- Applies an update and then those that were put off. Gives whether the first one changed the
value, and nothing if the cell was closed before. -/
def deliver (plan : Plan σ) (fuel : Nat) (c : Nat) (next : Option (Option Value)) :
    Act σ (Option Bool) :=
  match fuel, next with
  | 0, _ => throw .exhausted
  | _ + 1, none => return none
  | fuel + 1, some value => do
    match ← store c value with
    | none => return none
    | some (changed, listeners) =>
      callAll plan fuel c listeners value
      let _ ← deliver plan fuel c (← nextDeferred c)
      return some changed
termination_by structural fuel

/-- Replaces the value of a cell. Gives whether that changed it; an update that was put off does not
count as a change. -/
def update (plan : Plan σ) (fuel : Nat) (c : Nat) (value : Option Value) :
    Act σ (Except ConfigError Bool) :=
  match fuel with
  | 0 => throw .exhausted
  | fuel + 1 => do
    let cell ← readCell c
    if cell.closed then return .error (.closed "reloadable")
    else if cell.notifying then
      changeCell c (·.defer value)
      record (.deferred c value)
      return .ok false
    else
      let changed ← notifying c (deliver plan fuel c (some value))
      return .ok (changed.getD false)
termination_by structural fuel

/-- Calls a new listener if the cell has a value. -/
def callIfPresent (plan : Plan σ) (fuel : Nat) (c : Nat) (id : Nat) (l : Listener σ) :
    Act σ Unit :=
  match fuel with
  | 0 => throw .exhausted
  | fuel + 1 => do
    match (← readCell c).value with
    | some value => call plan fuel c id l (some value)
    | none => return
termination_by structural fuel

/-- Adds a listener and calls it at once if the cell has a value. Updates of the cell wait until the
call is over. -/
def registerAndCall (plan : Plan σ) (fuel : Nat) (c : Nat) (l : Listener σ) : Act σ Nat :=
  match fuel with
  | 0 => throw .exhausted
  | fuel + 1 => do
    if (← readCell c).notifying then
      let id ← register c l true
      callIfPresent plan fuel c id l
      return id
    else
      notifying c do
        let id ← register c l true
        callIfPresent plan fuel c id l
        let _ ← deliver plan fuel c (← nextDeferred c)
        return id
termination_by structural fuel

/-- Closes a cell; its hook runs when it is closed for the first time. -/
def closeCell (plan : Plan σ) (fuel : Nat) (c : Nat) : Act σ Unit :=
  match fuel with
  | 0 => throw .exhausted
  | fuel + 1 => do
    let cell ← readCell c
    if cell.closed then return
    else
      changeCell c .shut
      record (.cellClosed c)
      match cell.hook with
      | some hook =>
        record (.hookRan c)
        let _ ← run plan fuel hook
      | none => return
termination_by structural fuel

def closeCells (plan : Plan σ) (fuel : Nat) (cells : List Nat) : Act σ Unit :=
  match fuel, cells with
  | 0, _ => throw .exhausted
  | _ + 1, [] => return
  | fuel + 1, c :: rest => do
    closeCell plan fuel c
    closeCells plan fuel rest
termination_by structural fuel

/-- Makes a cell that follows the tree. While a tree is being published, and once the configuration
is closed, this is refused; if the first value cannot be computed nothing is made. -/
def derive (plan : Plan σ) (fuel : Nat) (extract : Extractor) : Act σ (Except ConfigError Nat) :=
  match fuel with
  | 0 => throw .exhausted
  | fuel + 1 => do
    let state := (← get).config
    if state.dispatching then return .error (.reentrant "registration")
    else if state.closed then return .error (.closed "reloadable config")
    else match seed extract state.current with
      | .error e => return .error e
      | .ok value =>
        let (c, entry) ← track extract value
        let _ ← run plan fuel (.onClose c (.untrack entry (.done .nothing)) (.done .nothing))
        return .ok c
termination_by structural fuel

/-- Closes the configuration: first its derived cells, then its sources. -/
def shut (plan : Plan σ) (fuel : Nat) : Act σ Unit :=
  match fuel with
  | 0 => throw .exhausted
  | fuel + 1 => do
    let state := (← get).config
    if state.closed then return
    else
      modify (·.modifyConfig .shut)
      record .configClosed
      closeCells plan fuel (state.tracked.map Tracked.cell)
      closeSources 0 plan.sources
termination_by structural fuel

end

end LayeredConfig.Live
