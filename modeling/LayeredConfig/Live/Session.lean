import LayeredConfig.Live.Fetch
import LayeredConfig.Live.Publish
/-!
# Sessions

A session is a configuration in use: a world and the tasks that work on it. Tasks take turns; a task
that has to wait gives its turn back. At most one refresh fetches at a time: a refresh that comes
while another one is under way waits for the outcome of that one.

A session moves in steps: time passes, a task is added, a task gets its turn, a script runs outside
of all tasks. Any sequence of moves is a run; who gets the next turn is decided elsewhere.
-/
namespace LayeredConfig.Live

/-- A refresh as those see it who wait for its outcome. -/
inductive Flight where
  | underWay
  | settled (result : Except ConfigError Tree)
  | abandoned

/-- Why a task refreshes: once, or again and again with the next time at `due`. -/
inductive Purpose where
  | once
  | periodic (due : Nat)
  deriving DecidableEq, Repr

/-- How something that was to be done ended; for several things at once, how each of them did. -/
inductive Outcome where
  | replied (reply : Reply)
  | panicked
  | exhausted
  | cancelled
  | several (outcomes : List Outcome)

/-- What a task is there for. -/
inductive Job (σ : Type) where
  -- Refreshes the configuration.
  | refresh
  -- Gets the tree, refreshing the configuration if there is none yet.
  | getOrRefresh
  -- Refreshes the configuration periodically.
  | loop
  -- Runs a script.
  | perform (script : Script σ)
  -- Lets time pass.
  | pause (millis : Nat)
  -- Has another task dropped when it would get its next turn.
  | abort (task : Nat)
  -- Waits for the last loop that was started, if nobody else does.
  | join
  -- Has several tasks do jobs, each after some time, and waits for all of them. An abort counts
  -- the tasks among these.
  | concurrently (jobs : List (Nat × Job σ))
  deriving Inhabited

/-- A job whose target is counted from a number on. -/
def Job.shiftAbort {σ : Type} (first : Nat) : Job σ → Job σ
  | .abort t => .abort (first + t)
  | job => job

/-- A task. -/
inductive Task (σ : Type) where
  -- Has not had a turn yet; will sleep first.
  | fresh (delay : Nat) (job : Job σ)
  | sleeping (deadline : Nat) (job : Job σ)
  -- Leads a refresh and waits for an answer, at the latest until a time if that is known.
  | leading (purpose : Purpose) (flight : Nat) (deadline : Option Nat) (progress : Progress)
  -- Waits for the outcome of a refresh.
  | following (purpose : Purpose) (flight : Nat)
  -- Waits for another task, but not for ever.
  | awaiting (child deadline : Nat)
  -- Waits for the time of the next periodic refresh.
  | ticking (due : Nat)
  -- Waits for a loop to end.
  | joining (loop : Nat)
  -- Waits for tasks, one after the other; `pending` are those for which it has not waited yet.
  | gathering (tasks pending : List Nat)
  | over (outcome : Outcome)

/-- A configuration in use. `fuel` bounds the work of every script, and the tasks in `doomed` are
dropped when they would get their next turn. `loop` is the last loop that was started, unless
somebody has waited for it. -/
structure Session (σ : Type) where
  plan : Plan σ
  fuel : Nat
  world : World σ
  flights : Array Flight := #[]
  tasks : List (Task σ) := []
  doomed : List Nat := []
  loop : Option Nat := none

variable {σ : Type}

namespace Session

def task? (s : Session σ) (t : Nat) : Option (Task σ) := s.tasks[t]?

def setTask (s : Session σ) (t : Nat) (task : Task σ) : Session σ :=
  { s with tasks := s.tasks.set t task }

def setFlight (s : Session σ) (f : Nat) (flight : Flight) : Session σ :=
  { s with flights := s.flights.setIfInBounds f flight }

def outcome? (s : Session σ) (t : Nat) : Option Outcome :=
  match s.task? t with
  | some (.over outcome) => some outcome
  | _ => none

/-- The session with one more task, whose number is that of the tasks before. -/
def spawn (s : Session σ) (delay : Nat) (job : Job σ) : Session σ :=
  { s with tasks := s.tasks ++ [.fresh delay job] }

/-- The session with a task for each of several jobs, and the numbers of these tasks. -/
def spawnAll (s : Session σ) (jobs : List (Nat × Job σ)) : Session σ × List Nat :=
  let first := s.tasks.length
  let tasks := jobs.map fun (delay, job) => .fresh delay (job.shiftAbort first)
  ({ s with tasks := s.tasks ++ tasks }, (List.range jobs.length).map (first + ·))

/-- Makes tasks of the loops that scripts have started. -/
def adoptLoops (s : Session σ) : Session σ :=
  let tasks := s.tasks ++ List.replicate s.world.loops (.fresh 0 .loop)
  { s with
    tasks
    world := { s.world with loops := 0 }
    loop := if s.world.loops = 0 then s.loop else some (tasks.length - 1) }

def outcomeOf {α : Type} (reply : α → Reply) : Except Stop α → Outcome
  | .ok a => .replied (reply a)
  | .error .panicked => .panicked
  | .error .exhausted => .exhausted

def perform (s : Session σ) (script : Script σ) : Session σ × Outcome :=
  let (result, world) := (run s.plan s.fuel script).run.run s.world
  (adoptLoops { s with world }, outcomeOf id result)

/-- The outcome of a refresh as a reply. -/
def refreshReply (result : Except ConfigError Tree) : Reply :=
  .outcome (result.map Tree.toValue)

/-- A task is through with a refresh. A loop ends if the configuration is closed. -/
def endRefresh (s : Session σ) (t : Nat) (purpose : Purpose) (result : Except ConfigError Tree) :
    Session σ :=
  match purpose with
  | .once => s.setTask t (.over (.replied (refreshReply result)))
  | .periodic due =>
    let stop := s.world.config.closed || match result with
      | .error e => e.isClosed
      | .ok _ => false
    s.setTask t (if stop then .over (.replied .nothing) else .ticking due)

/-- The refresh under way is over, with an outcome for those who wait for it or without. -/
def land (s : Session σ) (f : Nat) (flight : Flight) : Session σ :=
  { s.setFlight f flight with world := s.world.modifyConfig ({ · with inFlight := none }) }

/-- The refresh under way is broken off, and the task that leads it with it. -/
def crash (s : Session σ) (t f : Nat) (stop : Stop) : Session σ :=
  (s.land f .abandoned).setTask t (.over (outcomeOf refreshReply (.error stop)))

def brokeDown : Except ConfigError Tree → Bool
  | .error e => e.isBreakdown
  | .ok _ => false

/-- The leader of a refresh goes on: it waits again, or publishes what was fetched. -/
def lead (s : Session σ) (t : Nat) (purpose : Purpose) (f : Nat) : Fetched → Session σ
  | .waiting (.after millis) progress =>
    s.setTask t (.leading purpose f (some (s.world.now + millis)) progress)
  | .waiting _ progress => s.setTask t (.leading purpose f none progress)
  | .over fetched =>
    if brokeDown fetched then s.crash t f .panicked
    else
      let (concluded, world) := (conclude s.plan s.fuel fetched).run.run s.world
      let s := adoptLoops { s with world }
      match concluded with
      | .ok result => (s.land f (.settled result)).endRefresh t purpose result
      | .error stop => s.crash t f stop

/-- A task begins a refresh, or joins the one that is under way. -/
def beginRefresh (s : Session σ) (t : Nat) (purpose : Purpose) : Session σ :=
  if s.world.config.closed then
    s.endRefresh t purpose (.error (.closed "reloadable config"))
  else match s.world.config.inFlight with
    | some f => s.setTask t (.following purpose f)
    | none =>
      let f := s.flights.size
      let world := s.world.modifyConfig ({ · with inFlight := some f })
      let (fetched, world) := (fetch s.plan).run world
      lead { s with world, flights := s.flights.push .underWay } t purpose f fetched

def microsPerMilli : Nat := 1000

/-- A task that waits for another one goes on if that one has ended or if it has waited long
enough. -/
def checkChild (s : Session σ) (t child deadline : Nat) : Session σ :=
  match s.outcome? child with
  | some (.replied reply) => s.setTask t (.over (.replied reply))
  | some .exhausted => s.setTask t (.over .exhausted)
  | some _ => s.setTask t (.over (.replied (.outcome (.error .refreshAborted))))
  | none =>
    if deadline ≤ s.world.now then
      s.setTask t (.over (.replied (.outcome
        (.error (.timeout (s.plan.getTimeout * microsPerMilli))))))
    else s.setTask t (.awaiting child deadline)

/-- A task gets the tree, or has another task refresh the configuration. -/
def beginGet (s : Session σ) (t : Nat) : Session σ :=
  match s.world.config.current with
  | some tree => s.setTask t (.over (.replied (refreshReply (.ok tree))))
  | none =>
    let child := s.tasks.length
    (s.spawn 0 .refresh).checkChild t child (s.world.now + s.plan.getTimeout)

/-- A tick that is late by more than this counts as missed. -/
def tickTolerance : Nat := 5

/-- The time of the tick after one that was due and comes now. -/
def nextTick (period due now : Nat) : Nat :=
  if due + tickTolerance < now then now + period else due + period

/-- A loop refreshes if it is time to, and ends if the configuration is closed. -/
def tick (s : Session σ) (t due : Nat) : Session σ :=
  match s.plan.refreshInterval with
  | none => s.setTask t (.over (.replied .nothing))
  | some period =>
    if s.world.config.closed then s.setTask t (.over (.replied .nothing))
    else if due ≤ s.world.now then
      s.beginRefresh t (.periodic (nextTick period due s.world.now))
    else s.setTask t (.ticking due)

/-- A task that waits for a loop goes on if that one has ended. -/
def checkLoop (s : Session σ) (t loop : Nat) : Session σ :=
  match s.outcome? loop with
  | some (.replied _) => s.setTask t (.over (.replied (.flag true)))
  | some other => s.setTask t (.over other)
  | none => s.setTask t (.joining loop)

/-- A task that waits for others one after the other goes on with the first that has not ended, and
ends with the outcomes of all of them. -/
def gather (s : Session σ) (t : Nat) (tasks pending : List Nat) : Session σ :=
  match pending.dropWhile fun u => (s.outcome? u).isSome with
  | [] => s.setTask t (.over (.several (tasks.filterMap s.outcome?)))
  | pending => s.setTask t (.gathering tasks pending)

def beginJob (s : Session σ) (t : Nat) : Job σ → Session σ
  | .refresh => s.beginRefresh t .once
  | .getOrRefresh => s.beginGet t
  | .loop => s.tick t s.world.now
  | .perform script =>
    let (s, outcome) := s.perform script
    s.setTask t (.over outcome)
  | .pause millis =>
    if millis = 0 then s.setTask t (.over (.replied .nothing))
    else s.setTask t (.sleeping (s.world.now + millis) (.pause 0))
  | .abort target =>
    let s := if (s.outcome? target).isSome then s else { s with doomed := s.doomed ++ [target] }
    s.setTask t (.over (.replied .nothing))
  | .join =>
    match s.loop with
    | some loop => { s with loop := none }.checkLoop t loop
    | none => s.setTask t (.over (.replied .nothing))
  | .concurrently jobs =>
    let (s, tasks) := s.spawnAll jobs
    s.gather t tasks tasks

/-- Drops a task. If it leads a refresh that refresh is abandoned. -/
def drop (s : Session σ) (t : Nat) : Session σ :=
  let s := { s with doomed := s.doomed.filter (· != t) }
  match s.task? t with
  | none | some (.over _) => s
  | some (.leading _ f _ _) => (s.land f .abandoned).setTask t (.over .cancelled)
  | some _ => s.setTask t (.over .cancelled)

def turn (s : Session σ) (t : Nat) : Session σ :=
  if s.doomed.contains t then s.drop t
  else match s.task? t with
    | none | some (.over _) => s
    | some (.fresh delay job) =>
      if delay = 0 then s.beginJob t job
      else s.setTask t (.sleeping (s.world.now + delay) job)
    | some (.sleeping deadline job) =>
      if deadline ≤ s.world.now then s.beginJob t job else s
    | some (.leading purpose f deadline progress) =>
      if deadline.all (· ≤ s.world.now) then
        let (fetched, world) := (progress.resume s.plan).run s.world
        lead { s with world } t purpose f fetched
      else s
    | some (.following purpose f) =>
      match s.flights[f]? with
      | some (.settled result) => s.endRefresh t purpose result
      | some .underWay => s
      | some .abandoned | none => s.endRefresh t purpose (.error .refreshAborted)
    | some (.awaiting child deadline) => s.checkChild t child deadline
    | some (.ticking due) => s.tick t due
    | some (.joining loop) => s.checkLoop t loop
    | some (.gathering tasks pending) => s.gather t tasks pending

def passTo (s : Session σ) (moment : Nat) : Session σ :=
  { s with world := { s.world with now := max s.world.now moment } }

/-- What can happen next in a session. -/
inductive Move (σ : Type) where
  | passTo (moment : Nat)
  | spawn (delay : Nat) (job : Job σ)
  | turn (task : Nat)
  | perform (script : Script σ)

def step (s : Session σ) : Move σ → Session σ
  | .passTo moment => s.passTo moment
  | .spawn delay job => s.spawn delay job
  | .turn t => s.turn t
  | .perform script => (s.perform script).1

end Session
end LayeredConfig.Live
