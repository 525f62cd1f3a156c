import LayeredConfig.Live.Session
/-!
# Timelines

A timeline decides who gets the next turn in a session. Tasks that can go on stand in a queue. When
the queue is empty the answers that come from files arrive, and when there are none time jumps to
the next moment for which somebody waits. Outside of the tasks there is a caller who takes steps one
after the other; some of them wait, and while the caller waits the tasks get their turns.
-/
namespace LayeredConfig.Live

/-- Who waits for a moment. -/
inductive Sleeper where
  | caller
  | task (t : Nat)
  deriving DecidableEq, Repr

/-- A session with its queue and with those who wait for a moment, in the order in which they began
to. -/
structure Timeline (σ : Type) where
  session : Session σ
  queue : List Nat := []
  timers : List (Sleeper × Nat) := []

variable {σ : Type}

namespace Session

/-- Something has happened for which the task was waiting, other than that time passed. -/
def canGoOn (s : Session σ) (t : Nat) : Bool :=
  match s.task? t with
  | none | some (.over _) => false
  | some task =>
    s.doomed.contains t || match task with
      | .fresh _ _ => true
      | .following _ f =>
        match s.flights[f]? with
        | some .underWay => false
        | _ => true
      | .awaiting child _ => (s.outcome? child).isSome
      | .ticking due => s.world.config.closed || due ≤ s.world.now
      | .joining loop => (s.outcome? loop).isSome
      | .gathering _ pending => pending.head?.all fun u => (s.outcome? u).isSome
      | _ => false

def deadline? (s : Session σ) (t : Nat) : Option Nat :=
  match s.task? t with
  | some (.sleeping deadline _) | some (.awaiting _ deadline) | some (.ticking deadline) =>
    some deadline
  | some (.leading _ _ deadline _) => deadline
  | _ => none

/-- The task waits for files to be read. -/
def readsFiles (s : Session σ) (t : Nat) : Bool :=
  match s.task? t with
  | some (.leading _ _ none _) => true
  | _ => false

end Session

namespace Timeline

/-- Puts the tasks that can go on at the end of the queue, each once. -/
def enqueue (l : Timeline σ) : Timeline σ :=
  let woken := (List.range l.session.tasks.length).filter fun t =>
    l.session.canGoOn t && !l.queue.contains t
  { l with queue := l.queue ++ woken }

/-- Notes for which moment a task waits now. -/
def setTimer (l : Timeline σ) (t : Nat) : Timeline σ :=
  let others := l.timers.filter fun (who, _) => who != .task t
  match l.session.deadline? t with
  | none => { l with timers := others }
  | some deadline =>
    if l.timers.contains (.task t, deadline) then l
    else { l with timers := others ++ [(.task t, deadline)] }

/-- The timeline with another session, in which something was done. -/
def goOn (l : Timeline σ) (session : Session σ) : Timeline σ :=
  enqueue { l with session }

/-- Gives a task its turn. A loop whose next tick has come already goes on at once. -/
def turn (l : Timeline σ) (t : Nat) : Nat → Timeline σ
  | 0 => l
  | fuel + 1 =>
    let session := l.session.turn t
    let l := { l with session }
    match session.task? t with
    | some (.ticking due) =>
      if due ≤ session.world.now then l.turn t fuel else (l.setTimer t).enqueue
    | _ => (l.setTimer t).enqueue

def nextMoment? (l : Timeline σ) : Option Nat :=
  (l.timers.map Prod.snd).min?

/-- Time jumps to a moment, and those who wait for it can go on. -/
def jump (l : Timeline σ) (moment : Nat) : Timeline σ :=
  let (due, later) := l.timers.partition fun (_, deadline) => deadline ≤ moment
  let woken := due.filterMap fun
    | (.task t, _) => some t
    | (.caller, _) => none
  { l with
    session := l.session.passTo moment
    timers := later
    queue := l.queue ++ woken.filter fun t => !l.queue.contains t }

/-- What the caller waits for. -/
inductive Goal where
  | moment (m : Nat)
  | tasks (ts : List Nat)

/-- The caller need not wait any longer. -/
def Goal.reached (s : Session σ) : Goal → Bool
  | .moment m => m ≤ s.world.now
  | .tasks ts => ts.all fun t => (s.outcome? t).isSome

/-- Tasks get their turns until the caller need not wait any longer, or nothing more can happen.
The caller looks when the queue is empty and whenever time has jumped. -/
def waitFor (goal : Goal) : Nat → Timeline σ → Timeline σ
  | 0, l => l
  | fuel + 1, l =>
    match l.queue with
    | t :: rest => waitFor goal fuel ({ l with queue := rest }.turn t (fuel + 1))
    | [] =>
      if goal.reached l.session then l
      else match (List.range l.session.tasks.length).find? l.session.readsFiles with
        | some t => waitFor goal fuel { l with queue := [t] }
        | none =>
          match l.nextMoment? with
          | none => l
          | some moment =>
            let l := l.jump moment
            if goal.reached l.session then l else waitFor goal fuel l

/-- Waits for a goal, unless it has been reached already. -/
def await (l : Timeline σ) (goal : Goal) : Timeline σ :=
  if goal.reached l.session then l
  else
    let l := match goal with
      | .moment m => { l with timers := l.timers ++ [(.caller, m)] }
      | .tasks _ => l
    waitFor goal l.session.fuel l

/-- A step of the caller. -/
inductive Step (σ : Type) where
  -- Runs a script.
  | perform (script : Script σ)
  -- Has a task do a job and waits for it.
  | run (job : Job σ)
  -- Lets time pass.
  | pause (millis : Nat)
  -- Waits for the last loop that was started.
  | join
  -- Has several tasks do jobs, each after some time, and waits for all of them. An abort counts
  -- the tasks among these.
  | concurrently (jobs : List (Nat × Job σ))

def spawn (l : Timeline σ) (delay : Nat) (job : Job σ) : Timeline σ :=
  l.goOn (l.session.spawn delay job)

/-- How a task ended; one that can never end counts as exhausted. -/
def outcome (l : Timeline σ) (t : Nat) : Outcome :=
  (l.session.outcome? t).getD .exhausted

def step (l : Timeline σ) : Step σ → Timeline σ × Outcome
  | .perform script =>
    let (session, outcome) := l.session.perform script
    (l.goOn session, outcome)
  | .run job =>
    let t := l.session.tasks.length
    let l := (l.spawn 0 job).await (.tasks [t])
    (l, l.outcome t)
  | .pause millis =>
    (l.await (.moment (l.session.world.now + millis)), .replied .nothing)
  | .join =>
    match l.session.loop with
    | none => (l, .replied .nothing)
    | some t =>
      let l := { l with session := { l.session with loop := none } }.await (.tasks [t])
      (l, match l.outcome t with
        | .replied _ => .replied (.flag true)
        | other => other)
  | .concurrently jobs =>
    let (session, tasks) := l.session.spawnAll jobs
    let l := (l.goOn session).await (.tasks tasks)
    (l, .several (tasks.map l.outcome))

end Timeline
end LayeredConfig.Live
