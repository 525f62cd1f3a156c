import LayeredConfig.Proofs.Live.Apart
/-!
# What a move does to refreshes

A move has to do with at most one refresh: `Moved` lists what it can do, and `moved` says that the
list is complete. Everything else that happens in a session is aside from refreshes, however much it
is (`Aside`). What is true of refreshes in every run is proved along this list.
-/
namespace LayeredConfig.Live

variable {σ : Type}

/-- The refresh that a task leads or follows. -/
def Task.flight? : Task σ → Option Nat
  | .leading _ f _ _ | .following _ f => some f
  | _ => none

/-- The task is not over, and neither leads nor follows a refresh. -/
def Task.free : Task σ → Bool
  | .leading .. | .following .. | .over _ => false
  | _ => true

theorem Task.flight?_of_passive {task : Task σ} (passive : task.passive = true) :
    task.flight? = none := by
  cases task with
  | leading | following => cases passive
  | _ => rfl

theorem Ended.flight? {purpose : Purpose} {result : Except ConfigError Tree} {task : Task σ}
    (ended : Ended purpose result task) : task.flight? = none :=
  Task.flight?_of_passive ended.passive

theorem Task.flight?_of_free {task : Task σ} (free : task.free = true) : task.flight? = none := by
  cases task with
  | leading | following => cases free
  | _ => rfl

/-- What somebody who follows a refresh hears of it in the end. -/
def Flight.Tells (flight : Option Flight) (result : Except ConfigError Tree) : Prop :=
  match flight with
  | some (.settled result') => result = result'
  | some .underWay => False
  | some .abandoned | none => result = .error .refreshAborted

/-- The state of a configuration once a refresh failed. -/
def ConfigState.failed (s : ConfigState) (e : ConfigError) : ConfigState :=
  { s with
    inFlight := none
    lastError := if e.isClosed then s.lastError else some e }

theorem ConfigState.failed_of_ended (s : ConfigState) (now : Nat) (e : ConfigError) :
    { s.ended now (.error e) with inFlight := none } = s.failed e := by
  cases e <;> rfl

namespace Session

variable {s s' : Session σ} {t : Nat}

/-- How the task of somebody may differ after a move that is aside from refreshes. -/
inductive Shift (flights : Array Flight) : Option (Task σ) → Option (Task σ) → Prop where
  | same (task : Option (Task σ)) : Shift flights task task
  | aside {old new : Option (Task σ)} (free : ∀ task ∈ old, task.free = true)
    (plain : ∀ task ∈ new, task.flight? = none) : Shift flights old new
  | cancelled (purpose : Purpose) (f : Nat) :
    Shift flights (some (.following purpose f)) (some (.over .cancelled))
  | told {purpose : Purpose} {f : Nat} {result : Except ConfigError Tree} {task : Task σ}
    (tells : Flight.Tells flights[f]? result) (ended : Ended purpose result task) :
    Shift flights (some (.following purpose f)) (some task)

/-- Nothing happened that has to do with refreshes, except that some may no longer follow one. -/
structure Aside (s s' : Session σ) : Prop where
  flights : s'.flights = s.flights
  apart : Aloof s.world s'.world
  tasks : ∀ t, Shift s.flights (s.task? t) (s'.task? t)

/-- A task among others of which one was replaced and to which some were added. -/
theorem task?_of_set {new : List (Task σ)} {old task : Task σ} (found : s.task? t = some old)
    (tasks : s'.tasks = (s.tasks ++ new).set t task) (u : Nat) :
    s'.task? u = if u = t then some task else s.task? u <|> new[u - s.tasks.length]? := by
  have here : t < s.tasks.length := (List.getElem?_eq_some_iff.mp found).1
  rw [task?, tasks, List.getElem?_set]
  by_cases same : t = u
  · subst same
    have there : t < (s.tasks ++ new).length := by
      rw [List.length_append]
      exact Nat.lt_add_right _ here
    rw [if_pos rfl, if_pos there, if_pos rfl]
  · rw [if_neg same, if_neg (Ne.symm same), List.getElem?_append, task?]
    split
    next inside => rw [List.getElem?_eq_getElem inside]; rfl
    next outside => rw [List.getElem?_eq_none (Nat.le_of_not_lt outside)]; rfl

namespace Aside

theorem of_append {new : List (Task σ)} (flights : s'.flights = s.flights)
    (apart : Aloof s.world s'.world) (tasks : s'.tasks = s.tasks ++ new)
    (plain : ∀ task ∈ new, task.flight? = none) : Aside s s' where
  flights
  apart
  tasks u := by
    rw [task?, task?, tasks, List.getElem?_append]
    split
    · exact .same _
    next outside =>
      rw [List.getElem?_eq_none (Nat.le_of_not_lt outside)]
      exact .aside nofun fun task added => plain task (List.mem_of_getElem? added)

theorem of_set {new : List (Task σ)} {old task : Task σ} (flights : s'.flights = s.flights)
    (apart : Aloof s.world s'.world) (found : s.task? t = some old) (free : old.free = true)
    (tasks : s'.tasks = (s.tasks ++ new).set t task) (plain : task.flight? = none)
    (plainNew : ∀ task ∈ new, task.flight? = none) : Aside s s' where
  flights
  apart
  tasks u := by
    rw [task?_of_set found tasks]
    split
    next same =>
      subst same
      rw [found]
      exact .aside (by simpa using free) (by simpa using plain)
    next =>
      cases before : s.task? u with
      | some task => exact .same _
      | none => exact .aside nofun fun task added => plainNew task (List.mem_of_getElem? added)

theorem of_replace {old task : Task σ} (flights : s'.flights = s.flights)
    (apart : Aloof s.world s'.world) (found : s.task? t = some old) (free : old.free = true)
    (tasks : s'.tasks = s.tasks.set t task) (plain : task.flight? = none) : Aside s s' := by
  have none : s'.tasks = (s.tasks ++ []).set t task := by rw [tasks, List.append_nil]
  exact of_set flights apart found free none plain (List.forall_mem_nil _)

theorem setTask {old task : Task σ} (found : s.task? t = some old) (free : old.free = true)
    (plain : task.flight? = none) : Aside s (s.setTask t task) :=
  of_replace rfl (.refl _) found free rfl plain

end Aside

/-! ### The list of what moves do -/

/-- The world in which a new refresh is under way. -/
def marked (s : Session σ) : World σ :=
  s.world.modifyConfig ({ · with inFlight := some s.flights.size })

/-- The session in which a new refresh has asked its first sources. -/
def begun (s : Session σ) : Session σ :=
  { s with
    world := ((fetch s.plan).run s.marked).2
    flights := s.flights.push .underWay }

/-- The session in which a fetch has gone on. -/
def resumed (s : Session σ) (progress : Progress) : Session σ :=
  { s with world := ((progress.resume s.plan).run s.world).2 }

/-- What a move does to refreshes. -/
inductive Moved (s : Session σ) : Session σ → Prop where
  | aside {s' : Session σ} (aside : Aside s s') : Moved s s'
  | joined (t : Nat) (purpose : Purpose) (f : Nat) {old : Task σ} (found : s.task? t = some old)
    (free : old.free = true) (opened : s.world.config.closed = false)
    (flying : s.world.config.inFlight = some f) : Moved s (s.setTask t (.following purpose f))
  | began (t : Nat) (purpose : Purpose) {old : Task σ} (found : s.task? t = some old)
    (free : old.free = true) (opened : s.world.config.closed = false)
    (idle : s.world.config.inFlight = none) :
    Moved s (s.begun.lead t purpose s.flights.size ((fetch s.plan).run s.marked).1)
  | wentOn (t : Nat) (purpose : Purpose) (f : Nat) (deadline : Option Nat) (progress : Progress)
    (found : s.task? t = some (.leading purpose f deadline progress)) :
    Moved s ((s.resumed progress).lead t purpose f ((progress.resume s.plan).run s.world).1)
  | dropped (t : Nat) (purpose : Purpose) (f : Nat) (deadline : Option Nat) (progress : Progress)
    (doomed : List Nat) (found : s.task? t = some (.leading purpose f deadline progress)) :
    Moved s ((land { s with doomed } f .abandoned).setTask t (.over .cancelled))

section Parts

variable {old : Task σ}

theorem beginRefresh_moved (found : s.task? t = some old) (free : old.free = true)
    (purpose : Purpose) : Moved s (s.beginRefresh t purpose) := by
  rw [beginRefresh]
  split
  · obtain ⟨task, ends, ended⟩ :=
      endRefresh_spec s t purpose (.error (.closed "reloadable config"))
    rw [ends]
    exact .aside (.setTask found free ended.flight?)
  next opened =>
    have opened' : s.world.config.closed = false := by simpa using opened
    split
    next f flying => exact .joined t purpose f found free opened' flying
    next idle => exact .began t purpose found free opened' idle

theorem tick_moved (found : s.task? t = some old) (free : old.free = true) (due : Nat) :
    Moved s (s.tick t due) := by
  rw [tick]
  split
  · exact .aside (.setTask found free rfl)
  · split
    · exact .aside (.setTask found free rfl)
    · split
      · exact beginRefresh_moved found free _
      · exact .aside (.setTask found free rfl)

theorem beginGet_aside (found : s.task? t = some old) (free : old.free = true) :
    Aside s (s.beginGet t) := by
  rw [beginGet]
  split
  · exact .setTask found free rfl
  · obtain ⟨task, checks, passive⟩ := checkChild_spec (s.spawn 0 .refresh) t s.tasks.length
      (s.world.now + s.plan.getTimeout)
    rw [checks]
    refine .of_set rfl (.refl _) found free rfl (Task.flight?_of_passive passive)
      fun task member => ?_
    rw [List.mem_singleton.mp member]
    rfl

theorem adoptLoops_spec (s : Session σ) (w : World σ) :
    ∃ new : List (Task σ), (adoptLoops { s with world := w }).tasks = s.tasks ++ new ∧
      ∀ task ∈ new, task.flight? = none := by
  refine ⟨_, rfl, fun task member => ?_⟩
  rw [List.eq_of_mem_replicate member]
  rfl

theorem perform_aside (s : Session σ) (script : Script σ) : Aside s (s.perform script).1 := by
  obtain ⟨new, tasks, plain⟩ := adoptLoops_spec s ((run s.plan s.fuel script).run.run s.world).2
  have ran := run_aloof s.plan s.fuel script s.world
  exact .of_append rfl (ran.trans (.of_config rfl rfl rfl)) tasks plain

theorem beginJob_moved (found : s.task? t = some old) (free : old.free = true) (job : Job σ) :
    Moved s (s.beginJob t job) := by
  cases job with
  | refresh => exact beginRefresh_moved found free .once
  | getOrRefresh => exact .aside (beginGet_aside found free)
  | loop => exact tick_moved found free s.world.now
  | perform script =>
    -- the loops that the script has started are new tasks
    obtain ⟨new, tasks, plain⟩ := adoptLoops_spec s ((run s.plan s.fuel script).run.run s.world).2
    have ran := run_aloof s.plan s.fuel script s.world
    have set : ((s.perform script).1.setTask t (.over (s.perform script).2)).tasks =
        (s.tasks ++ new).set t (.over (s.perform script).2) := by
      rw [← tasks]
      rfl
    exact .aside (.of_set rfl (ran.trans (.of_config rfl rfl rfl)) found free set rfl plain)
  | pause millis =>
    rw [beginJob]
    split <;> exact .aside (.setTask found free rfl)
  | abort target =>
    rw [beginJob]
    split
    · exact .aside (.setTask found free rfl)
    · have ends : (setTask { s with doomed := s.doomed ++ [target] } t
          (.over (.replied .nothing))).tasks = s.tasks.set t (.over (.replied .nothing)) := rfl
      exact .aside (.of_replace rfl (.refl _) found free ends rfl)
  | join =>
    rw [beginJob]
    split
    next loop _ =>
      obtain ⟨task, checks, passive⟩ := checkLoop_spec { s with loop := none } t loop
      rw [checks]
      exact .aside (.of_replace rfl (.refl _) found free rfl (Task.flight?_of_passive passive))
    · exact .aside (.setTask found free rfl)
  | concurrently jobs =>
    rw [beginJob]
    obtain ⟨task, gathers, passive⟩ := gather_spec (s.spawnAll jobs).1 t (s.spawnAll jobs).2
      (s.spawnAll jobs).2
    have plain := Task.flight?_of_passive passive
    dsimp only
    rw [gathers]
    refine .aside (.of_set rfl (.refl _) found free rfl plain fun task member => ?_)
    obtain ⟨entry, _, rfl⟩ := List.mem_map.mp member
    rfl

theorem drop_moved (s : Session σ) (t : Nat) : Moved s (s.drop t) := by
  have unchanged (doomed : List Nat) : Aside s { s with doomed } :=
    ⟨rfl, .refl _, fun u => .same _⟩
  rw [drop]
  split
  · exact .aside (unchanged _)
  · exact .aside (unchanged _)
  next purpose f deadline progress found =>
    exact .dropped t purpose f deadline progress _ found
  next task ended leads found =>
    have here : s.task? t = some task := found
    let cancelled : Session σ := { s with doomed := s.doomed.filter (· != t) }
    have tasks : (cancelled.setTask t (.over .cancelled)).tasks =
        (s.tasks ++ []).set t (.over .cancelled) := by
      rw [List.append_nil]
      rfl
    refine .aside ⟨rfl, .refl _, fun u => ?_⟩
    rw [task?_of_set here tasks u]
    split
    next same =>
      subst same
      rw [here]
      cases task with
      | following purpose f => exact .cancelled purpose f
      | leading purpose f deadline progress =>
        exact (leads purpose f deadline progress rfl).elim
      | _ =>
        first
        | exact (ended _ rfl).elim
        | exact .aside (by simp [Task.free]) (by simp [Task.flight?])
    next => simpa using Shift.same _

theorem turn_moved (s : Session σ) (t : Nat) : Moved s (s.turn t) := by
  have same : Moved s s := .aside ⟨rfl, .refl _, fun u => .same _⟩
  rw [turn]
  split
  · exact drop_moved s t
  · split
    · exact same
    · exact same
    next delay job found =>
      split
      · exact beginJob_moved found rfl job
      · exact .aside (.setTask found rfl rfl)
    next deadline job found =>
      split
      · exact beginJob_moved found rfl job
      · exact same
    next purpose f deadline progress found =>
      split
      · exact .wentOn t purpose f deadline progress found
      · exact same
    next purpose f found =>
      -- however the refresh ended, the task is over or waits for the next time
      have told {result : Except ConfigError Tree} (tells : Flight.Tells s.flights[f]? result) :
          Moved s (s.endRefresh t purpose result) := by
        obtain ⟨task, ends, ended⟩ := endRefresh_spec s t purpose result
        have tasks : (s.setTask t task).tasks = (s.tasks ++ []).set t task := by
          rw [List.append_nil]
          rfl
        rw [ends]
        refine .aside ⟨rfl, .refl _, fun u => ?_⟩
        rw [task?_of_set found tasks u]
        split
        next same =>
          subst same
          rw [found]
          exact .told tells ended
        next => simpa using Shift.same _
      split
      next result flight => exact told (by rw [flight]; rfl)
      · exact same
      next flight => exact told (by rw [flight]; rfl)
      next flight => exact told (by rw [flight]; rfl)
    next child deadline found =>
      obtain ⟨task, checks, passive⟩ := checkChild_spec s t child deadline
      rw [checks]
      exact .aside (.setTask found rfl (Task.flight?_of_passive passive))
    next due found => exact tick_moved found rfl due
    next loop found =>
      obtain ⟨task, checks, passive⟩ := checkLoop_spec s t loop
      rw [checks]
      exact .aside (.setTask found rfl (Task.flight?_of_passive passive))
    next tasks pending found =>
      obtain ⟨task, gathers, passive⟩ := gather_spec s t tasks pending
      rw [gathers]
      exact .aside (.setTask found rfl (Task.flight?_of_passive passive))

/-- The list of what moves do to refreshes is complete. -/
theorem moved (s : Session σ) (m : Move σ) : Moved s (s.step m) := by
  cases m with
  | passTo moment => exact .aside ⟨rfl, .of_config rfl rfl rfl, fun u => .same _⟩
  | spawn delay job =>
    refine .aside (.of_append rfl (.refl _) rfl fun task member => ?_)
    rw [List.mem_singleton.mp member]
    rfl
  | turn t => exact turn_moved s t
  | perform script => exact .aside (perform_aside s script)

end Parts

/-! ### How a refresh ends -/

/-- A refresh ends for the one who leads it: with a result, or it is abandoned together with the
task. -/
def Lands (purpose : Purpose) (flight : Flight) (task : Task σ) : Prop :=
  match flight with
  | .settled result => Ended purpose result task
  | .abandoned => ∃ outcome, task = .over outcome ∧
      (outcome = .cancelled ∨ outcome = .panicked ∨ outcome = .exhausted)
  | .underWay => False

theorem Lands.flight? {purpose : Purpose} {flight : Flight} {task : Task σ}
    (lands : Lands purpose flight task) : task.flight? = none := by
  cases flight with
  | underWay => exact lands.elim
  | settled result => exact Ended.flight? lands
  | abandoned =>
    obtain ⟨outcome, rfl, _⟩ := lands
    rfl

/-- What becomes of a refresh and of the task that leads it when a part of the fetch is done. -/
inductive Led (s : Session σ) (t : Nat) (purpose : Purpose) (f : Nat) :
    Fetched → Session σ → Prop where
  | waits (pace : Pace) (progress : Progress) {s' : Session σ} {deadline : Option Nat}
    (flights : s'.flights = s.flights) (world : s'.world = s.world)
    (tasks : s'.tasks = s.tasks.set t (.leading purpose f deadline progress)) :
    Led s t purpose f (.waiting pace progress) s'
  | lands (fetched : Except ConfigError Tree) (flight : Flight) {s' : Session σ}
    {new : List (Task σ)} {task : Task σ}
    (flights : s'.flights = s.flights.setIfInBounds f flight)
    (cleared : s'.world.config.inFlight = none)
    (asks : asks s'.world.history = asks s.world.history)
    (tasks : s'.tasks = (s.tasks ++ new).set t task)
    (plain : ∀ task ∈ new, task.flight? = none) (lands : Lands purpose flight task)
    (kept : task ≠ .over .cancelled)
    (failed : ∀ e, flight = .settled (.error e) →
      s'.world = { s.world with config := s.world.config.failed e, loops := 0 }) :
    Led s t purpose f (.over fetched) s'

theorem crash_led (base s : Session σ) (t : Nat) (purpose : Purpose) (f : Nat) (stop : Stop)
    {new : List (Task σ)} (flights : s.flights = base.flights)
    (asked : asks s.world.history = asks base.world.history)
    (tasks : s.tasks = base.tasks ++ new) (plain : ∀ task ∈ new, task.flight? = none)
    (fetched : Except ConfigError Tree) :
    Led base t purpose f (.over fetched) (s.crash t f stop) := by
  refine .lands fetched .abandoned (by rw [← flights]; rfl) rfl asked
    (by rw [← tasks]; rfl) plain ⟨_, rfl, ?_⟩ ?_ nofun
  · cases stop with
    | panicked => exact .inr (.inl rfl)
    | exhausted => exact .inr (.inr rfl)
  · cases stop <;> rintro ⟨⟩

theorem lead_led (s : Session σ) (t : Nat) (purpose : Purpose) (f : Nat) (fetched : Fetched) :
    Led s t purpose f fetched (s.lead t purpose f fetched) := by
  rcases fetched with ⟨pace, progress⟩ | fetched
  · cases pace <;> exact .waits _ progress rfl rfl rfl
  · rw [lead]
    split
    · exact crash_led s s t purpose f .panicked rfl rfl (List.append_nil _).symm
        (List.forall_mem_nil _) fetched
    · have apart := conclude_apart s.plan s.fuel fetched s.world
      obtain ⟨new, tasks, plain⟩ :=
        adoptLoops_spec s ((conclude s.plan s.fuel fetched).run.run s.world).2
      rcases ran : (conclude s.plan s.fuel fetched).run.run s.world with ⟨stop | result, w⟩
      · -- a listener broke down, or there was not enough fuel
        rw [ran] at apart tasks
        exact crash_led s (adoptLoops { s with world := w }) t purpose f stop rfl apart.asks tasks
          plain fetched
      · rw [ran] at apart tasks
        obtain ⟨task, ends, ended⟩ := endRefresh_spec
          ((adoptLoops { s with world := w }).land f (.settled result)) t purpose result
        dsimp only
        rw [ends]
        refine .lands fetched (.settled result) rfl rfl apart.asks
          (congrArg (·.set t task) tasks) plain ended ended.notCancelled ?_
        rintro e ⟨⟩
        rw [conclude_failed ran, ← ConfigState.failed_of_ended _ s.world.now]
        rfl

end Session

end LayeredConfig.Live
