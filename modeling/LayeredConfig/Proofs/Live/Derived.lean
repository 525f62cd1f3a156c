import LayeredConfig.Proofs.Live.InStep
import LayeredConfig.Proofs.Live.Moves
/-!
# Derived cells in a session

Whatever order refreshes, registrations and closes come in, derived cells never drift from the tree,
as long as scripts and listeners are tame: `derived_in_step`. Every move needs some amount of fuel
only. `Steady` says of a part of a move that from a session in step it leads to one that is in step,
and to the same one with every amount of fuel that is large enough.
-/
namespace LayeredConfig.Live

variable {σ : Type}

/-- A part of a fetch leaves derived cells alone. -/
theorem InStep.fetched {w : World σ} (inStep : InStep w) {may : Nat → Prop} {events : List Event}
    {part : Fetched × World σ} (fetching : FetchPart may w events part) : InStep part.2 := by
  obtain ⟨surroundings, after⟩ := fetching.world
  rw [after]
  exact inStep.of_eq rfl rfl rfl rfl rfl

/-- A job whose scripts are tame. -/
inductive Job.Tame : Job σ → Prop where
  | refresh : Tame .refresh
  | getOrRefresh : Tame .getOrRefresh
  | loop : Tame .loop
  | perform {script : Script σ} : script.Tame → Tame (.perform script)
  | pause (millis : Nat) : Tame (.pause millis)
  | abort (task : Nat) : Tame (.abort task)
  | join : Tame .join
  | concurrently {jobs : List (Nat × Job σ)} :
    (∀ entry ∈ jobs, Tame entry.2) → Tame (.concurrently jobs)

theorem Job.Tame.shiftAbort {job : Job σ} (tame : job.Tame) (first : Nat) :
    (job.shiftAbort first).Tame := by
  cases tame with
  | abort task => exact .abort _
  | perform tame => exact .perform tame
  | concurrently tame => exact .concurrently tame
  | refresh => exact .refresh
  | getOrRefresh => exact .getOrRefresh
  | loop => exact .loop
  | pause millis => exact .pause millis
  | join => exact .join

/-- A task that will do nothing but tame jobs. -/
def Task.Tame : Task σ → Prop
  | .fresh _ job | .sleeping _ job => job.Tame
  | _ => True

theorem Task.tame_of_passive {task : Task σ} (passive : task.passive = true) : task.Tame := by
  cases task with
  | fresh | sleeping => cases passive
  | _ => trivial

/-- A move by which only tame scripts come into a session. -/
def Session.Move.Tame : Session.Move σ → Prop
  | .spawn _ job => job.Tame
  | .perform script => script.Tame
  | .passTo _ | .turn _ => True

namespace Session

/-- Derived cells are in step with the tree, and no task will change that. -/
structure InStep (s : Session σ) : Prop where
  world : Live.InStep s.world
  tasks : ∀ task ∈ s.tasks, task.Tame

/-- The session with another amount of fuel. -/
def refuel (s : Session σ) (n : Nat) : Session σ := { s with fuel := n }

/-- With every amount of fuel that is large enough `f` leads to the same session in step. -/
def Steady (f : Session σ → Session σ) (s : Session σ) : Prop :=
  ∃ least s', InStep s' ∧ ∀ n, least ≤ n → f (s.refuel n) = s'.refuel n

variable {s : Session σ} {t : Nat}

namespace Steady

variable {f g : Session σ → Session σ}

/-- Something for which the amount of fuel does not matter. -/
theorem of_free (free : ∀ n, f (s.refuel n) = (f s).refuel n) (inStep : (f s).InStep) :
    Steady f s :=
  ⟨0, f s, inStep, fun n _ => free n⟩

theorem congr (steady : Steady g s) (same : ∀ n, f (s.refuel n) = g (s.refuel n)) :
    Steady f s := by
  obtain ⟨least, s', inStep, leads⟩ := steady
  exact ⟨least, s', inStep, fun n enough => (same n).trans (leads n enough)⟩

end Steady

namespace InStep

theorem setTask (inStep : s.InStep) {task : Task σ} (tame : task.Tame) :
    (s.setTask t task).InStep where
  world := inStep.world
  tasks task' member := by
    rcases List.mem_or_eq_of_mem_set member with member | rfl
    · exact inStep.tasks task' member
    · exact tame

theorem finish (inStep : s.InStep) (outcome : Outcome) : (s.setTask t (.over outcome)).InStep :=
  inStep.setTask trivial

/-- Tasks were added, and nothing happened to the world that matters. -/
theorem more (inStep : s.InStep) {s' : Session σ} (world : Live.InStep s'.world)
    {new : List (Task σ)} (tasks : s'.tasks = s.tasks ++ new) (tame : ∀ task ∈ new, task.Tame) :
    s'.InStep where
  world
  tasks task member := by
    rw [tasks] at member
    exact (List.mem_append.mp member).elim (inStep.tasks task) (tame task)

theorem spawn (inStep : s.InStep) (delay : Nat) {job : Job σ} (tame : job.Tame) :
    (s.spawn delay job).InStep :=
  have plain : ∀ task ∈ [Task.fresh delay job], task.Tame := by simpa [Task.Tame] using tame
  inStep.more inStep.world rfl plain

theorem adoptLoops (inStep : s.InStep) : s.adoptLoops.InStep := by
  refine inStep.more (inStep.world.of_eq rfl rfl rfl rfl rfl) rfl fun task member => ?_
  rw [List.eq_of_mem_replicate member]
  exact Job.Tame.loop

theorem endRefresh (inStep : s.InStep) (t : Nat) (purpose : Purpose)
    (result : Except ConfigError Tree) : (s.endRefresh t purpose result).InStep := by
  obtain ⟨task, ends, ended⟩ := endRefresh_spec s t purpose result
  rw [ends]
  exact inStep.setTask (Task.tame_of_passive ended.passive)

theorem land (inStep : s.InStep) (f : Nat) (flight : Flight) : (s.land f flight).InStep where
  world := inStep.world.of_eq rfl rfl rfl rfl rfl
  tasks := inStep.tasks

theorem crash (inStep : s.InStep) (t f : Nat) (stop : Stop) : (s.crash t f stop).InStep :=
  (inStep.land f .abandoned).finish _

theorem checkChild (inStep : s.InStep) (t child deadline : Nat) :
    (s.checkChild t child deadline).InStep := by
  obtain ⟨task, checks, passive⟩ := checkChild_spec s t child deadline
  rw [checks]
  exact inStep.setTask (Task.tame_of_passive passive)

theorem checkLoop (inStep : s.InStep) (t loop : Nat) : (s.checkLoop t loop).InStep := by
  obtain ⟨task, checks, passive⟩ := checkLoop_spec s t loop
  rw [checks]
  exact inStep.setTask (Task.tame_of_passive passive)

theorem gather (inStep : s.InStep) (t : Nat) (tasks pending : List Nat) :
    (s.gather t tasks pending).InStep := by
  obtain ⟨task, gathers, passive⟩ := gather_spec s t tasks pending
  rw [gathers]
  exact inStep.setTask (Task.tame_of_passive passive)

theorem drop (inStep : s.InStep) (t : Nat) : (s.drop t).InStep := by
  have spared : InStep { s with doomed := s.doomed.filter (· != t) } := ⟨inStep.world, inStep.tasks⟩
  rw [Session.drop]
  split
  · exact spared
  · exact spared
  · exact (spared.land _ _).setTask trivial
  · exact spared.setTask trivial

end InStep

theorem steady_lead (inStep : s.InStep) (t : Nat) (purpose : Purpose) (f : Nat)
    (fetched : Fetched) : Steady (fun s => s.lead t purpose f fetched) s := by
  rcases fetched with ⟨pace, progress⟩ | fetched
  · cases pace <;> exact .of_free (fun _ => rfl) (inStep.setTask trivial)
  · by_cases broken : brokeDown fetched = true
    · have crashes (n : Nat) : (s.refuel n).lead t purpose f (.over fetched) =
          (s.crash t f .panicked).refuel n := if_pos broken
      exact ⟨0, _, inStep.crash t f .panicked, fun n _ => crashes n⟩
    · obtain ⟨least, result, world, concluded, ends⟩ :=
        conclude_settles s.plan inStep.world fetched
      let concluded' : Session σ := adoptLoops { s with world }
      have landed : concluded'.InStep := InStep.adoptLoops ⟨concluded, inStep.tasks⟩
      refine ⟨least, _, (landed.land f (.settled result)).endRefresh t purpose result,
        fun n enough => ?_⟩
      have now : (conclude (s.refuel n).plan (s.refuel n).fuel fetched).run.run (s.refuel n).world =
          (.ok result, world) := ends n enough
      change (s.refuel n).lead t purpose f (.over fetched) = _
      rw [lead, if_neg broken, now]
      cases purpose <;> rfl

theorem steady_beginRefresh (inStep : s.InStep) (t : Nat) (purpose : Purpose) :
    Steady (fun s => s.beginRefresh t purpose) s := by
  cases closed : s.world.config.closed with
  | true =>
    have refused (n : Nat) : (s.refuel n).beginRefresh t purpose =
        (s.endRefresh t purpose (.error (.closed "reloadable config"))).refuel n := by
      rw [beginRefresh, if_pos (show (s.refuel n).world.config.closed = true from closed)]
      cases purpose <;> rfl
    exact ⟨0, _, inStep.endRefresh t purpose _, fun n _ => refused n⟩
  | false =>
    have opened (n : Nat) : ¬(s.refuel n).world.config.closed = true := by
      simpa [refuel] using closed
    cases flying : s.world.config.inFlight with
    | some f =>
      have joins (n : Nat) : (s.refuel n).beginRefresh t purpose =
          (s.setTask t (.following purpose f)).refuel n := by
        rw [beginRefresh, if_neg (opened n),
          show (s.refuel n).world.config.inFlight = some f from flying]
        rfl
      exact ⟨0, s.setTask t (.following purpose f), inStep.setTask trivial, fun n _ => joins n⟩
    | none =>
      -- no refresh is under way: a fetch begins, which leaves derived cells alone
      let marked := s.world.modifyConfig ({ · with inFlight := some s.flights.size })
      let part := (fetch s.plan).run marked
      obtain ⟨events, fetching, _⟩ := FetchPart.fetch s.plan marked
      have world : Live.InStep part.2 := by
        refine InStep.fetched ?_ fetching
        exact inStep.world.of_eq rfl rfl rfl rfl rfl
      let asked : Session σ := { s with world := part.2, flights := s.flights.push .underWay }
      have began : asked.InStep := ⟨world, inStep.tasks⟩
      obtain ⟨least, s', inStep', leads⟩ := steady_lead began t purpose s.flights.size part.1
      refine ⟨least, s', inStep', fun n enough => ?_⟩
      change (s.refuel n).beginRefresh t purpose = _
      rw [beginRefresh, if_neg (opened n),
        show (s.refuel n).world.config.inFlight = none from flying]
      exact leads n enough

theorem steady_tick (inStep : s.InStep) (t due : Nat) : Steady (fun s => s.tick t due) s := by
  cases interval : s.plan.refreshInterval with
  | none =>
    have ends (n : Nat) : (s.refuel n).tick t due =
        (s.setTask t (.over (.replied .nothing))).refuel n := by
      rw [tick, show (s.refuel n).plan.refreshInterval = none from interval]
      rfl
    exact ⟨0, _, inStep.finish _, fun n _ => ends n⟩
  | some period =>
    -- whether the loop refreshes does not depend on the fuel
    have cases (n : Nat) : (s.refuel n).tick t due =
        if s.world.config.closed then (s.setTask t (.over (.replied .nothing))).refuel n
        else if due ≤ s.world.now then
          (s.refuel n).beginRefresh t (.periodic (nextTick period due s.world.now))
        else (s.setTask t (.ticking due)).refuel n := by
      rw [tick, show (s.refuel n).plan.refreshInterval = some period from interval]
      rfl
    by_cases closed : s.world.config.closed = true
    · exact ⟨0, _, inStep.finish _, fun n _ => (cases n).trans (if_pos closed)⟩
    · by_cases now : due ≤ s.world.now
      · refine (steady_beginRefresh inStep t (.periodic (nextTick period due s.world.now))).congr
          fun n => ?_
        exact (cases n).trans ((if_neg closed).trans (if_pos now))
      · exact ⟨0, s.setTask t (.ticking due), inStep.setTask trivial, fun n _ =>
          (cases n).trans ((if_neg closed).trans (if_neg now))⟩

theorem refuel_checkChild (n t child deadline : Nat) :
    (s.refuel n).checkChild t child deadline = (s.checkChild t child deadline).refuel n := by
  rw [checkChild, checkChild, show (s.refuel n).outcome? child = s.outcome? child from rfl]
  split
  · rfl
  · rfl
  · rfl
  · change (if deadline ≤ s.world.now then _ else _) = Session.refuel (if _ then _ else _) n
    split <;> rfl

theorem steady_beginGet (inStep : s.InStep) (t : Nat) : Steady (fun s => s.beginGet t) s := by
  cases current : s.world.config.current with
  | some tree =>
    have gets (n : Nat) : (s.refuel n).beginGet t =
        (s.setTask t (.over (.replied (refreshReply (.ok tree))))).refuel n := by
      rw [beginGet, show (s.refuel n).world.config.current = some tree from current]
      rfl
    exact ⟨0, _, inStep.finish _, fun n _ => gets n⟩
  | none =>
    have child : (s.spawn 0 .refresh).InStep := inStep.spawn 0 .refresh
    have waits (n : Nat) : (s.refuel n).beginGet t = ((s.spawn 0 .refresh).checkChild t
        s.tasks.length (s.world.now + s.plan.getTimeout)).refuel n := by
      rw [beginGet, show (s.refuel n).world.config.current = none from current,
        ← refuel_checkChild]
      rfl
    exact ⟨0, _, child.checkChild _ _ _, fun n _ => waits n⟩

theorem refuel_checkLoop (n t loop : Nat) :
    (s.refuel n).checkLoop t loop = (s.checkLoop t loop).refuel n := by
  rw [checkLoop, checkLoop, show (s.refuel n).outcome? loop = s.outcome? loop from rfl]
  split <;> rfl

theorem refuel_gather (n t : Nat) (tasks pending : List Nat) :
    (s.refuel n).gather t tasks pending = (s.gather t tasks pending).refuel n := by
  have same : (s.refuel n).outcome? = s.outcome? := rfl
  rw [gather, gather, same]
  cases pending.dropWhile fun u => (s.outcome? u).isSome <;> rfl

theorem refuel_endRefresh (n t : Nat) (purpose : Purpose) (result : Except ConfigError Tree) :
    (s.refuel n).endRefresh t purpose result = (s.endRefresh t purpose result).refuel n := by
  cases purpose <;> rfl

theorem refuel_drop (n t : Nat) : (s.refuel n).drop t = (s.drop t).refuel n := by
  simp only [drop, refuel, task?]
  cases s.tasks[t]? with
  | none => rfl
  | some task => cases task <;> rfl

/-- A tame script runs. -/
theorem steady_perform (inStep : s.InStep) {script : Script σ} (tame : script.Tame) :
    ∃ least s' outcome, s'.InStep ∧
      ∀ n, least ≤ n → (s.refuel n).perform script = (refuel s' n, outcome) := by
  obtain ⟨least, reply, world, inStep', ends⟩ := run_settles s.plan inStep.world tame
  have performed : (adoptLoops { s with world }).InStep := InStep.adoptLoops ⟨inStep', inStep.tasks⟩
  refine ⟨least, _, .replied reply, performed, fun n enough => ?_⟩
  have now : (run (s.refuel n).plan (s.refuel n).fuel script).run.run (s.refuel n).world =
      (.ok reply, world) := ends n enough
  rw [perform, now]
  rfl

theorem steady_beginJob (inStep : s.InStep) (t : Nat) {job : Job σ} (tame : job.Tame) :
    Steady (fun s => s.beginJob t job) s := by
  cases tame with
  | refresh => exact steady_beginRefresh inStep t .once
  | getOrRefresh => exact steady_beginGet inStep t
  | loop => exact steady_tick inStep t s.world.now
  | perform tame =>
    obtain ⟨least, s', outcome, inStep', ends⟩ := steady_perform inStep tame
    refine ⟨least, s'.setTask t (.over outcome), inStep'.finish _, fun n enough => ?_⟩
    change (s.refuel n).beginJob t _ = _
    rw [beginJob, ends n enough]
    rfl
  | pause millis =>
    by_cases none : millis = 0
    · exact ⟨0, s.setTask t (.over (.replied .nothing)), inStep.finish _, fun n _ => if_pos none⟩
    · exact ⟨0, s.setTask t (.sleeping (s.world.now + millis) (.pause 0)),
        inStep.setTask (Job.Tame.pause 0), fun n _ => if_neg none⟩
  | abort target =>
    let marked : Session σ :=
      if (s.outcome? target).isSome then s else { s with doomed := s.doomed ++ [target] }
    have same : marked.InStep := by
      dsimp only [marked]
      split
      · exact inStep
      · exact ⟨inStep.world, inStep.tasks⟩
    refine ⟨0, marked.setTask t (.over (.replied .nothing)), same.finish _, fun n _ => ?_⟩
    change (if (s.outcome? target).isSome = true then _ else _ : Session σ).setTask t _ = _
    dsimp only [marked]
    split <;> rfl
  | join =>
    cases last : s.loop with
    | none =>
      refine ⟨0, s.setTask t (.over (.replied .nothing)), inStep.finish _, fun n _ => ?_⟩
      change (s.refuel n).beginJob t .join = _
      rw [beginJob, show (s.refuel n).loop = none from last]
      rfl
    | some loop =>
      have taken : InStep { s with loop := none } := ⟨inStep.world, inStep.tasks⟩
      refine ⟨0, _, taken.checkLoop t loop, fun n _ => ?_⟩
      change (s.refuel n).beginJob t .join = _
      rw [beginJob, show (s.refuel n).loop = some loop from last, ← refuel_checkLoop]
      rfl
  | @concurrently jobs tame =>
    have spawned : (s.spawnAll jobs).1.InStep := by
      refine inStep.more inStep.world rfl fun task member => ?_
      obtain ⟨⟨delay, job⟩, among, rfl⟩ := List.mem_map.mp member
      exact (tame _ among).shiftAbort _
    refine ⟨0, _, spawned.gather t (s.spawnAll jobs).2 (s.spawnAll jobs).2, fun n _ => ?_⟩
    rw [← refuel_gather]
    rfl

theorem steady_turn (inStep : s.InStep) (t : Nat) : Steady (fun s => s.turn t) s := by
  by_cases doomed : s.doomed.contains t = true
  · refine ⟨0, s.drop t, inStep.drop t, fun n _ => ?_⟩
    rw [← refuel_drop]
    exact if_pos doomed
  · -- neither who is dropped nor what the task waits for depends on the fuel
    have awake (n : Nat) : ¬(s.refuel n).doomed.contains t = true := doomed
    have same (n : Nat) : (s.refuel n).task? t = s.task? t := rfl
    cases found : s.task? t with
    | none =>
      refine ⟨0, s, inStep, fun n _ => ?_⟩
      change (s.refuel n).turn t = _
      rw [turn, if_neg (awake n), same, found]
    | some task =>
      have tame : task.Tame := inStep.tasks task (List.mem_of_getElem? found)
      cases task with
      | fresh delay job =>
        have turns (n : Nat) : (s.refuel n).turn t = if delay = 0 then (s.refuel n).beginJob t job
            else (s.setTask t (.sleeping (s.world.now + delay) job)).refuel n := by
          rw [turn, if_neg (awake n), same, found]
          rfl
        by_cases now : delay = 0
        · exact (steady_beginJob inStep t tame).congr fun n => (turns n).trans (if_pos now)
        · exact ⟨0, s.setTask t (.sleeping (s.world.now + delay) job), inStep.setTask tame,
            fun n _ => (turns n).trans (if_neg now)⟩
      | sleeping deadline job =>
        have turns (n : Nat) : (s.refuel n).turn t = if deadline ≤ s.world.now
            then (s.refuel n).beginJob t job else s.refuel n := by
          rw [turn, if_neg (awake n), same, found]
          rfl
        by_cases now : deadline ≤ s.world.now
        · exact (steady_beginJob inStep t tame).congr fun n => (turns n).trans (if_pos now)
        · exact ⟨0, s, inStep, fun n _ => (turns n).trans (if_neg now)⟩
      | leading purpose f deadline progress =>
        let part := (progress.resume s.plan).run s.world
        have turns (n : Nat) : (s.refuel n).turn t = if deadline.all (· ≤ s.world.now) = true
            then (refuel { s with world := part.2 } n).lead t purpose f part.1 else s.refuel n := by
          rw [turn, if_neg (awake n), same, found]
          rfl
        by_cases now : deadline.all (· ≤ s.world.now) = true
        · obtain ⟨events, fetching⟩ := FetchPart.resume s.plan progress s.world
          have goesOn : InStep { s with world := part.2 } :=
            ⟨inStep.world.fetched fetching, inStep.tasks⟩
          obtain ⟨least, s', inStep', leads⟩ := steady_lead goesOn t purpose f part.1
          exact ⟨least, s', inStep', fun n enough =>
            ((turns n).trans (if_pos now)).trans (leads n enough)⟩
        · exact ⟨0, s, inStep, fun n _ => (turns n).trans (if_neg now)⟩
      | following purpose f =>
        have turns (n : Nat) := turn_of_following ((same n).trans found)
          (Bool.eq_false_iff.mpr (awake n))
        have told {result : Except ConfigError Tree}
            (hears : ∀ n, (s.refuel n).turn t = (s.refuel n).endRefresh t purpose result) :
            Steady (fun s => s.turn t) s :=
          ⟨0, _, inStep.endRefresh t purpose result, fun n _ =>
            (hears n).trans (refuel_endRefresh n t purpose result)⟩
        have here (n : Nat) : (s.refuel n).flights[f]? = s.flights[f]? := rfl
        simp only [here] at turns
        cases flight : s.flights[f]? with
        | none => exact told fun n => by rw [turns, flight]
        | some flight' =>
          cases flight' with
          | underWay =>
            have waits (n : Nat) : (s.refuel n).turn t = s.refuel n := by rw [turns, flight]
            exact ⟨0, s, inStep, fun n _ => waits n⟩
          | settled result => exact told fun n => by rw [turns, flight]
          | abandoned => exact told fun n => by rw [turns, flight]
      | awaiting child deadline =>
        refine ⟨0, _, inStep.checkChild t child deadline, fun n _ => ?_⟩
        change (s.refuel n).turn t = _
        rw [turn, if_neg (awake n), same, found, ← refuel_checkChild]
      | ticking due =>
        refine (steady_tick inStep t due).congr fun n => ?_
        rw [turn, if_neg (awake n), same, found]
      | joining loop =>
        refine ⟨0, _, inStep.checkLoop t loop, fun n _ => ?_⟩
        change (s.refuel n).turn t = _
        rw [turn, if_neg (awake n), same, found, ← refuel_checkLoop]
      | gathering tasks pending =>
        refine ⟨0, _, inStep.gather t tasks pending, fun n _ => ?_⟩
        change (s.refuel n).turn t = _
        rw [turn, if_neg (awake n), same, found, ← refuel_gather]
      | _ =>
        -- the task is over
        refine ⟨0, s, inStep, fun n _ => ?_⟩
        change (s.refuel n).turn t = _
        rw [turn, if_neg (awake n), same, found]

theorem steady_step (inStep : s.InStep) {m : Move σ} (tame : m.Tame) :
    Steady (fun s => s.step m) s := by
  cases m with
  | passTo moment =>
    have passed : Live.InStep (s.passTo moment).world := inStep.world.of_eq rfl rfl rfl rfl rfl
    exact ⟨0, s.passTo moment, ⟨passed, inStep.tasks⟩, fun _ _ => rfl⟩
  | spawn delay job => exact ⟨0, s.spawn delay job, inStep.spawn delay tame, fun _ _ => rfl⟩
  | turn t => exact steady_turn inStep t
  | perform script =>
    obtain ⟨least, s', outcome, inStep', ends⟩ := steady_perform inStep tame
    exact ⟨least, s', inStep', fun n enough => congrArg Prod.fst (ends n enough)⟩

/-- Enough fuel for a run of tame moves is enough for every part of it from the beginning on. -/
theorem steady_after (inStep : s.InStep) {moves : List (Move σ)} (tame : ∀ m ∈ moves, m.Tame) :
    ∃ least, ∀ n, least ≤ n → ∀ earlier, earlier <+: moves →
      ∃ s', InStep s' ∧ (s.refuel n).after earlier = s'.refuel n := by
  -- by induction on the moves: a part of the run is empty or begins with the first move
  induction moves generalizing s with
  | nil =>
    refine ⟨0, fun n _ earlier part => ⟨s, inStep, ?_⟩⟩
    rw [List.prefix_nil.mp part]
    rfl
  | cons m rest ih =>
    obtain ⟨least, s', inStep', steps⟩ := steady_step inStep (tame m List.mem_cons_self)
    obtain ⟨least', goesOn⟩ := ih inStep' fun m' member => tame m' (List.mem_cons_of_mem _ member)
    refine ⟨max least least', fun n enough earlier part => ?_⟩
    have first : (s.refuel n).step m = s'.refuel n :=
      steps n (Nat.le_trans (Nat.le_max_left _ _) enough)
    have enough' : least' ≤ n := Nat.le_trans (Nat.le_max_right _ _) enough
    cases earlier with
    | nil => exact ⟨s, inStep, rfl⟩
    | cons m' earlier =>
      obtain ⟨rfl, part'⟩ := List.cons_prefix_cons.mp part
      obtain ⟨s'', inStep'', leads⟩ := goesOn n enough' earlier part'
      exact ⟨s'', inStep'', (congrArg (after · earlier) first).trans leads⟩

end Session

/-- The derived cells of a world agree with its tree, and the open ones are those that are tracked.
That a cell holds a value is meant up to equality of values, since publishing leaves a cell alone
whose value is equal to the new one. -/
structure Faithful (w : World σ) : Prop where
  loaded : ∀ tree, w.config.current = some tree → ∀ t ∈ w.config.tracked,
    ∃ value, t.extract tree = .ok value ∧ (w.cell t.cell).Holds value
  unloaded : w.config.current = none → ∀ t ∈ w.config.tracked, (w.cell t.cell).value = none
  opened : ∀ c < w.cells.length,
    (w.cell c).closed = false ↔ ∃ t ∈ w.config.tracked, t.cell = c

theorem InStep.faithful {w : World σ} (inStep : InStep w) : Faithful w where
  loaded tree current t known := by
    have follows := inStep.follows t known
    rwa [current] at follows
  unloaded none t known := by
    obtain ⟨value, gives, holds⟩ := inStep.follows t known
    rw [none] at gives
    cases gives
    rcases holds with holds | equal
    · exact holds
    · cases held : (w.cell t.cell).value with
      | none => rfl
      | some value =>
        rw [held] at equal
        cases equal
  opened c _ := by
    constructor
    · exact inStep.tidy.tracked c
    · rintro ⟨t, known, rfl⟩
      exact inStep.tidy.opened t known

/-- Derived values never drift from the tree. For every run of a configuration by tame moves there
is an amount of fuel from which on the derived cells are faithful to the tree after each move. -/
theorem derived_in_step (plan : Plan σ) (surroundings : σ) (moves : List (Session.Move σ))
    (tame : ∀ m ∈ moves, m.Tame) :
    ∃ least, ∀ fuel, least ≤ fuel → ∀ earlier, earlier <+: moves →
      Faithful ((Session.fresh plan fuel surroundings).after earlier).world := by
  have start : (Session.fresh plan 0 surroundings).InStep := ⟨.fresh surroundings, nofun⟩
  obtain ⟨least, runs⟩ := Session.steady_after start tame
  refine ⟨least, fun fuel enough earlier part => ?_⟩
  obtain ⟨s', inStep, leads⟩ := runs fuel enough earlier part
  have same : (Session.fresh plan fuel surroundings).after earlier = s'.refuel fuel := leads
  rw [same]
  exact inStep.world.faithful

/-- A cell is derived before the first refresh and another one while it waits for its source; the
first one has a listener that closes the second one. -/
def deriveAroundRefresh : List (Session.Move Unit) :=
  let whole : Extractor := fun tree => .ok (some tree.toValue)
  [.perform (.derive whole fun _ => .register 0 "closer"
      (fun _ => .close 1 (.done .nothing)) fun _ => .done .nothing),
    .spawn 0 .refresh,
    .turn 0,
    .perform (.derive whole fun _ => .done .nothing),
    .passTo 5,
    .turn 0]

/-- A source that answers after a while. -/
def slowSource : Source Unit where
  name := "slow"
  allowErrors _ := false
  ask _ u := (.after 5, u)
  answer _ u := (.ok .empty, u)
  close u := (.ok (), u)

theorem derived_in_step_aroundRefresh :
    ∃ least, ∀ fuel, least ≤ fuel → ∀ earlier, earlier <+: deriveAroundRefresh →
      Faithful ((Session.fresh { query := ⟨"app", [], none, none⟩, sources := [slowSource] }
        fuel ()).after earlier).world := by
  refine derived_in_step _ () deriveAroundRefresh fun m member => ?_
  simp only [deriveAroundRefresh, List.mem_cons, List.not_mem_nil, or_false] at member
  rcases member with rfl | rfl | rfl | rfl | rfl | rfl
  · exact fun _ => ⟨fun _ => trivial, fun _ => trivial⟩
  · exact Job.Tame.refresh
  · trivial
  · exact fun _ => trivial
  · trivial
  · trivial

end LayeredConfig.Live
