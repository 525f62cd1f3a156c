import LayeredConfig.Proofs.Live.GivingUp
import LayeredConfig.Proofs.Live.Mild
import LayeredConfig.Proofs.Live.OwnTurns
import LayeredConfig.Proofs.Live.Terminal
/-!
# The loop goes on until the configuration is closed

A loop that was started refreshes at once, and then again and again. It waits for each refresh that
it issues, whether it leads it or follows one of somebody else, and for its next tick after that. In
a run of a session everything else can happen in between: sources are slow or fail, others refresh
and are cancelled, listeners change cells and close them, the configuration is closed.

`LoopTurn` lists what a turn of a loop can come to, and no other move concerns it (`kept_step`).
From this list follows what is true at every moment of a run: the loop issues a refresh only when
the one before has returned, it ends only because the configuration is closed, and it issues none
after that. What can break it off beside that is not an outcome of a refresh: it was dropped, the
fetch that it led broke down, or there was not enough fuel.
-/
namespace LayeredConfig.Live

variable {σ : Type}

/-! ### Starting -/

theorem Item.step_loops (plan : Plan σ) (w : World σ) (item : Item σ) :
    w.loops ≤ (item.step plan w).2.loops := by
  cases item with
  | go script =>
    cases script <;> simp only [Item.step, Script.step] <;>
      first | exact Nat.le_refl _ | (split <;> first | exact Nat.le_refl _ | exact Nat.le_succ _)
  | greet c l | close c | drain c | put c value | apply c value | derive extract | shut =>
    simp only [Item.step]
    repeat' split
    all_goals exact Nat.le_refl _
  | tell | unmark | endDispatch => exact Nat.le_refl _
  | shutSources =>
    obtain ⟨events, surroundings, -, after⟩ := closeSources_spec 0 plan.sources w
    simp only [Item.step, after]
    exact Nat.le_refl _

theorem Item.undo_loops (w : World σ) (item : Item σ) : (item.undo w).loops = w.loops := by
  cases item <;> rfl

/-- No script takes a loop back that was started. -/
theorem run_loops (plan : Plan σ) (fuel : Nat) (script : Script σ) (w : World σ) :
    w.loops ≤ ((run plan fuel script).run.run w).2.loops :=
  ((carries plan fuel).run w script).preserves (fun v => w.loops ≤ v.loops)
    (fun item v more => more.trans (item.step_loops plan v))
    (fun item v more => more.trans (item.undo_loops v).ge) (Nat.le_refl _)

namespace Session

variable {s s' base : Session σ} {t f g period next next' : Nat} {task : Task σ}

/-- Whoever starts the refreshing of a configuration that has an interval has a loop added, whatever
the script does after that. -/
theorem start_adds_loop (interval : s.plan.refreshInterval = some period) (enough : s.fuel ≠ 0)
    (next : Bool → Script σ) :
    (s.perform (.start next)).1.task? s.tasks.length = some (.fresh 0 .loop) := by
  obtain ⟨fuel, enough⟩ := Nat.exists_eq_succ_of_ne_zero enough
  let counted : World σ := { s.world with loops := s.world.loops + 1 }
  have started : (run s.plan s.fuel (.start next)).run.run s.world =
      (run s.plan fuel (next true)).run.run counted := by
    rw [enough, run, interval]
    rfl
  have more : 0 < ((run s.plan s.fuel (.start next)).run.run s.world).2.loops := by
    rw [started]
    exact Nat.lt_of_lt_of_le (Nat.succ_pos _) (run_loops s.plan fuel (next true) counted)
  change (s.tasks ++ List.replicate _ _)[s.tasks.length]? = _
  rw [List.getElem?_append_right (Nat.le_refl _), Nat.sub_self, List.getElem?_replicate]
  exact if_pos more

/-! ### Loops -/

/-- The task of a loop that was started: it has had no turn yet, it waits for a refresh or for its
next tick, or it is over. -/
inductive IsLoop : Task σ → Prop where
  | fresh : IsLoop (.fresh 0 .loop)
  | leading (due f : Nat) (deadline : Option Nat) (progress : Progress) :
    IsLoop (.leading (.periodic due) f deadline progress)
  | following (due f : Nat) : IsLoop (.following (.periodic due) f)
  | ticking (due : Nat) : IsLoop (.ticking due)
  | finished (outcome : Outcome) : IsLoop (.over outcome)

/-- The loop waits for a refresh, which it leads or follows; then its next tick is due at `due`. -/
def Awaits (s : Session σ) (t f due : Nat) : Prop :=
  (∃ deadline progress, s.task? t = some (.leading (.periodic due) f deadline progress)) ∨
    s.task? t = some (.following (.periodic due) f)

/-- The loop waits for its first turn or for a tick. -/
def Pauses (s : Session σ) (t : Nat) : Prop :=
  s.task? t = some (.fresh 0 .loop) ∨ ∃ due, s.task? t = some (.ticking due)

/-- The loop does not wait any longer for the tick that was due at `due`; its first one is due when
it gets its first turn. -/
def Ready (s : Session σ) (t due : Nat) : Prop :=
  s.task? t = some (.fresh 0 .loop) ∧ due = s.world.now ∨
    s.task? t = some (.ticking due) ∧ due ≤ s.world.now

/-- With its next turn the loop issues a refresh, and its next tick is due at `next` then. -/
structure Issues (s : Session σ) (period t next : Nat) : Prop where
  ready : ∃ due, s.Ready t due ∧ next = nextTick period due s.world.now
  awake : s.doomed.contains t = false
  opened : s.world.config.closed = false

/-- The number of the refresh that somebody who calls for one now joins or begins. -/
def upcoming (s : Session σ) : Nat := s.world.config.inFlight.getD s.flights.size

/-- The loop waits for a refresh, or issues it with its next turn. -/
def Calls (s : Session σ) (period t f next : Nat) : Prop :=
  s.Awaits t f next ∨ s.Issues period t next ∧ f = s.upcoming

/-- What is told of a refresh once it is over. -/
def Told (s : Session σ) (f : Nat) (result : Except ConfigError Tree) : Prop :=
  s.flights[f]? = some (.settled result) ∨
    s.flights[f]? = some .abandoned ∧ result = .error .refreshAborted

/-- In its turn the loop goes on with a fetch that it leads, which gives `part` when the world is
`w`. -/
inductive Fetches (s : Session σ) (period t : Nat) : World σ → Fetched → Prop where
  | begins {next : Nat} (issues : s.Issues period t next) (idle : s.world.config.inFlight = none) :
    Fetches s period t ((fetch s.plan).run s.marked).2 ((fetch s.plan).run s.marked).1
  | resumes {purpose : Purpose} {f : Nat} {deadline : Option Nat} {progress : Progress}
    (leads : s.task? t = some (.leading purpose f deadline progress)) :
    Fetches s period t ((progress.resume s.plan).run s.world).2
      ((progress.resume s.plan).run s.world).1

/-- Why a loop is broken off in its turn: it was to be dropped, the fetch that it leads breaks down,
or there is not enough fuel for publishing what was fetched. -/
inductive BrokenOff (s : Session σ) (period t : Nat) : Outcome → Prop where
  | dropped (doomed : s.doomed.contains t = true) : BrokenOff s period t .cancelled
  | brokeDown {w : World σ} {fetched : Except ConfigError Tree}
    (fetches : s.Fetches period t w (.over fetched)) (broke : brokeDown fetched = true) :
    BrokenOff s period t .panicked
  | exhausted {w v : World σ} {fetched : Except ConfigError Tree}
    (fetches : s.Fetches period t w (.over fetched))
    (ran : (conclude s.plan s.fuel fetched).run.run w = (.error .exhausted, v)) :
    BrokenOff s period t .exhausted

/-- A refresh has returned to the loop with some outcome. Now the loop waits for its next tick,
unless the configuration is closed, which the outcome says only if it is so. -/
def Returned (s : Session σ) (t f next : Nat) : Prop :=
  ∃ result, s.Told f result ∧
    (∀ e, result = .error e → e.isClosed = true → s.world.config.closed = true) ∧
    s.task? t = some (if s.world.config.closed then .over (.replied .nothing) else .ticking next)

/-- What becomes of a loop in its turn. -/
inductive LoopTurn (s : Session σ) (period t : Nat) (s' : Session σ) : Prop where
  | still (same : s'.task? t = s.task? t) (idle : ∀ next, ¬s.Issues period t next)
  | waits {f next : Nat} (calls : s.Calls period t f next) (now : s'.Awaits t f next)
  | returned {f next : Nat} (calls : s.Calls period t f next) (now : s'.Returned t f next)
  | ended (closed : s.world.config.closed = true) (sameClosed : s'.world.config.closed = true)
    (pauses : s.Pauses t)
    (now : s'.task? t = some (.over (.replied .nothing)))
  | brokenOff {outcome : Outcome} (off : s.BrokenOff period t outcome)
    (now : s'.task? t = some (.over outcome))

theorem Pauses.not_awaits (pauses : s.Pauses t) (f next : Nat) : ¬s.Awaits t f next := by
  rintro (⟨_, _, leads⟩ | follows) <;> rcases pauses with fresh | ⟨_, ticks⟩
  · cases leads.symm.trans fresh
  · cases leads.symm.trans ticks
  · cases follows.symm.trans fresh
  · cases follows.symm.trans ticks

theorem Pauses.not_over (pauses : s.Pauses t) (outcome : Outcome) :
    s.task? t ≠ some (.over outcome) := by
  rintro finished
  rcases pauses with fresh | ⟨_, ticks⟩
  · cases finished.symm.trans fresh
  · cases finished.symm.trans ticks

theorem Issues.pauses (issues : s.Issues period t next) : s.Pauses t := by
  obtain ⟨due, ⟨fresh, _⟩ | ⟨ticks, _⟩, _⟩ := issues.ready
  · exact .inl fresh
  · exact .inr ⟨due, ticks⟩

theorem Awaits.unique (awaits : s.Awaits t f next) (awaits' : s.Awaits t g next') :
    f = g ∧ next = next' := by
  rcases awaits with ⟨_, _, leads⟩ | follows <;> rcases awaits' with ⟨_, _, leads'⟩ | follows'
  · cases leads.symm.trans leads'
    exact ⟨rfl, rfl⟩
  · cases leads.symm.trans follows'
  · cases follows.symm.trans leads'
  · cases follows.symm.trans follows'
    exact ⟨rfl, rfl⟩

theorem Issues.unique (issues : s.Issues period t next) (issues' : s.Issues period t next') :
    next = next' := by
  obtain ⟨due, ready, rfl⟩ := issues.ready
  obtain ⟨due', ready', rfl⟩ := issues'.ready
  rcases ready with ⟨fresh, rfl⟩ | ⟨ticks, _⟩ <;> rcases ready' with ⟨fresh', rfl⟩ | ⟨ticks', _⟩
  · rfl
  · cases fresh.symm.trans ticks'
  · cases ticks.symm.trans fresh'
  · cases ticks.symm.trans ticks'
    rfl

/-- The loop calls for one refresh at a time. -/
theorem Calls.unique (calls : s.Calls period t f next) (calls' : s.Calls period t g next') :
    f = g ∧ next = next' := by
  rcases calls with awaits | ⟨issues, rfl⟩ <;> rcases calls' with awaits' | ⟨issues', rfl⟩
  · exact awaits.unique awaits'
  · exact absurd awaits (issues'.pauses.not_awaits _ _)
  · exact absurd awaits' (issues.pauses.not_awaits _ _)
  · exact ⟨rfl, issues.unique issues'⟩

/-- Somebody who has been told the truth of a refresh goes on unless the configuration is closed. -/
theorem endRefresh_of_truth {due : Nat} {result : Except ConfigError Tree}
    (truth : ∀ e, result = .error e → e.isClosed = true → s.world.config.closed = true) :
    s.endRefresh t (.periodic due) result = s.setTask t
      (if s.world.config.closed then .over (.replied .nothing) else .ticking due) := by
  cases result with
  | ok tree => simp [endRefresh]
  | error e =>
    have stops : (s.world.config.closed || e.isClosed) = s.world.config.closed := by
      cases closed : e.isClosed with
      | false => exact Bool.or_false _
      | true => rw [truth e rfl closed, Bool.or_true]
    simp only [endRefresh, stops]

theorem task?_setTask (here : t < s.tasks.length) (task : Task σ) :
    (s.setTask t task).task? t = some task :=
  List.getElem?_set_self here

/-- What becomes of a loop that goes on with a refresh that it leads. -/
theorem Proceeds.loopTurn {part : Fetched}
    (proceeds : Proceeds base t (.periodic next) f part s') (calls : s.Calls period t f next)
    (fetches : s.Fetches period t base.world part) (plan : base.plan = s.plan)
    (fuel : base.fuel = s.fuel) (here : t < base.tasks.length) (there : f < base.flights.size) :
    LoopTurn s period t s' := by
  have adopted (v : World σ) : t < (adoptLoops { base with world := v }).tasks.length := by
    rw [adoptLoops, List.length_append]
    exact Nat.lt_add_right _ here
  cases proceeds with
  | waits pace progress deadline =>
    exact .waits calls (.inl ⟨deadline, progress, task?_setTask here _⟩)
  | brokeDown broke => exact .brokenOff (.brokeDown fetches broke) (task?_setTask here _)
  | @exhausted _ v sound ran =>
    rw [plan, fuel] at ran
    exact .brokenOff (.exhausted fetches ran) (task?_setTask (adopted v) _)
  | @settled fetched result v sound ran truthful =>
    let landed := (adoptLoops { base with world := v }).land f (.settled result)
    have truth : ∀ e, result = .error e → e.isClosed = true →
        landed.world.config.closed = true := by
      rintro e rfl closed
      exact truthful closed
    rw [endRefresh_of_truth (s := landed) truth]
    have told : landed.Told f result := .inl (Array.getElem?_setIfInBounds_self_of_lt there)
    exact .returned calls ⟨result, told, truth, task?_setTask (adopted v) _⟩

/-- A loop that issues a refresh leads or follows it, or it is over at once. -/
theorem Issues.loopTurn (mild : Mild s) (here : t < s.tasks.length)
    (issues : s.Issues period t next) :
    LoopTurn s period t (s.beginRefresh t (.periodic next)) := by
  have calls : s.Calls period t s.upcoming next := .inr ⟨issues, rfl⟩
  rw [beginRefresh, if_neg (Bool.eq_false_iff.mp issues.opened)]
  split
  next f flying =>
    rw [upcoming, flying] at calls
    exact .waits calls (.inr (task?_setTask here _))
  next idle =>
    rw [upcoming, idle] at calls
    refine (mild.begins t (.periodic next)).loopTurn calls (.begins issues idle) rfl rfl here ?_
    rw [begun, Array.size_push]
    exact Nat.lt_succ_self _

/-- A loop that waits for a tick does nothing before it is due, and then it issues a refresh, unless
the configuration is closed. -/
theorem tick_loopTurn (mild : Mild s) (interval : s.plan.refreshInterval = some period)
    (here : t < s.tasks.length) (awake : s.doomed.contains t = false) {due : Nat}
    (waits : s.task? t = some (.fresh 0 .loop) ∧ due = s.world.now ∨
      s.task? t = some (.ticking due)) : LoopTurn s period t (s.tick t due) := by
  have pauses : s.Pauses t := waits.imp And.left fun ticks => ⟨due, ticks⟩
  rw [tick, interval]
  dsimp only
  split
  next closed => exact .ended closed closed pauses (task?_setTask here _)
  next opened =>
    split
    next now =>
      have ready : s.Ready t due := waits.imp_right fun ticks => ⟨ticks, now⟩
      exact Issues.loopTurn mild here
        ⟨⟨due, ready, rfl⟩, awake, Bool.eq_false_iff.mpr opened⟩
    next early =>
      rcases waits with ⟨_, rfl⟩ | ticks
      · exact absurd (Nat.le_refl _) early
      · refine .still ((task?_setTask here _).trans ticks.symm) fun next issues => ?_
        obtain ⟨due', ⟨fresh, _⟩ | ⟨ticks', now⟩, _⟩ := issues.ready
        · cases ticks.symm.trans fresh
        · cases ticks.symm.trans ticks'
          exact early now

/-- The list of what a turn of a loop can come to is complete. -/
theorem loopTurn (mild : Mild s) (interval : s.plan.refreshInterval = some period)
    (found : s.task? t = some task) (loop : IsLoop task) : LoopTurn s period t (s.turn t) := by
  have here : t < s.tasks.length := (List.getElem?_eq_some_iff.mp found).1
  have busy {f due : Nat} (awaits : s.Awaits t f due) (next : Nat) : ¬s.Issues period t next :=
    fun issues => issues.pauses.not_awaits f due awaits
  cases doomed : s.doomed.contains t with
  | true =>
    have off : s.BrokenOff period t .cancelled := .dropped doomed
    have spared : (task? { s with doomed := s.doomed.filter (· != t) } t) = some task := found
    rw [turn, if_pos doomed, drop, spared]
    cases loop with
    | finished outcome => exact .still rfl fun _ issues => issues.pauses.not_over outcome found
    | fresh | ticking | leading | following => exact .brokenOff off (task?_setTask here _)
  | false =>
    rw [turn, if_neg (Bool.eq_false_iff.mp doomed), found]
    cases loop with
    | fresh => exact tick_loopTurn mild interval here doomed (.inl ⟨found, rfl⟩)
    | ticking due => exact tick_loopTurn mild interval here doomed (.inr found)
    | finished outcome => exact .still rfl fun _ issues => issues.pauses.not_over outcome found
    | leading due f deadline progress =>
      dsimp only
      split
      · have flying := mild.orderly.leads t f ⟨_, _, _, found⟩
        have underWay := (mild.orderly.underWay f).mp flying
        exact (mild.goesOn t (.periodic due) f progress).loopTurn (.inl (.inl ⟨_, _, found⟩))
          (.resumes found) rfl rfl here (Array.getElem?_eq_some_iff.mp underWay).1
      · exact .still rfl (busy (.inl ⟨_, _, found⟩))
    | following due f =>
      have there : f < s.flights.size := mild.orderly.joined t _ f found
      have told {result : Except ConfigError Tree} (told : s.Told f result)
          (truth : ∀ e, result = .error e → e.isClosed = true → s.world.config.closed = true) :
          LoopTurn s period t (s.endRefresh t (.periodic due) result) := by
        rw [endRefresh_of_truth truth]
        exact .returned (.inl (.inr found)) ⟨result, told, truth, task?_setTask here _⟩
      have aborted : ∀ e, (.error .refreshAborted : Except ConfigError Tree) = .error e →
          e.isClosed = true → s.world.config.closed = true := by
        rintro e ⟨⟩ ⟨⟩
      dsimp only
      split
      next result settled =>
        refine told (.inl settled) ?_
        rintro e rfl closed
        exact mild.saysTruth f e settled closed
      · exact .still rfl (busy (.inr found))
      next abandoned => exact told (.inr ⟨abandoned, rfl⟩) aborted
      next gone => exact absurd there (Nat.not_lt_of_le (Array.getElem?_eq_none_iff.mp gone))

/-! ### Runs -/

theorem Awaits.kept (awaits : s.Awaits t f next) {m : Move σ} (other : m ≠ .turn t) :
    (s.step m).Awaits t f next := by
  rcases awaits with ⟨deadline, progress, leads⟩ | follows
  · exact .inl ⟨deadline, progress, kept_step leads other⟩
  · exact .inr (kept_step follows other)

theorem Awaits.not_over {outcome : Outcome} (awaits : s.Awaits t f next) :
    s.task? t ≠ some (.over outcome) := by
  rintro finished
  rcases awaits with ⟨_, _, leads⟩ | follows
  · cases leads.symm.trans finished
  · cases follows.symm.trans finished

theorem Awaits.isLoop (awaits : s.Awaits t f next) :
    ∃ task, s.task? t = some task ∧ IsLoop task := by
  rcases awaits with ⟨deadline, progress, leads⟩ | follows
  · exact ⟨_, leads, .leading next f deadline progress⟩
  · exact ⟨_, follows, .following next f⟩

/-- What was told of a refresh is told of it for ever. -/
theorem Told.kept {result : Except ConfigError Tree} (told : s.Told f result) (orderly : Orderly s)
    (moves : List (Move σ)) : (s.after moves).Told f result := by
  rcases told with settled | ⟨abandoned, rfl⟩
  · exact .inl (flights_of_ended orderly settled nofun moves)
  · exact .inr ⟨flights_of_ended orderly abandoned nofun moves, rfl⟩

theorem Issues.turn (issues : s.Issues period t next)
    (interval : s.plan.refreshInterval = some period) :
    s.turn t = s.beginRefresh t (.periodic next) := by
  obtain ⟨due, ready, rfl⟩ := issues.ready
  have ticks (due : Nat) (now : due ≤ s.world.now) :
      s.tick t due = s.beginRefresh t (.periodic (nextTick period due s.world.now)) := by
    rw [tick, interval]
    dsimp only
    rw [if_neg (Bool.eq_false_iff.mp issues.opened), if_pos now]
  rw [Session.turn, if_neg (Bool.eq_false_iff.mp issues.awake)]
  rcases ready with ⟨fresh, rfl⟩ | ⟨waits, now⟩
  · rw [fresh]
    exact ticks _ (Nat.le_refl _)
  · rw [waits]
    exact ticks _ now

/-- The next tick is due one period after this one, or after now if this one was late. -/
theorem nextTick_le {due now : Nat} (ready : due ≤ now) :
    nextTick period due now ≤ now + period := by
  rw [nextTick]
  split <;> omega

theorem Issues.next_le (issues : s.Issues period t next) : next ≤ s.world.now + period := by
  obtain ⟨due, ready, rfl⟩ := issues.ready
  rcases ready with ⟨_, rfl⟩ | ⟨_, now⟩
  · exact nextTick_le (Nat.le_refl _)
  · exact nextTick_le now

/-- A task stays a loop. -/
theorem LoopTurn.isLoop (turned : LoopTurn s period t s') (found : s.task? t = some task)
    (loop : IsLoop task) : ∃ task, s'.task? t = some task ∧ IsLoop task := by
  cases turned with
  | still same => exact ⟨task, same.trans found, loop⟩
  | waits calls now => exact now.isLoop
  | returned calls now =>
    obtain ⟨_, _, _, now⟩ := now
    refine ⟨_, now, ?_⟩
    split
    · exact .finished _
    · exact .ticking _
  | ended closed sameClosed pauses now => exact ⟨_, now, .finished _⟩
  | brokenOff off now => exact ⟨_, now, .finished _⟩

/-- The loop has begun to wait for a refresh since it has issued it. -/
theorem LoopTurn.awaits (turned : LoopTurn s period t s') (awaits : s'.Awaits t f next) :
    s.Calls period t f next := by
  cases turned with
  | still same =>
    refine .inl ?_
    rw [Awaits, same] at awaits
    exact awaits
  | waits calls now =>
    obtain ⟨rfl, rfl⟩ := now.unique awaits
    exact calls
  | returned calls now =>
    obtain ⟨_, _, _, now⟩ := now
    split at now
    · exact absurd now awaits.not_over
    · have pauses : s'.Pauses t := .inr ⟨_, now⟩
      exact absurd awaits (pauses.not_awaits f next)
  | ended closed sameClosed pauses now => exact absurd now awaits.not_over
  | brokenOff off now => exact absurd now awaits.not_over

/-- With its turn the loop waits still, or it comes to the end of the refresh. -/
theorem LoopTurn.returns (turned : LoopTurn s period t s') (calls : s.Calls period t f next) :
    s'.Awaits t f next ∨ s'.Returned t f next ∨
      ∃ outcome, s.BrokenOff period t outcome ∧ s'.task? t = some (.over outcome) := by
  cases turned with
  | still same idle =>
    rcases calls with awaits | ⟨issues, _⟩
    · refine .inl ?_
      rw [Awaits, same]
      exact awaits
    · exact absurd issues (idle next)
  | waits calls' now =>
    obtain ⟨rfl, rfl⟩ := calls'.unique calls
    exact .inl now
  | returned calls' now =>
    obtain ⟨rfl, rfl⟩ := calls'.unique calls
    exact .inr (.inl now)
  | ended closed sameClosed pauses now =>
    rcases calls with awaits | ⟨issues, _⟩
    · exact absurd awaits (pauses.not_awaits f next)
    · rw [issues.opened] at closed
      cases closed
  | brokenOff off now => exact .inr (.inr ⟨_, off, now⟩)

/-- A configuration that is closed stays so, and no refresh begins any more. -/
theorem quiet_after (orderly : Orderly s) (latest : Latest s)
    (closed : s.world.config.closed = true) (moves : List (Move σ)) :
    (s.after moves).world.config.closed = true ∧ (s.after moves).flights.size = s.flights.size :=
  kept_by_moves
    (Q := fun s' => s'.world.config.closed = true ∧ s'.flights.size = s.flights.size)
    (fun _ m _ quiet onward => ⟨onward.effect.closed quiet.1,
      (flights_of_closed quiet.1 m).trans quiet.2⟩) orderly latest ⟨closed, rfl⟩ moves

/-- A session in which all scripts are mild and a loop was started. -/
structure Looping (period t : Nat) (s : Session σ) : Prop where
  mild : Mild s
  interval : s.plan.refreshInterval = some period
  loop : ∃ task, s.task? t = some task ∧ IsLoop task

namespace Looping

theorem turned (looping : Looping period t s) : LoopTurn s period t (s.turn t) := by
  obtain ⟨task, found, loop⟩ := looping.loop
  exact loopTurn looping.mild looping.interval found loop

theorem step (looping : Looping period t s) {m : Move σ} (kind : m.Performs Script.Mild) :
    Looping period t (s.step m) where
  mild := looping.mild.step kind
  interval := by
    rw [(looping.mild.onward kind).plan]
    exact looping.interval
  loop := by
    obtain ⟨task, found, loop⟩ := looping.loop
    by_cases own : m = .turn t
    · subst own
      exact looping.turned.isLoop found loop
    · exact ⟨task, kept_step found own, loop⟩

theorem after (looping : Looping period t s) {moves : List (Move σ)}
    (kinds : ∀ m ∈ moves, m.Performs Script.Mild) : Looping period t (s.after moves) := by
  induction moves generalizing s with
  | nil => exact looping
  | cons m rest ih =>
    obtain ⟨kind, others⟩ := List.forall_mem_cons.mp kinds
    exact ih (looping.step kind) others

/-- A refresh that the loop has waited for is awaited still, or it has ended, or the loop has. -/
theorem awaited_after (looping : Looping period t s)
    (awaits : s.Awaits t f next ∨ (∃ result, s.Told f result) ∨
      ∃ outcome, s.task? t = some (.over outcome))
    {moves : List (Move σ)} (kinds : ∀ m ∈ moves, m.Performs Script.Mild) :
    (s.after moves).Awaits t f next ∨ (∃ result, (s.after moves).Told f result) ∨
      ∃ outcome, (s.after moves).task? t = some (.over outcome) := by
  -- by induction on the moves; only a turn of the loop can end the wait
  induction moves generalizing s with
  | nil => exact awaits
  | cons m rest ih =>
    obtain ⟨kind, others⟩ := List.forall_mem_cons.mp kinds
    refine ih (looping.step kind) ?_ others
    rcases awaits with awaits | ⟨result, told⟩ | ⟨outcome, finished⟩
    · by_cases own : m = .turn t
      · subst own
        rcases looping.turned.returns (.inl awaits) with
          still | ⟨result, told, _⟩ | ⟨outcome, _, finished⟩
        · exact .inl still
        · exact .inr (.inl ⟨result, told⟩)
        · exact .inr (.inr ⟨outcome, finished⟩)
      · exact .inl (awaits.kept own)
    · exact .inr (.inl ⟨result, told.kept looping.mild.orderly [m]⟩)
    · exact .inr (.inr ⟨outcome, over_step finished m⟩)

/-- A loop that is over at last was over before, or the configuration is closed, or the loop was
broken off in one of its turns. -/
theorem over_of_after (looping : Looping period t s) {moves : List (Move σ)}
    (kinds : ∀ m ∈ moves, m.Performs Script.Mild) {outcome : Outcome}
    (finished : (s.after moves).task? t = some (.over outcome)) :
    s.task? t = some (.over outcome) ∨
      (outcome = .replied .nothing ∧ (s.after moves).world.config.closed = true) ∨
      ∃ past rest, moves = past ++ .turn t :: rest ∧
        (s.after past).BrokenOff period t outcome := by
  induction moves generalizing s with
  | nil => exact .inl finished
  | cons m rest ih =>
    obtain ⟨kind, others⟩ := List.forall_mem_cons.mp kinds
    have looping' := looping.step kind
    rcases ih looping' others finished with now | ended | ⟨past, rest', rfl, off⟩
    · by_cases own : m = .turn t
      · subst own
        have nothing (closed : (s.turn t).world.config.closed = true)
            (is : (s.turn t).task? t = some (.over (.replied .nothing))) :
            outcome = .replied .nothing ∧
              ((s.turn t).after rest).world.config.closed = true := by
          cases is.symm.trans now
          exact ⟨rfl, (quiet_after looping'.mild.orderly looping'.mild.latest closed rest).1⟩
        cases looping.turned with
        | still same => exact .inl (same.symm.trans now)
        | waits calls awaits => exact absurd now awaits.not_over
        | returned calls is =>
          obtain ⟨_, _, _, is⟩ := is
          split at is
          next closed => exact .inr (.inl (nothing closed is))
          next => cases is.symm.trans now
        | ended closed sameClosed pauses is => exact .inr (.inl (nothing sameClosed is))
        | brokenOff off is =>
          cases is.symm.trans now
          exact .inr (.inr ⟨[], rest, rfl, off⟩)
      · obtain ⟨task, found, _⟩ := looping.loop
        cases (kept_step found own).symm.trans now
        exact .inl found
    · exact .inr (.inl ended)
    · exact .inr (.inr ⟨m :: past, rest', rfl, off⟩)

end Looping

/-- What is true of a loop with the task `t` at the moment after `moves`, when the session is `s`.
The loop was started before them, when the session was `start`. -/
structure GoesOn (period t : Nat) (start : Session σ) (moves : List (Move σ)) (s : Session σ) :
    Prop where
  -- The first refresh waits for no tick: it is issued with the first turn.
  first : (∀ m ∈ moves, m ≠ .turn t) → s.task? t = some (.fresh 0 .loop) ∧
    (s.doomed.contains t = false → s.world.config.closed = false →
      s.Issues period t (s.world.now + period))
  -- Whenever its next tick has come and the configuration is open the loop refreshes.
  ticks : ∀ due, s.task? t = some (.ticking due) → due ≤ s.world.now →
    s.doomed.contains t = false → s.world.config.closed = false →
      s.Issues period t (nextTick period due s.world.now)
  issues : ∀ next, s.Issues period t next →
    s.turn t = s.beginRefresh t (.periodic next) ∧ next ≤ s.world.now + period
  -- By then all refreshes that it issued before have returned.
  apart : ∀ next, s.Issues period t next → (∀ f next', ¬s.Awaits t f next') ∧
    ∀ past rest next', moves = past ++ .turn t :: rest → (start.after past).Issues period t next' →
      ∃ result, s.Told (start.after past).upcoming result
  -- It waits for no refresh but those that it issues in this way, and waits until they return.
  only : ∀ m f next, (s.step m).Awaits t f next →
    s.Awaits t f next ∨ m = .turn t ∧ s.Issues period t next ∧ f = s.upcoming
  waits : ∀ m f next, s.Awaits t f next → m ≠ .turn t → (s.step m).Awaits t f next
  -- Whatever a refresh that was led or followed has ended with, the loop waits for its next tick
  -- then, unless the configuration is closed.
  returns : ∀ f next, s.Calls period t f next →
    (s.turn t).Awaits t f next ∨ (s.turn t).Returned t f next ∨
      ∃ outcome, s.BrokenOff period t outcome ∧ (s.turn t).task? t = some (.over outcome)
  alive : ∃ task, s.task? t = some task ∧ IsLoop task
  -- If the loop is over the configuration has been closed, or the loop was broken off.
  ends : ∀ outcome, s.outcome? t = some outcome →
    (outcome = .replied .nothing ∧ s.world.config.closed = true) ∨
      ∃ past rest, moves = past ++ .turn t :: rest ∧
        (start.after past).BrokenOff period t outcome
  -- Once the configuration is closed it issues no refresh any more, and nobody else does.
  silent : s.world.config.closed = true → ∀ later : List (Move σ),
    (∀ next, ¬(s.after later).Issues period t next) ∧
      (s.after later).flights.size = s.flights.size
  -- Then the next turn ends a loop that waits for its first turn or for a tick. It would make no
  -- difference if a tick came first, since the refresh is refused.
  stops : s.world.config.closed = true → s.doomed.contains t = false → s.Pauses t →
    s.turn t = s.setTask t (.over (.replied .nothing)) ∧
      ∀ next, s.beginRefresh t (.periodic next) = s.setTask t (.over (.replied .nothing))

/-- A loop stays as it was started until it gets its first turn. -/
theorem fresh_after {start : Session σ} (started : start.task? t = some (.fresh 0 .loop))
    {moves : List (Move σ)} (others : ∀ m ∈ moves, m ≠ .turn t) :
    (start.after moves).task? t = some (.fresh 0 .loop) := by
  induction moves generalizing start with
  | nil => exact started
  | cons m rest ih =>
    obtain ⟨other, others⟩ := List.forall_mem_cons.mp others
    exact ih (kept_step started other) others

/-- The refresh that a loop has issued has ended when the loop issues another one. -/
theorem Looping.apart {start : Session σ} {past rest : List (Move σ)}
    (looping : Looping period t (start.after past))
    (kinds : ∀ m ∈ .turn t :: rest, m.Performs Script.Mild)
    (issued : (start.after past).Issues period t next')
    (issues : (start.after (past ++ .turn t :: rest)).Issues period t next) :
    ∃ result, (start.after (past ++ .turn t :: rest)).Told (start.after past).upcoming result := by
  obtain ⟨kind, others⟩ := List.forall_mem_cons.mp kinds
  have pauses := issues.pauses
  rw [after_append] at pauses ⊢
  have awaits : ((start.after past).turn t).Awaits t (start.after past).upcoming next' ∨
      (∃ result, ((start.after past).turn t).Told (start.after past).upcoming result) ∨
      ∃ outcome, ((start.after past).turn t).task? t = some (.over outcome) := by
    rcases looping.turned.returns (.inr ⟨issued, rfl⟩) with
      still | ⟨result, told, _⟩ | ⟨outcome, _, finished⟩
    · exact .inl still
    · exact .inr (.inl ⟨result, told⟩)
    · exact .inr (.inr ⟨outcome, finished⟩)
  rcases (looping.step kind).awaited_after awaits others with still | told | ⟨outcome, finished⟩
  · exact absurd still (pauses.not_awaits _ _)
  · exact told
  · exact absurd finished (pauses.not_over outcome)

/-- The next turn of a loop that does not wait for a refresh ends it if the configuration is
closed. -/
theorem turn_of_closed (interval : s.plan.refreshInterval = some period)
    (closed : s.world.config.closed = true) (awake : s.doomed.contains t = false)
    (pauses : s.Pauses t) : s.turn t = s.setTask t (.over (.replied .nothing)) := by
  have ends (due : Nat) : s.tick t due = s.setTask t (.over (.replied .nothing)) := by
    rw [tick, interval]
    exact if_pos closed
  rw [turn, if_neg (Bool.eq_false_iff.mp awake)]
  rcases pauses with fresh | ⟨due, ticks⟩
  · rw [fresh]
    exact ends _
  · rw [ticks]
    exact ends due

/-- A loop that was started goes on until the configuration is closed, and it never overlaps
itself: whatever sources do, whoever else refreshes and is cancelled, and whatever listeners do that
do not panic. -/
theorem loop_goes_on_until_closed (plan : Plan σ) (fuel : Nat) (surroundings : σ)
    (others : List (Option Value × NotifyOrder)) (earlier later : List (Move σ)) {period t : Nat}
    (interval : plan.refreshInterval = some period) {start : Session σ}
    (reached : (freshBeside plan fuel surroundings others).after earlier = start)
    (started : start.task? t = some (.fresh 0 .loop))
    (mild : ∀ m ∈ earlier ++ later, m.Performs Script.Mild) :
    GoesOn period t start later (start.after later) := by
  obtain ⟨mildEarlier, mildLater⟩ := List.forall_mem_append.mp mild
  have fresh := Mild.fresh plan fuel surroundings others
  have same : start.plan = plan := by
    rw [← reached]
    exact kept_by_moves (Q := fun s => s.plan = plan)
      (fun _ _ _ same onward => onward.plan.trans same) fresh.orderly fresh.latest rfl earlier
  have begun : Looping period t start :=
    ⟨reached ▸ fresh.after mildEarlier, same ▸ interval, _, started, .fresh⟩
  have looping := begun.after mildLater
  generalize now : start.after later = s at looping
  exact {
    first := fun others => by
      have fresh := now ▸ fresh_after started others
      refine ⟨fresh, fun awake opened => ⟨⟨_, .inl ⟨fresh, rfl⟩, ?_⟩, awake, opened⟩⟩
      rw [nextTick, if_neg (Nat.not_lt_of_le (Nat.le_add_right ..))]
    ticks := fun due ticks now awake opened => ⟨⟨due, .inr ⟨ticks, now⟩, rfl⟩, awake, opened⟩
    issues := fun next issues => ⟨issues.turn looping.interval, issues.next_le⟩
    apart := fun next issues => by
      refine ⟨issues.pauses.not_awaits, fun past rest next' split issued => ?_⟩
      subst split now
      obtain ⟨before, after⟩ := List.forall_mem_append.mp mildLater
      exact (begun.after before).apart after issued issues
    only := fun m f next awaits => by
      by_cases own : m = .turn t
      · subst own
        rcases looping.turned.awaits awaits with still | ⟨issues, upcoming⟩
        · exact .inl still
        · exact .inr ⟨rfl, issues, upcoming⟩
      · obtain ⟨task, found, _⟩ := looping.loop
        have kept := kept_step found own
        rw [Awaits, kept, ← found] at awaits
        exact .inl awaits
    waits := fun m f next awaits other => awaits.kept other
    returns := fun f next calls => looping.turned.returns calls
    alive := looping.loop
    ends := fun outcome ended => by
      subst now
      rcases begun.over_of_after mildLater (outcome?_of_task?.mp ended) with before | ended | off
      · cases before.symm.trans started
      · exact .inl ended
      · exact .inr off
    silent := fun closed later => by
      obtain ⟨closed', none⟩ := quiet_after looping.mild.orderly looping.mild.latest closed later
      refine ⟨fun next issues => ?_, none⟩
      rw [issues.opened] at closed'
      cases closed'
    stops := fun closed awake pauses => by
      refine ⟨turn_of_closed looping.interval closed awake pauses, fun next => ?_⟩
      rw [beginRefresh, if_pos closed, endRefresh_of_truth fun _ _ _ => closed, if_pos closed] }

/-- A configuration of a source that takes a while, refreshed every twenty milliseconds. -/
def refreshedOften : Plan Unit := { planOf slowSource with refreshInterval := some 20 }

/-- There is a derived cell with a listener, and somebody leads a refresh when a loop is started. -/
def startedMeanwhile : List (Move Unit) :=
  [.perform (.derive Extractor.whole fun _ =>
      .register 0 "quiet" (fun _ => .done .nothing) fun _ => .done .nothing),
    .spawn 0 .refresh, .turn 0, .perform (.start fun _ => .done .nothing)]

/-- The session in which it was started. -/
def loopStarted : Session Unit := (freshBeside refreshedOften 20 () []).after startedMeanwhile

/-- The loop follows the refresh, whose leader is cancelled. -/
def leaderCancelled : List (Move Unit) :=
  [.turn 1, .spawn 0 (.abort 0), .turn 2, .turn 0, .turn 1]

/-- The next tick comes, the loop refreshes, and the source answers. -/
def tickCame : List (Move Unit) := leaderCancelled ++ [.passTo 20, .turn 1, .passTo 25, .turn 1]

/-- The configuration is closed while the loop waits for a tick. -/
def closedThen : List (Move Unit) := tickCame ++ [closing, .turn 1]

theorem loop_goes_on_until_closed_leaderCancelled :
    loopStarted.task? 1 = some (.fresh 0 .loop) ∧
      GoesOn 20 1 loopStarted closedThen (loopStarted.after closedThen) ∧
      (loopStarted.turn 1).task? 1 = some (.following (.periodic 20) 0) ∧
      (loopStarted.after leaderCancelled).flights.size = 1 ∧
      (loopStarted.after leaderCancelled).task? 1 = some (.ticking 20) ∧
      (loopStarted.after tickCame).flights.size = 2 ∧
      (loopStarted.after tickCame).task? 1 = some (.ticking 40) ∧
      (loopStarted.after closedThen).outcome? 1 = some (.replied .nothing) := by
  have mild : ∀ m ∈ startedMeanwhile ++ closedThen, m.Performs Script.Mild := by
    have done : (Script.done .nothing : Script Unit).Mild := ⟨trivial, trivial⟩
    have quiet : (Script.done .nothing : Script Unit).Obeys Law.mild.strict :=
      ⟨⟨trivial, nofun⟩, trivial⟩
    simp only [startedMeanwhile, closedThen, tickCame, leaderCancelled, List.cons_append,
      List.nil_append, List.forall_mem_cons]
    exact ⟨⟨.whole, fun _ => ⟨trivial, fun _ => quiet, fun _ => done⟩⟩, .refresh, trivial,
      ⟨trivial, fun _ => done⟩, trivial, .abort 0, trivial, trivial, trivial, trivial, trivial,
      trivial, trivial, ⟨trivial, done⟩, trivial, nofun⟩
  have started : loopStarted.task? 1 = some (.fresh 0 .loop) :=
    start_adds_loop (s := (freshBeside refreshedOften 20 () []).after (startedMeanwhile.take 3))
      rfl nofun fun _ => .done .nothing
  exact ⟨started, loop_goes_on_until_closed refreshedOften 20 () [] startedMeanwhile closedThen rfl
    rfl started mild, rfl, rfl, rfl, rfl, rfl, rfl⟩

end Session
end LayeredConfig.Live
