import LayeredConfig.Proofs.Live.Turns
/-!
# Deeds

A move is taken apart into deeds, of which each has to do with one refresh in one way. What every
deed keeps is true at every moment of every run. First of all this is that a session is `Orderly`:
the marker of the configuration names the refresh that is under way, and exactly one task leads it.
-/
namespace LayeredConfig.Live.Session

variable {σ : Type} {s s' v : Session σ} {t u f g : Nat}

/-- One thing that happens in a session, as far as it has to do with refreshes. -/
inductive Deed (s s' : Session σ) : Prop where
  | aside (aside : Aside s s')
  | joined {t : Nat} {purpose : Purpose} {f : Nat} {old : Task σ} (found : s.task? t = some old)
    (free : old.free = true) (flying : s.world.config.inFlight = some f)
    (flights : s'.flights = s.flights) (world : s'.world = s.world)
    (tasks : s'.tasks = s.tasks.set t (.following purpose f))
  | tookOff {t : Nat} {purpose : Purpose} {old : Task σ} {deadline : Option Nat}
    {progress : Progress} {asked : List Nat} (found : s.task? t = some old)
    (free : old.free = true) (idle : s.world.config.inFlight = none)
    (flights : s'.flights = s.flights.push .underWay)
    (flying : s'.world.config.inFlight = some s.flights.size)
    (asks : asks s'.world.history = asked ++ asks s.world.history) (once : asked.Nodup)
    (upTo : ∀ j, progress.source? = some j → ∀ i ∈ asked, i ≤ j)
    (tasks : s'.tasks = s.tasks.set t (.leading purpose s.flights.size deadline progress))
  | advanced {t : Nat} {purpose : Purpose} {f : Nat} {deadline deadline' : Option Nat}
    {progress progress' : Progress} {asked : List Nat}
    (found : s.task? t = some (.leading purpose f deadline progress))
    (flights : s'.flights = s.flights) (flying : s'.world.config.inFlight = s.world.config.inFlight)
    (asks : asks s'.world.history = asked ++ asks s.world.history) (once : asked.Nodup)
    (allowed : ∀ i ∈ asked, progress.MayAsk i)
    (upTo : ∀ j, progress'.source? = some j → progress.MayAsk j ∧ ∀ i ∈ asked, i ≤ j)
    (tasks : s'.tasks = s.tasks.set t (.leading purpose f deadline' progress'))
  | landed {t : Nat} {purpose : Purpose} {f : Nat} {deadline : Option Nat} {progress : Progress}
    {flight : Flight} {new : List (Task σ)} {task : Task σ}
    (found : s.task? t = some (.leading purpose f deadline progress))
    (flights : s'.flights = s.flights.setIfInBounds f flight)
    (cleared : s'.world.config.inFlight = none)
    (asks : asks s'.world.history = asks s.world.history)
    (tasks : s'.tasks = (s.tasks ++ new).set t task)
    (plain : ∀ task ∈ new, task.flight? = none) (lands : Lands purpose flight task)

theorem task?_of_replace {old task : Task σ} (found : s.task? t = some old)
    (tasks : s'.tasks = s.tasks.set t task) (u : Nat) :
    s'.task? u = if u = t then some task else s.task? u := by
  have none : s'.tasks = (s.tasks ++ []).set t task := by rw [tasks, List.append_nil]
  have := task?_of_set found none u
  simpa using this

/-- Tasks that are added after a task was replaced might as well have been added before. -/
theorem set_append_set {tasks new : List (Task σ)} (here : t < tasks.length)
    (virtual task : Task σ) :
    (tasks ++ new).set t task = (tasks.set t virtual ++ new).set t task := by
  rw [← List.set_append_left t virtual here, List.set_set]

/-- A task that has nothing to ask any more; it stands for one that will end its refresh at once. -/
def ending : Progress := .transformer 0 .empty

/-- A move is one deed, or two. -/
theorem deeds_of_moved (moved : Moved s s') : Deed s s' ∨ ∃ v, Deed s v ∧ Deed v s' := by
  cases moved with
  | aside aside => exact .inl (.aside aside)
  | joined t purpose f found free opened flying =>
    exact .inl (.joined found free flying rfl rfl rfl)
  | began t purpose found free opened idle =>
    obtain ⟨events, part, _⟩ := FetchPart.fetch s.plan s.marked
    obtain ⟨surroundings, world⟩ := part.world
    have flying : s.begun.world.config.inFlight = some s.flights.size := by
      rw [show s.begun.world = _ from world]
      rfl
    have asked : asks s.begun.world.history = asks events ++ asks s.world.history := by
      rw [show s.begun.world = _ from world]
      exact asks_append events _
    have led := lead_led s.begun t purpose s.flights.size ((fetch s.plan).run s.marked).1
    have here : t < s.tasks.length := (List.getElem?_eq_some_iff.mp found).1
    revert led
    generalize lead s.begun t purpose s.flights.size ((fetch s.plan).run s.marked).1 = after
    intro led
    rcases result : ((fetch s.plan).run s.marked).1 with ⟨pace, progress⟩ | fetched
    · rw [result] at led
      cases led with
      | waits _ _ flights world tasks =>
        refine .inl (.tookOff found free idle flights (world ▸ flying) (world ▸ asked) part.once
          (fun j waits => ?_) tasks)
        exact (part.upTo j (by rw [result]; exact waits)).2
    · rw [result] at led
      cases led with
      | lands _ flight flights cleared asks tasks plain lands kept failed =>
        -- the refresh began and was over at once
        refine .inr ⟨s.begun.setTask t (.leading purpose s.flights.size none ending),
          .tookOff found free idle rfl flying asked part.once (by rintro _ ⟨⟩) rfl, ?_⟩
        have leading : (s.begun.setTask t (.leading purpose s.flights.size none ending)).task? t =
            some (.leading purpose s.flights.size none ending) :=
          List.getElem?_set_self here
        refine .landed leading flights cleared asks ?_ plain lands
        rw [tasks]
        exact set_append_set here _ _
  | wentOn t purpose f deadline progress found =>
    obtain ⟨events, part⟩ := FetchPart.resume s.plan progress s.world
    obtain ⟨surroundings, world⟩ := part.world
    have flying : (s.resumed progress).world.config.inFlight = s.world.config.inFlight := by
      rw [show (s.resumed progress).world = _ from world]
    have asked : asks (s.resumed progress).world.history =
        asks events ++ asks s.world.history := by
      rw [show (s.resumed progress).world = _ from world]
      exact asks_append events _
    have led := lead_led (s.resumed progress) t purpose f ((progress.resume s.plan).run s.world).1
    have here : t < s.tasks.length := (List.getElem?_eq_some_iff.mp found).1
    revert led
    generalize (s.resumed progress).lead t purpose f _ = after
    intro led
    rcases result : ((progress.resume s.plan).run s.world).1 with ⟨pace, progress'⟩ | fetched
    · rw [result] at led
      cases led with
      | waits _ _ flights world tasks =>
        refine .inl (.advanced found flights (world ▸ flying) (world ▸ asked) part.once part.allowed
          (fun j waits => ?_) tasks)
        exact part.upTo j (by rw [result]; exact waits)
    · rw [result] at led
      cases led with
      | lands _ flight flights cleared asks tasks plain lands kept failed =>
        refine .inr ⟨(s.resumed progress).setTask t (.leading purpose f none ending),
          .advanced found rfl flying asked part.once part.allowed (by rintro _ ⟨⟩) rfl, ?_⟩
        have leading : ((s.resumed progress).setTask t (.leading purpose f none ending)).task? t =
            some (.leading purpose f none ending) :=
          List.getElem?_set_self here
        refine .landed leading flights cleared asks ?_ plain lands
        rw [tasks]
        exact set_append_set here _ _
  | dropped t purpose f deadline progress doomed found =>
    have lands : Lands purpose .abandoned (.over .cancelled : Task σ) := ⟨_, rfl, .inl rfl⟩
    refine .inl (.landed found rfl rfl rfl ?_ (List.forall_mem_nil _) lands)
    rw [List.append_nil]
    rfl

/-- What every deed keeps is kept by a run. -/
theorem kept_by_deeds {P : Session σ → Prop} (kept : ∀ s s', P s → Deed s s' → P s') (start : P s)
    (moves : List (Move σ)) : P (s.after moves) := by
  induction moves generalizing s with
  | nil => exact start
  | cons m rest ih =>
    refine ih ?_
    rcases deeds_of_moved (moved s m) with deed | ⟨v, first, second⟩
    · exact kept s _ start deed
    · exact kept v _ (kept s v start first) second

/-! ### What is true at every moment -/

/-- A task leads a refresh. -/
def LedBy (s : Session σ) (t f : Nat) : Prop :=
  ∃ purpose deadline progress, s.task? t = some (.leading purpose f deadline progress)

/-- The marker names the refresh that is under way, which has one task that leads it, and whoever
follows a refresh follows one that there is. -/
structure Orderly (s : Session σ) : Prop where
  underWay : ∀ f, s.world.config.inFlight = some f ↔ s.flights[f]? = some .underWay
  led : ∀ f, s.world.config.inFlight = some f → ∃ t, s.LedBy t f
  leads : ∀ t f, s.LedBy t f → s.world.config.inFlight = some f
  single : ∀ t u f g, s.LedBy t f → s.LedBy u g → t = u
  joined : ∀ t purpose f, s.task? t = some (.following purpose f) → f < s.flights.size

theorem not_ledBy_of_flight? {task : Task σ} (found : s.task? t = some task)
    (plain : task.flight? = none) (f : Nat) : ¬s.LedBy t f := by
  rintro ⟨purpose, deadline, progress, leads⟩
  rw [found] at leads
  cases leads
  cases plain

namespace Aside

/-- Who leads a refresh leads it still, and nobody else does. -/
theorem ledBy_iff (aside : Aside s s') (t f : Nat) : s'.LedBy t f ↔ s.LedBy t f := by
  have shift := aside.tasks t
  simp only [LedBy]
  generalize s.task? t = old, s'.task? t = new at shift
  cases shift with
  | same => rfl
  | aside free plain =>
    constructor
    · rintro ⟨_, _, _, rfl⟩
      cases plain _ rfl
    · rintro ⟨_, _, _, rfl⟩
      cases free _ rfl
  | cancelled => simp
  | told tells ended =>
    have plain := ended.flight?
    constructor
    · rintro ⟨_, _, _, leads⟩
      cases leads
      cases plain
    · rintro ⟨_, _, _, leads⟩
      cases leads

theorem following (aside : Aside s s') {purpose : Purpose}
    (follows : s'.task? t = some (.following purpose f)) :
    s.task? t = some (.following purpose f) := by
  have shift := aside.tasks t
  rw [follows] at shift
  generalize s.task? t = old at shift
  cases shift with
  | same => rfl
  | aside free plain => cases plain _ rfl
  | told tells ended => cases ended.flight?

end Aside

theorem Orderly.fresh (plan : Plan σ) (fuel : Nat) (surroundings : σ) :
    Orderly (Session.fresh plan fuel surroundings) where
  underWay f := by simp [Session.fresh]
  led := nofun
  leads := by rintro t f ⟨_, _, _, leads⟩; simp [Session.fresh, task?] at leads
  single := by rintro t u f g ⟨_, _, _, leads⟩; simp [Session.fresh, task?] at leads
  joined := by intro t purpose f follows; simp [Session.fresh, task?] at follows

/-- Who leads and who follows after a task was replaced and some were added. -/
theorem ledBy_of_set {new : List (Task σ)} {old task : Task σ} (found : s.task? t = some old)
    (tasks : s'.tasks = (s.tasks ++ new).set t task) (plain : ∀ task ∈ new, task.flight? = none)
    {u : Nat} (leads : s'.LedBy u g) :
    (u = t ∧ ∃ purpose deadline progress, task = .leading purpose g deadline progress) ∨
      (u ≠ t ∧ s.LedBy u g) := by
  obtain ⟨purpose, deadline, progress, leads⟩ := leads
  rw [task?_of_set found tasks] at leads
  split at leads
  next same => exact .inl ⟨same, purpose, deadline, progress, Option.some_inj.mp leads⟩
  next other =>
    refine .inr ⟨other, purpose, deadline, progress, ?_⟩
    cases before : s.task? u with
    | some task' =>
      rw [before] at leads
      exact leads
    | none =>
      rw [before] at leads
      cases plain _ (List.mem_of_getElem? leads)

theorem following_of_set {new : List (Task σ)} {old task : Task σ} (found : s.task? t = some old)
    (tasks : s'.tasks = (s.tasks ++ new).set t task) (plain : ∀ task ∈ new, task.flight? = none)
    {u : Nat} {purpose : Purpose} (follows : s'.task? u = some (.following purpose g)) :
    (u = t ∧ task = .following purpose g) ∨ (u ≠ t ∧ s.task? u = some (.following purpose g)) := by
  rw [task?_of_set found tasks] at follows
  split at follows
  next same => exact .inl ⟨same, Option.some_inj.mp follows⟩
  next other =>
    refine .inr ⟨other, ?_⟩
    cases before : s.task? u with
    | some task' =>
      rw [before] at follows
      exact follows
    | none =>
      rw [before] at follows
      cases plain _ (List.mem_of_getElem? follows)

/-- The other tasks are as they were. -/
theorem ledBy_of_ne {new : List (Task σ)} {old task : Task σ} (found : s.task? t = some old)
    (tasks : s'.tasks = (s.tasks ++ new).set t task) {u : Nat} (other : u ≠ t)
    (leads : s.LedBy u g) : s'.LedBy u g := by
  obtain ⟨purpose, deadline, progress, leads⟩ := leads
  refine ⟨purpose, deadline, progress, ?_⟩
  rw [task?_of_set found tasks, if_neg other, leads]
  rfl

namespace Orderly

/-- The same tasks lead the same refreshes. -/
theorem of_same (orderly : Orderly s) (flights : s'.flights = s.flights)
    (inFlight : s'.world.config.inFlight = s.world.config.inFlight)
    (ledBy : ∀ t f, s'.LedBy t f ↔ s.LedBy t f)
    (following : ∀ t purpose f, s'.task? t = some (.following purpose f) → f < s.flights.size) :
    Orderly s' := by
  refine ⟨?_, ?_, ?_, ?_, ?_⟩
  · rw [flights, inFlight]
    exact orderly.underWay
  · rw [inFlight]
    intro f flying
    obtain ⟨t, leads⟩ := orderly.led f flying
    exact ⟨t, (ledBy t f).mpr leads⟩
  · rw [inFlight]
    intro t f leads
    exact orderly.leads t f ((ledBy t f).mp leads)
  · intro t u f g leads leads'
    exact orderly.single t u f g ((ledBy t f).mp leads) ((ledBy u g).mp leads')
  · rw [flights]
    exact following

/-- A refresh has begun, and there was none under way. -/
theorem took_off (orderly : Orderly s) {purpose : Purpose} {old : Task σ} {deadline : Option Nat}
    {progress : Progress} (found : s.task? t = some old) (idle : s.world.config.inFlight = none)
    (flights : s'.flights = s.flights.push .underWay)
    (flying : s'.world.config.inFlight = some s.flights.size)
    (tasks : s'.tasks = (s.tasks ++ []).set t (.leading purpose s.flights.size deadline progress)) :
    Orderly s' := by
  have nobody : ∀ u g, ¬s.LedBy u g := fun u g leads => by
    have := orderly.leads u g leads
    rw [idle] at this
    cases this
  have only {u g : Nat} (leads : s'.LedBy u g) : u = t ∧ g = s.flights.size := by
    rcases ledBy_of_set found tasks (List.forall_mem_nil _) leads with ⟨same, _, _, _, here⟩ | old
    · cases here
      exact ⟨same, rfl⟩
    · exact (nobody u g old.2).elim
  -- nor does anything else count as under way
  have grounded : ∀ g, s.flights[g]? ≠ some Flight.underWay := fun g underWay => by
    have := (orderly.underWay g).mpr underWay
    rw [idle] at this
    cases this
  refine ⟨fun g => ?_, fun g flying' => ⟨t, ?_⟩, fun u g leads => ?_,
    fun u u' g g' leads leads' => ?_, fun u purpose' g follows => ?_⟩
  · rw [flying, flights, Array.getElem?_push, Option.some_inj]
    split
    next last => simp [last]
    next other => simp [Ne.symm other, grounded g]
  · rw [flying] at flying'
    cases flying'
    refine ⟨purpose, deadline, progress, ?_⟩
    rw [task?_of_set found tasks, if_pos rfl]
  · rw [flying, (only leads).2]
  · rw [(only leads).1, (only leads').1]
  · rw [flights, Array.size_push]
    rcases following_of_set found tasks (List.forall_mem_nil _) follows with ⟨_, wrong⟩ | old
    · cases wrong
    · exact Nat.lt_succ_of_lt (orderly.joined u purpose' g old.2)

/-- The refresh under way has ended, and with it everything that was under way. -/
theorem landed (orderly : Orderly s) {purpose : Purpose} {flight : Flight} {new : List (Task σ)}
    {old task : Task σ} (found : s.task? t = some old) (leads : s.LedBy t f)
    (flights : s'.flights = s.flights.setIfInBounds f flight)
    (cleared : s'.world.config.inFlight = none) (tasks : s'.tasks = (s.tasks ++ new).set t task)
    (plain : ∀ task ∈ new, task.flight? = none) (lands : Lands purpose flight task) :
    Orderly s' := by
  have flying : s.world.config.inFlight = some f := orderly.leads t f leads
  -- the only leader there was leads no longer
  have nobody : ∀ u g, ¬s'.LedBy u g := fun u g leads' => by
    rcases ledBy_of_set found tasks plain leads' with ⟨_, _, _, _, wrong⟩ | ⟨other, old⟩
    · rw [wrong] at lands
      cases lands.flight?
    · exact other (orderly.single u t g f old leads)
  refine ⟨fun g => ?_, fun g flying' => ?_, fun u g leads' => (nobody u g leads').elim,
    fun u _ g _ leads' => (nobody u g leads').elim, fun u purpose' g follows => ?_⟩
  · rw [cleared, flights, Array.getElem?_setIfInBounds]
    constructor
    · nofun
    · intro underWay
      split at underWay
      next same =>
        split at underWay
        · cases underWay
          exact lands.elim
        · cases underWay
      next other =>
        have := (orderly.underWay g).mpr underWay
        rw [flying] at this
        exact absurd (Option.some_inj.mp this) other
  · rw [cleared] at flying'
    cases flying'
  · rw [flights, Array.size_setIfInBounds]
    rcases following_of_set found tasks plain follows with ⟨_, wrong⟩ | old
    · rw [wrong] at lands
      cases lands.flight?
    · exact orderly.joined u purpose' g old.2

theorem deed (orderly : Orderly s) (deed : Deed s s') : Orderly s' := by
  cases deed with
  | aside aside =>
    exact orderly.of_same aside.flights aside.apart.inFlight aside.ledBy_iff
      fun t purpose f follows => orderly.joined t purpose f (aside.following follows)
  | @joined t purpose f old found free flying flights world tasks =>
    rw [← List.append_nil s.tasks] at tasks
    -- whoever joins has led no refresh before
    have idle : ∀ g, ¬s.LedBy t g := not_ledBy_of_flight? found (Task.flight?_of_free free)
    refine orderly.of_same flights (by rw [world]) (fun u g => ⟨fun leads => ?_, fun leads => ?_⟩)
      fun u purpose' g follows => ?_
    · rcases ledBy_of_set found tasks (List.forall_mem_nil _) leads with ⟨_, _, _, _, wrong⟩ | old
      · cases wrong
      · exact old.2
    · have other : u ≠ t := by
        rintro rfl
        exact idle g leads
      exact ledBy_of_ne found tasks other leads
    · rcases following_of_set found tasks (List.forall_mem_nil _) follows with ⟨_, same⟩ | old
      · cases same
        exact (Array.getElem?_eq_some_iff.mp ((orderly.underWay f).mp flying)).1
      · exact orderly.joined u purpose' g old.2
  | tookOff found _ idle flights flying _ _ _ tasks =>
    rw [← List.append_nil s.tasks] at tasks
    exact orderly.took_off found idle flights flying tasks
  | @advanced t purpose f deadline deadline' progress progress' _ found flights flying _ _ _ _
      tasks =>
    rw [← List.append_nil s.tasks] at tasks
    refine orderly.of_same flights flying (fun u g => ⟨fun leads => ?_, fun leads => ?_⟩)
      fun u purpose' g follows => ?_
    · rcases ledBy_of_set found tasks (List.forall_mem_nil _) leads with ⟨rfl, _, _, _, same⟩ | old
      · cases same
        exact ⟨purpose, deadline, progress, found⟩
      · exact old.2
    · by_cases same : u = t
      · subst same
        obtain ⟨_, _, _, leads⟩ := leads
        rw [found] at leads
        cases leads
        refine ⟨purpose, deadline', progress', ?_⟩
        rw [task?_of_set found tasks, if_pos rfl]
      · exact ledBy_of_ne found tasks same leads
    · rcases following_of_set found tasks (List.forall_mem_nil _) follows with ⟨_, wrong⟩ | old
      · cases wrong
      · exact orderly.joined u purpose' g old.2
  | landed found flights cleared _ tasks plain lands =>
    exact orderly.landed found ⟨_, _, _, found⟩ flights cleared tasks plain lands

/-- Every session that can be reached is orderly. -/
theorem after (orderly : Orderly s) (moves : List (Move σ)) : Orderly (s.after moves) :=
  kept_by_deeds (fun _ _ orderly deed => orderly.deed deed) orderly moves

end Orderly

end LayeredConfig.Live.Session
