import LayeredConfig.Proofs.Live.Derived
import LayeredConfig.Proofs.Live.Failures
/-!
# Refreshes that are overtaken

A configuration can be closed while a refresh still waits for its sources and transformers. From
then on that refresh can only fail, and nothing is published any more: `overtaken_refresh`. Why it
fails depends on its fetch. If that gives a tree, publishing it is refused, and nothing is
remembered of this. If the fetch fails, its error is the one that is told and remembered, as if the
configuration were open (`overtaken_by_error`).
-/
namespace LayeredConfig.Live

variable {σ : Type}

/-- The error with which a refresh ends whose fetch is over when the configuration is closed. -/
def overtakenBy : Except ConfigError Tree → ConfigError
  | .ok _ => .closed "reloadable config"
  | .error e => e

/-- A closed configuration publishes nothing. -/
theorem World.failure?_of_closed {w : World σ} (closed : w.config.closed = true)
    (fetched : Except ConfigError Tree) : w.failure? fetched = some (overtakenBy fetched) := by
  cases fetched with
  | ok tree => exact if_pos closed
  | error e => rfl

namespace Session

variable {s s' : Session σ} {t u f : Nat} {m : Move σ}

/-- On a closed configuration a refresh whose fetch is over fails, unless the fetch broke down. -/
theorem lead_of_closed (closed : s.world.config.closed = true) (t : Nat) (purpose : Purpose)
    (f : Nat) (fetched : Except ConfigError Tree) :
    (brokeDown fetched = true ∧ s.lead t purpose f (.over fetched) = s.crash t f .panicked) ∨
      (brokeDown fetched = false ∧
        (s.lead t purpose f (.over fetched)).flights =
          s.flights.setIfInBounds f (.settled (.error (overtakenBy fetched))) ∧
        (s.lead t purpose f (.over fetched)).world =
          { s.world with config := s.world.config.failed (overtakenBy fetched), loops := 0 }) := by
  cases broke : brokeDown fetched with
  | true =>
    refine .inl ⟨rfl, ?_⟩
    rw [lead, if_pos broke]
  | false =>
    have fails := World.failure?_of_closed closed fetched
    let ended : World σ :=
      s.world.modifyConfig (·.ended s.world.now (.error (overtakenBy fetched)))
    obtain ⟨task, ends, _⟩ := endRefresh_spec ((adoptLoops { s with world := ended }).land f
      (.settled (.error (overtakenBy fetched)))) t purpose (.error (overtakenBy fetched))
    have leads : s.lead t purpose f (.over fetched) = ((adoptLoops { s with world := ended }).land f
        (.settled (.error (overtakenBy fetched)))).setTask t task := by
      rw [lead, if_neg (by simp [broke]), conclude_of_failure s.fuel fails]
      exact ends
    refine .inr ⟨rfl, ?_, ?_⟩
    · rw [leads]
      rfl
    · rw [leads, ← ConfigState.failed_of_ended s.world.config s.world.now]
      rfl

/-- Since a moment at which the configuration was closed and a refresh was under way nothing was
published, and if the refresh is over it has failed. What is remembered of it is its error, unless
that is only that the configuration is closed. -/
structure Overtaken (s₀ : Session σ) (f : Nat) (s : Session σ) : Prop where
  closed : s.world.config.closed = true
  current : s.world.config.current = s₀.world.config.current
  lastRefreshed : s.world.config.lastRefreshed = s₀.world.config.lastRefreshed
  trees : trees s.world.history = trees s₀.world.history
  outcome :
    (s.world.config.lastError = s₀.world.config.lastError ∧
      (s.flights[f]? = some .underWay ∨ s.flights[f]? = some .abandoned)) ∨
    ∃ e, s.flights[f]? = some (.settled (.error e)) ∧
      s.world.config.lastError = if e.isClosed then s₀.world.config.lastError else some e
  -- No other refresh is under way.
  alone : ∀ g, s.world.config.inFlight = some g → g = f

/-- Fetches publish nothing. -/
theorem trees_of_fetch {events : List Event} (ofFetch : ∀ e ∈ events, e.ofFetch = true) :
    Live.trees events = [] := by
  refine List.filterMap_eq_nil_iff.mpr fun e member => ?_
  have fetches := ofFetch e member
  cases e with
  | asked | transformed => rfl
  | _ => cases fetches

namespace Overtaken

variable {s₀ : Session σ}

/-- Nothing happens to refreshes. -/
theorem aloof (overtaken : Overtaken s₀ f s) (flights : s'.flights = s.flights)
    (aloof : Aloof s.world s'.world) : Overtaken s₀ f s' where
  closed := aloof.closed overtaken.closed
  current := aloof.current.trans overtaken.current
  lastRefreshed := aloof.lastRefreshed.trans overtaken.lastRefreshed
  trees := aloof.trees.trans overtaken.trees
  outcome := by
    rw [flights, aloof.lastError]
    exact overtaken.outcome
  alone g flying := overtaken.alone g (aloof.inFlight ▸ flying)

/-- The one who leads a refresh on a closed configuration leads this one, and it is under way. -/
theorem led (overtaken : Overtaken s₀ f s) (orderly : Orderly s) {g : Nat} (leads : s.LedBy u g) :
    g = f ∧ s.flights[f]? = some .underWay ∧
      s.world.config.lastError = s₀.world.config.lastError := by
  have flying : s.world.config.inFlight = some g := orderly.leads u g leads
  obtain rfl := overtaken.alone g flying
  have underWay : s.flights[g]? = some .underWay := (orderly.underWay g).mp flying
  refine ⟨rfl, underWay, ?_⟩
  rcases overtaken.outcome with ⟨same, _⟩ | ⟨e, settled, _⟩
  · exact same
  · rw [underWay] at settled
    cases settled

/-- The refresh goes on, and its fetch may be over. -/
theorem goesOn (overtaken : Overtaken s₀ f s) (orderly : Orderly s) {purpose : Purpose} {g : Nat}
    {deadline : Option Nat} {progress : Progress}
    (found : s.task? u = some (.leading purpose g deadline progress)) :
    Overtaken s₀ f
      ((s.resumed progress).lead u purpose g ((progress.resume s.plan).run s.world).1) := by
  obtain ⟨rfl, underWay, sameError⟩ := overtaken.led orderly ⟨_, _, _, found⟩
  have here : g < s.flights.size := (Array.getElem?_eq_some_iff.mp underWay).1
  obtain ⟨events, part⟩ := FetchPart.resume s.plan progress s.world
  obtain ⟨surroundings, world⟩ := part.world
  have resumed : (s.resumed progress).world = _ := world
  have nothing : Live.trees (s.resumed progress).world.history = Live.trees s.world.history := by
    rw [resumed, trees_append, trees_of_fetch part.ofFetch, List.nil_append]
  have sameConfig : (s.resumed progress).world.config = s.world.config := by rw [resumed]
  have closed : (s.resumed progress).world.config.closed = true := by
    rw [sameConfig]
    exact overtaken.closed
  rcases ((progress.resume s.plan).run s.world).1 with ⟨pace, progress'⟩ | fetched
  · -- the refresh waits again
    have waits : ((s.resumed progress).lead u purpose g (.waiting pace progress')).flights =
        s.flights ∧ ((s.resumed progress).lead u purpose g (.waiting pace progress')).world =
          (s.resumed progress).world := by cases pace <;> exact ⟨rfl, rfl⟩
    obtain ⟨flights, world'⟩ := waits
    refine ⟨?_, ?_, ?_, ?_, ?_, ?_⟩
    all_goals rw [world']
    · exact closed
    · rw [sameConfig, overtaken.current]
    · rw [sameConfig, overtaken.lastRefreshed]
    · rw [nothing, overtaken.trees]
    · rw [flights, sameConfig]
      exact overtaken.outcome
    · rw [sameConfig]
      exact overtaken.alone
  · rcases lead_of_closed closed u purpose g fetched with ⟨_, crashes⟩ | ⟨_, flights, world'⟩
    · -- the fetch broke down
      rw [crashes]
      refine ⟨closed, ?_, ?_, nothing.trans overtaken.trees, .inl ⟨?_, .inr ?_⟩, nofun⟩
      · exact (congrArg ConfigState.current sameConfig).trans overtaken.current
      · exact (congrArg ConfigState.lastRefreshed sameConfig).trans overtaken.lastRefreshed
      · exact (congrArg ConfigState.lastError sameConfig).trans sameError
      · exact Array.getElem?_setIfInBounds_self_of_lt here
    · refine ⟨?_, ?_, ?_, ?_, .inr ⟨overtakenBy fetched, ?_, ?_⟩, ?_⟩
      · rw [world']
        exact closed
      · rw [world', sameConfig]
        exact overtaken.current
      · rw [world', sameConfig]
        exact overtaken.lastRefreshed
      · rw [world']
        exact nothing.trans overtaken.trees
      · rw [flights]
        exact Array.getElem?_setIfInBounds_self_of_lt here
      · rw [world', sameConfig, ← sameError]
        rfl
      · rw [world']
        nofun

/-- Once the configuration is closed a refresh that was under way can only fail, whatever is done
meanwhile. -/
theorem step (overtaken : Overtaken s₀ f s) (orderly : Orderly s) (m : Move σ) :
    Overtaken s₀ f (s.step m) := by
  generalize s.step m = after, moved s m = moved
  cases moved with
  | aside aside => exact overtaken.aloof aside.flights aside.apart
  | joined u purpose g found free opened =>
    rw [overtaken.closed] at opened
    cases opened
  | began u purpose found free opened =>
    rw [overtaken.closed] at opened
    cases opened
  | wentOn u purpose g deadline progress found => exact overtaken.goesOn orderly found
  | dropped u purpose g deadline progress doomed found =>
    obtain ⟨rfl, underWay, sameError⟩ := overtaken.led orderly ⟨_, _, _, found⟩
    have here : g < s.flights.size := (Array.getElem?_eq_some_iff.mp underWay).1
    exact ⟨overtaken.closed, overtaken.current, overtaken.lastRefreshed, overtaken.trees,
      .inl ⟨sameError, .inr (Array.getElem?_setIfInBounds_self_of_lt here)⟩, nofun⟩

theorem after (overtaken : Overtaken s₀ f s) (orderly : Orderly s) (moves : List (Move σ)) :
    Overtaken s₀ f (s.after moves) := by
  induction moves generalizing s with
  | nil => exact overtaken
  | cons m rest ih => exact ih (overtaken.step orderly m) (orderly.after [m])

/-- The move with which the configuration is closed while a refresh is under way. -/
theorem begin (orderly : Orderly s) {purpose : Purpose} {deadline : Option Nat}
    {progress : Progress} (leads : (s.step m).task? t = some (.leading purpose f deadline progress))
    (closed : (s.step m).world.config.closed = true) : Overtaken s f (s.step m) := by
  have orderly' : Orderly (s.step m) := orderly.after [m]
  have flying : (s.step m).world.config.inFlight = some f := orderly'.leads t f ⟨_, _, _, leads⟩
  have underWay := (orderly'.underWay f).mp flying
  have alone (g : Nat) (flies : (s.step m).world.config.inFlight = some g) : g = f := by
    rw [flying] at flies
    exact (Option.some_inj.mp flies).symm
  generalize s.step m = after, moved s m = moved at closed flying underWay alone
  cases moved with
  | aside aside =>
    exact ⟨closed, aside.apart.current, aside.apart.lastRefreshed, aside.apart.trees,
      .inl ⟨aside.apart.lastError, .inl underWay⟩, alone⟩
  | joined u purpose' g found free opened =>
    have opened' : (s.setTask u (.following purpose' g)).world.config.closed = false := opened
    rw [opened'] at closed
    cases closed
  | began u purpose' found free opened idle =>
    obtain ⟨events, part, _⟩ := FetchPart.fetch s.plan s.marked
    obtain ⟨surroundings, world⟩ := part.world
    have begun : s.begun.world = _ := world
    have led := lead_led s.begun u purpose' s.flights.size ((fetch s.plan).run s.marked).1
    generalize lead s.begun u purpose' s.flights.size _ = after,
      ((fetch s.plan).run s.marked).1 = fetched at led closed flying
    cases led with
    | waits pace progress' flights world' tasks =>
      rw [world', begun] at closed
      exact absurd (closed.symm.trans opened) (by simp)
    | lands fetched flight flights cleared =>
      rw [cleared] at flying
      cases flying
  | wentOn u purpose' g deadline' progress' found =>
    obtain ⟨events, part⟩ := FetchPart.resume s.plan progress' s.world
    obtain ⟨surroundings, world⟩ := part.world
    have resumed : (s.resumed progress').world = _ := world
    have led :=
      lead_led (s.resumed progress') u purpose' g ((progress'.resume s.plan).run s.world).1
    generalize lead (s.resumed progress') u purpose' g _ = after,
      ((progress'.resume s.plan).run s.world).1 = fetched at led closed flying underWay alone
    cases led with
    | waits pace progress'' flights world' tasks =>
      rw [resumed] at world'
      refine ⟨closed, ?_, ?_, ?_, .inl ⟨?_, .inl underWay⟩, alone⟩
      all_goals rw [world']
      rw [trees_append, trees_of_fetch part.ofFetch, List.nil_append]
    | lands fetched flight flights cleared =>
      rw [cleared] at flying
      cases flying
  | dropped u purpose' g deadline' progress' doomed found => cases flying

/-- When the fetch of the refresh is over the refresh has failed, as the fetch did or because
nothing is published any more. -/
theorem turn_of_over (overtaken : Overtaken s₀ f s) (orderly : Orderly s) {purpose : Purpose}
    {deadline : Option Nat} {progress : Progress} {fetched : Except ConfigError Tree}
    (leads : s.task? t = some (.leading purpose f deadline progress))
    (awake : s.doomed.contains t = false) (due : deadline.all (· ≤ s.world.now) = true)
    (ends : ((progress.resume s.plan).run s.world).1 = .over fetched)
    (sound : brokeDown fetched = false) :
    (s.turn t).flights[f]? = some (.settled (.error (overtakenBy fetched))) := by
  have underWay : s.flights[f]? = some .underWay := (overtaken.led orderly ⟨_, _, _, leads⟩).2.1
  have here : f < (s.resumed progress).flights.size :=
    (Array.getElem?_eq_some_iff.mp underWay).1
  obtain ⟨events, part⟩ := FetchPart.resume s.plan progress s.world
  obtain ⟨surroundings, world⟩ := part.world
  have resumed : (s.resumed progress).world = _ := world
  have closed : (s.resumed progress).world.config.closed = true := by
    rw [resumed]
    exact overtaken.closed
  have turns : s.turn t = (s.resumed progress).lead t purpose f (.over fetched) := by
    rw [turn, if_neg (Bool.eq_false_iff.mp awake), leads, ← ends]
    exact if_pos due
  rw [turns]
  exact flights_lead_of_failure here sound (World.failure?_of_closed closed fetched) t purpose

end Overtaken

/-- The task is a call that leads or follows a refresh. -/
def CallsFor (s : Session σ) (t f : Nat) : Prop :=
  (∃ deadline progress, s.task? t = some (.leading .once f deadline progress)) ∨
    s.task? t = some (.following .once f)

/-- The task waits for a refresh, its own or one that it follows. -/
def WaitsFor (s : Session σ) (t f : Nat) : Prop :=
  s.LedBy t f ∨ s.task? t = some (.following .once f)

/-- What becomes of a refresh that was under way when the configuration was closed, and of those
who have called for it. -/
structure ClosedMidway (before closing s : Session σ) (f : Nat) : Prop where
  overtaken : Overtaken before f s
  -- Whoever has called for the refresh waits for it, was broken off, or is told that it failed.
  calls : ∀ u, closing.CallsFor u f → s.WaitsFor u f ∨
    (∃ outcome, s.outcome? u = some outcome ∧
      (outcome = .cancelled ∨ outcome = .panicked ∨ outcome = .exhausted)) ∨
    ∃ e, s.outcome? u = some (.replied (refreshReply (.error e))) ∧
      (s.flights[f]? = some (.settled (.error e)) ∨
        s.flights[f]? = some .abandoned ∧ e = .refreshAborted)
  -- The fetch decides why it fails.
  decides : ∀ u purpose deadline progress fetched,
    s.task? u = some (.leading purpose f deadline progress) → s.doomed.contains u = false →
    deadline.all (· ≤ s.world.now) = true →
    ((progress.resume s.plan).run s.world).1 = .over fetched → brokeDown fetched = false →
    (s.turn u).flights[f]? = some (.settled (.error (overtakenBy fetched)))

/-- A refresh is overtaken when the configuration is closed while its fetch still waits. Nothing is
dispatched any more: the tree and what is remembered of earlier refreshes stay as they were. All
calls for the refresh fail alike, with what its fetch decides: if that gives a tree they are told
that the configuration is closed, and nothing is remembered of it; if the fetch fails they are told
so, and its error is remembered. -/
theorem overtaken_refresh (plan : Plan σ) (fuel : Nat) (surroundings : σ)
    (earlier later : List (Move σ)) {m : Move σ} {s : Session σ}
    (reached : (fresh plan fuel surroundings).after earlier = s) {t f : Nat} {purpose : Purpose}
    {deadline : Option Nat} {progress : Progress}
    (leads : (s.step m).task? t = some (.leading purpose f deadline progress))
    (closed : (s.step m).world.config.closed = true) :
    ClosedMidway s (s.step m) ((s.step m).after later) f := by
  have orderly : Orderly s := by
    rw [← reached]
    exact (Orderly.fresh plan fuel surroundings).after earlier
  have orderly' : Orderly (s.step m) := orderly.after [m]
  have overtaken := (Overtaken.begin orderly leads closed).after orderly' later
  -- what has settled is an error
  have failed {result : Except ConfigError Tree}
      (settled : ((s.step m).after later).flights[f]? = some (.settled result)) :
      ∃ e, result = .error e := by
    rcases overtaken.outcome with ⟨_, there | there⟩ | ⟨e, there, _⟩
    all_goals rw [there] at settled
    · cases settled
    · cases settled
    · cases settled
      exact ⟨e, rfl⟩
  exact {
    overtaken := overtaken
    calls := fun u calls => by
      rcases calls with ⟨deadline', progress', leads'⟩ | follows
      · rcases leads_after orderly' leads' later with
          still | ⟨result, done, settled⟩ | ⟨outcome, done, how, _⟩
        · exact .inl (.inl still)
        · obtain ⟨e, rfl⟩ := failed settled
          exact .inr (.inr ⟨e, done, .inl settled⟩)
        · exact .inr (.inl ⟨outcome, done, how⟩)
      · rcases follows_after orderly' follows later with
          still | dropped | ⟨result, done, settled⟩ | ⟨done, abandoned⟩
        · exact .inl (.inr still)
        · exact .inr (.inl ⟨_, dropped, .inl rfl⟩)
        · obtain ⟨e, rfl⟩ := failed settled
          exact .inr (.inr ⟨e, done, .inl settled⟩)
        · exact .inr (.inr ⟨_, done, .inr ⟨abandoned, rfl⟩⟩)
    decides := fun u purpose' deadline' progress' fetched leads' awake due ends sound =>
      overtaken.turn_of_over (orderly'.after later) leads' awake due ends sound }

/-- A source that fails after a while. -/
def failingSource : Source Unit where
  name := "failing"
  allowErrors _ := false
  ask _ u := (.after 5, u)
  answer _ u := (.error (.invalidSettings "boom"), u)
  close u := (.ok (), u)

/-- A configuration of one source. -/
def planOf (source : Source Unit) : Plan Unit where
  query := ⟨"app", [], none, none⟩
  sources := [source]

/-- Two calls for a refresh, of which the second one follows the first. -/
def twoCalls : List (Move Unit) :=
  [.spawn 0 .refresh, .spawn 0 .refresh, .turn 0, .turn 1]

/-- The sources answer, and both calls are told. -/
def answered : List (Move Unit) := [.passTo 5, .turn 0, .turn 1]

def closing : Move Unit := .perform (.shut (.done .nothing))

theorem overtaken_refresh_slowSource :
    let s := (fresh (planOf slowSource) 20 ()).after twoCalls
    let s' := (s.step closing).after answered
    ClosedMidway s (s.step closing) s' 0 ∧
      s'.outcome? 0 = some (.replied (refreshReply (.error (.closed "reloadable config")))) ∧
      s'.outcome? 1 = some (.replied (refreshReply (.error (.closed "reloadable config")))) := by
  intro s s'
  have leads : (s.step closing).task? 0 =
      some (.leading .once 0 (some 5) (.source 0 .empty)) := rfl
  have closed : (s.step closing).world.config.closed = true := rfl
  exact ⟨overtaken_refresh (planOf slowSource) 20 () twoCalls answered rfl leads closed, rfl, rfl⟩

/-- A refresh that is overtaken does not always end with the news that the configuration is closed.
A source that fails afterwards is what both calls are told of, and its error is remembered. -/
theorem overtaken_by_error :
    let s := (fresh (planOf failingSource) 20 ()).after twoCalls
    let s' := (s.step closing).after answered
    let e : ConfigError := .sourceFetch "failing" (planOf failingSource).query.describe
      (.error (.invalidSettings "boom"))
    (s.step closing).world.config.closed = true ∧ (s.step closing).LedBy 0 0 ∧
      (s.step closing).task? 1 = some (.following .once 0) ∧
      s'.outcome? 0 = some (.replied (refreshReply (.error e))) ∧
      s'.outcome? 1 = some (.replied (refreshReply (.error e))) ∧
      (s.step closing).world.config.lastError = none ∧ s'.world.config.lastError = some e ∧
      e ≠ .closed "reloadable config" :=
  ⟨rfl, ⟨.once, some 5, .source 0 .empty, rfl⟩, rfl, rfl, rfl, rfl, rfl, nofun⟩

end Session

end LayeredConfig.Live
