import LayeredConfig.Proofs.Live.Coalescing
/-!
# What fails leaves no trace

A refresh can fail at any source, at any transformer or at any of the derived cells, and it can be
cancelled while it waits. Whatever was done to the cells and to the configuration in the meantime
stays; the end of the refresh itself changes no cell, calls no listener and leaves the tree and the
list of derived cells alone. The same holds of a registration that is refused.
-/
namespace LayeredConfig.Live

variable {σ : Type}

/-- Between the two worlds a refresh failed. Every cell is the same, with its value and its
listeners; the error is remembered, and the refresh is under way no longer; all that happened is
that sources and transformers were asked. -/
structure World.Failed (w w' : World σ) (e : ConfigError) : Prop where
  cells : w'.cells = w.cells
  config : w'.config = w.config.failed e
  now : w'.now = w.now
  history : ∃ events, w'.history = events ++ w.history ∧ ∀ event ∈ events, event.ofFetch = true

theorem World.Failed.intro {w w' : World σ} {e : ConfigError} {events : List Event}
    (surroundings : σ) (ofFetch : ∀ event ∈ events, event.ofFetch = true)
    (world : w' = { w with
      config := w.config.failed e
      surroundings
      history := events ++ w.history
      loops := 0 }) : w.Failed w' e := by
  subst world
  exact ⟨rfl, rfl, rfl, events, rfl, ofFetch⟩

namespace Session

variable {s s' : Session σ} {t f g : Nat} {e : ConfigError}

/-! ### Refreshes that fail -/

/-- If a refresh fails when it is gone on with, it is this one, and the one who leads it learns
why. -/
theorem Led.failed {base : Session σ} {purpose : Purpose} {fetched : Fetched}
    (led : Led base t purpose f fetched s')
    (before : base.flights[g]? ≠ some (.settled (.error e)))
    (after : s'.flights[g]? = some (.settled (.error e))) :
    s'.world = { base.world with config := base.world.config.failed e, loops := 0 } ∧
      ∃ new task, s'.tasks = (base.tasks ++ new).set t task ∧ Ended purpose (.error e) task := by
  cases led with
  | waits pace progress flights world tasks =>
    rw [flights] at after
    exact absurd after before
  | @lands fetched flight _ new task flights cleared asks tasks plain lands kept failed =>
    rw [flights, Array.getElem?_setIfInBounds] at after
    split at after
    next same =>
      split at after
      · cases after
        exact ⟨failed e rfl, new, task, tasks, lands⟩
      · cases after
    next other => exact absurd after before

/-- A move with which a refresh fails does nothing else. -/
theorem failed_step {m : Move σ} (before : s.flights[f]? ≠ some (.settled (.error e)))
    (after : (s.step m).flights[f]? = some (.settled (.error e))) :
    s.world.Failed (s.step m).world e ∧
      ∃ t purpose task, (s.step m).task? t = some task ∧ Ended purpose (.error e) task := by
  generalize s.step m = s', moved s m = moved at after
  cases moved with
  | aside aside =>
    rw [aside.flights] at after
    exact absurd after before
  | joined t purpose g found free opened flying => exact absurd after before
  | began t purpose found free opened idle =>
    obtain ⟨events, part, _⟩ := FetchPart.fetch s.plan s.marked
    obtain ⟨surroundings, world⟩ := part.world
    have led := lead_led s.begun t purpose s.flights.size ((fetch s.plan).run s.marked).1
    -- the new refresh was under way, and the others are as they were
    have before' : (s.flights.push .underWay)[f]? ≠ some (.settled (.error e)) := by
      rw [Array.getElem?_push]
      split
      · rintro ⟨⟩
      · exact before
    obtain ⟨world', new, task, tasks, ended⟩ := led.failed before' after
    refine ⟨.intro surroundings part.ofFetch ?_, t, purpose, task, ?_, ended⟩
    · rw [world', show s.begun.world = _ from world]
      rfl
    · rw [task?_of_set found tasks, if_pos rfl]
  | wentOn t purpose g deadline progress found =>
    obtain ⟨events, part⟩ := FetchPart.resume s.plan progress s.world
    obtain ⟨surroundings, world⟩ := part.world
    have led := lead_led (s.resumed progress) t purpose g ((progress.resume s.plan).run s.world).1
    obtain ⟨world', new, task, tasks, ended⟩ := led.failed before after
    refine ⟨.intro surroundings part.ofFetch ?_, t, purpose, task, ?_, ended⟩
    · rw [world', show (s.resumed progress).world = _ from world]
    · rw [task?_of_set found tasks, if_pos rfl]
  | dropped t purpose g deadline progress doomed found =>
    -- a refresh that is dropped has no result
    have after' : (s.flights.setIfInBounds g .abandoned)[f]? = some (.settled (.error e)) := after
    rw [Array.getElem?_setIfInBounds] at after'
    split at after'
    · split at after' <;> cases after'
    · exact absurd after' before

/-- A refresh fails if its fetch does, if the configuration was closed meanwhile, or if one of the
derived cells has no value for the tree. -/
theorem flights_lead_of_failure {fetched : Except ConfigError Tree} (here : f < s.flights.size)
    (sound : brokeDown fetched = false) (fails : s.world.failure? fetched = some e)
    (t : Nat) (purpose : Purpose) :
    (s.lead t purpose f (.over fetched)).flights[f]? = some (.settled (.error e)) := by
  obtain ⟨task, ends, _⟩ := endRefresh_spec ((adoptLoops { s with
    world := s.world.modifyConfig (·.ended s.world.now (.error e)) }).land f
      (.settled (.error e))) t purpose (.error e)
  rw [lead, if_neg (Bool.eq_false_iff.mp sound), conclude_of_failure s.fuel fails]
  dsimp only
  rw [ends]
  exact Array.getElem?_setIfInBounds_self_of_lt here

/-! ### Refreshes that are cancelled -/

/-- A task that leads a refresh is only over after a move that concerns it. -/
theorem same_of_over {new : List (Task σ)} {old task : Task σ} {purpose : Purpose}
    {deadline : Option Nat} {progress : Progress} {outcome : Outcome} {u : Nat}
    (leads : s.task? t = some (.leading purpose f deadline progress))
    (found : s.task? u = some old) (tasks : s'.tasks = (s.tasks ++ new).set u task)
    (done : s'.task? t = some (.over outcome)) : t = u := by
  refine Decidable.byContradiction fun other => ?_
  rw [task?_of_other found tasks other leads] at done
  cases done

/-- Wherever a fetch is when it is cancelled, that it is under way no longer is all that changes. -/
theorem cancelled_step {purpose : Purpose} {deadline : Option Nat} {progress : Progress}
    {m : Move σ} (leads : s.task? t = some (.leading purpose f deadline progress))
    (done : (s.step m).task? t = some (.over .cancelled)) :
    (s.step m).world = s.world.modifyConfig ({ · with inFlight := none }) ∧
      (s.step m).flights = s.flights.setIfInBounds f .abandoned := by
  have notFree {u : Nat} {old : Task σ} (found : s.task? u = some old) (free : old.free = true)
      (same : t = u) : False := by
    subst same
    rw [leads] at found
    cases found
    cases free
  generalize s.step m = s', moved s m = moved at done
  cases moved with
  | aside aside =>
    have shift := aside.tasks t
    rw [leads, done] at shift
    cases shift with
    | aside free plain => cases free _ rfl
  | joined u purpose' g found free opened flying =>
    have tasks : (s.setTask u (.following purpose' g)).tasks =
        (s.tasks ++ []).set u (.following purpose' g) := by
      rw [List.append_nil]
      rfl
    exact (notFree found free (same_of_over leads found tasks done)).elim
  | began u purpose' found free opened idle =>
    obtain ⟨new, task, tasks, _⟩ :=
      (lead_led s.begun u purpose' s.flights.size ((fetch s.plan).run s.marked).1).tasks
    exact (notFree found free (same_of_over leads found tasks done)).elim
  | wentOn u purpose' g deadline' progress' found =>
    have led := lead_led (s.resumed progress') u purpose' g
      ((progress'.resume s.plan).run s.world).1
    obtain ⟨new, task, tasks, _⟩ := led.tasks
    -- a fetch that is gone on with may end in many ways, but it is not cancelled
    obtain rfl := same_of_over leads found tasks done
    revert led done
    generalize lead _ t purpose' g _ = after, ((progress'.resume s.plan).run s.world).1 = part
    intro done led
    cases led with
    | waits pace progress flights world tasks =>
      rw [task?_of_replace found tasks, if_pos rfl] at done
      cases done
    | lands fetched flight flights cleared asks tasks plain lands kept failed =>
      rw [task?_of_set found tasks, if_pos rfl] at done
      cases done
      exact (kept rfl).elim
  | dropped u purpose' g deadline' progress' doomed found =>
    have tasks : ((land { s with doomed } g .abandoned).setTask u (.over .cancelled)).tasks =
        (s.tasks ++ []).set u (.over .cancelled) := by
      rw [List.append_nil]
      rfl
    obtain rfl := same_of_over leads found tasks done
    rw [leads] at found
    cases found
    exact ⟨rfl, rfl⟩

/-! ### Those who have no fetch of their own -/

/-- Whoever follows a refresh does nothing to the world, whatever it hears. -/
theorem world_of_following {purpose : Purpose}
    (follows : s.task? t = some (.following purpose f)) : (s.turn t).world = s.world := by
  cases awake : s.doomed.contains t with
  | true =>
    have follows' : task? { s with doomed := s.doomed.filter (· != t) } t =
        some (.following purpose f) := follows
    rw [turn, if_pos awake, drop, follows']
    rfl
  | false =>
    have told (result : Except ConfigError Tree) :
        (s.endRefresh t purpose result).world = s.world := by
      obtain ⟨task, ends, _⟩ := endRefresh_spec s t purpose result
      rw [ends]
      rfl
    rw [turn_of_following follows awake]
    split
    · exact told _
    · rfl
    · exact told _
    · exact told _

/-! ### Failures -/

/-- What fails at a moment leaves no trace. -/
structure LeavesNoTrace (s : Session σ) : Prop where
  -- A refresh whose fetch is over fails with the first error there is, whether it comes from the
  -- fetch or from publishing what was fetched.
  fails : ∀ t purpose (f : Nat) fetched e, f < s.flights.size → brokeDown fetched = false →
    s.world.failure? fetched = some e →
    (s.lead t purpose f (.over fetched)).flights[f]? = some (Flight.settled (.error e))
  -- The move with which a refresh fails changes nothing but what says so.
  failed : ∀ m (f : Nat) e, s.flights[f]? ≠ some (Flight.settled (.error e)) →
    (s.step m).flights[f]? = some (Flight.settled (.error e)) → s.world.Failed (s.step m).world e ∧
      ∃ t purpose task, (s.step m).task? t = some task ∧ Ended purpose (.error e) task
  -- A refresh that is cancelled has no error, and sources are not asked any more.
  cancelled : ∀ m t purpose f deadline progress,
    s.task? t = some (.leading purpose f deadline progress) →
    (s.step m).task? t = some (.over .cancelled) →
    (s.step m).world = s.world.modifyConfig ({ · with inFlight := none }) ∧
      (s.step m).flights = s.flights.setIfInBounds f .abandoned
  -- Those who follow a refresh hear of its error, or are cancelled, and that is all.
  followed : ∀ t purpose f, s.task? t = some (.following purpose f) →
    (s.turn t).world = s.world
  -- A closed configuration refuses to be refreshed.
  refused : ∀ t purpose, s.world.config.closed = true →
    s.beginRefresh t purpose = s.endRefresh t purpose (.error (.closed "reloadable config")) ∧
      (s.beginRefresh t purpose).world = s.world
  -- A registration that fails, at whatever point of whatever script, changes nothing at all.
  unregistered : ∀ fuel extract e (w w' : World σ),
    (derive s.plan fuel extract).run.run w = (.ok (.error e), w') →
      w' = w ∧ w.deriveReply extract = .error e

/-- Whatever state a session is in, refreshes and registrations that fail leave no trace. -/
theorem failures_leave_no_trace (s : Session σ) : LeavesNoTrace s where
  fails t purpose _ _ _ here sound fails := flights_lead_of_failure here sound fails t purpose
  failed _ _ _ before after := failed_step before after
  cancelled _ _ _ _ _ _ leads done := cancelled_step leads done
  followed _ _ _ follows := world_of_following follows
  refused t purpose closed := by
    have refuses : s.beginRefresh t purpose =
        s.endRefresh t purpose (.error (.closed "reloadable config")) := by
      rw [beginRefresh, if_pos closed]
    obtain ⟨task, ends, _⟩ :=
      endRefresh_spec s t purpose (.error (.closed "reloadable config"))
    refine ⟨refuses, ?_⟩
    rw [refuses, ends]
    rfl
  unregistered _ _ e _ _ ran := by
    obtain ⟨answers, same⟩ := derive_spec ran
    exact ⟨same e rfl, answers.symm⟩

end Session

end LayeredConfig.Live
