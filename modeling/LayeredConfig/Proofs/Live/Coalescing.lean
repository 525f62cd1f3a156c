import LayeredConfig.Proofs.Live.Deeds
/-!
# One refresh at a time

Refreshes that come while another one is under way share its outcome. What a move does to those who
lead and follow is put together to what a whole run does; `refreshes_coalesce` states it for every
run of a configuration.
-/
namespace LayeredConfig.Live.Session

variable {σ : Type} {s s' : Session σ} {t f g : Nat}

/-! ### What a move does to those who lead and follow -/

theorem Led.tasks {base : Session σ} {purpose : Purpose} {fetched : Fetched}
    (led : Led base t purpose f fetched s') :
    ∃ new task, s'.tasks = (base.tasks ++ new).set t task ∧ (∀ task ∈ new, task.flight? = none) ∧
      ∀ purpose' g, task ≠ .following purpose' g := by
  cases led with
  | waits pace progress flights world tasks =>
    exact ⟨[], _, by rw [tasks, List.append_nil], List.forall_mem_nil _, by rintro _ _ ⟨⟩⟩
  | lands fetched flight flights cleared asks tasks plain lands kept failed =>
    refine ⟨_, _, tasks, plain, fun purpose' g same => ?_⟩
    have := lands.flight?
    rw [same] at this
    cases this

/-- A move concerns one task, which was free or led a refresh, and perhaps some new ones. If the
task follows a refresh from now on nothing else happens. -/
structure Concerns (s s' : Session σ) (t : Nat) (old task : Task σ) (new : List (Task σ)) :
    Prop where
  found : s.task? t = some old
  notFollowing : ∀ purpose f, old ≠ .following purpose f
  notOver : ∀ outcome, old ≠ .over outcome
  tasks : s'.tasks = (s.tasks ++ new).set t task
  plain : ∀ task ∈ new, task.flight? = none
  joins : ∀ purpose f, task = .following purpose f → s.world.config.inFlight = some f ∧
    s'.flights = s.flights ∧ s'.world = s.world

/-- A move that has to do with a refresh concerns one task. -/
theorem Moved.concerns (moved : Moved s s') :
    Aside s s' ∨ ∃ t old task new, Concerns s s' t old task new := by
  have notFollowing {old : Task σ} (free : old.free = true) (purpose : Purpose) (f : Nat) :
      old ≠ .following purpose f := by
    rintro rfl
    cases free
  have notOver {old : Task σ} (free : old.free = true) (outcome : Outcome) :
      old ≠ .over outcome := by
    rintro rfl
    cases free
  cases moved with
  | aside aside => exact .inl aside
  | joined t purpose f found free opened flying =>
    refine .inr ⟨t, _, .following purpose f, [], found, notFollowing free, notOver free, ?_,
      List.forall_mem_nil _, ?_⟩
    · rw [List.append_nil]
      rfl
    · rintro _ _ ⟨⟩
      exact ⟨flying, rfl, rfl⟩
  | began t purpose found free opened idle =>
    obtain ⟨new, task, tasks, plain, other⟩ := (lead_led _ t purpose s.flights.size _).tasks
    exact .inr ⟨t, _, task, new, found, notFollowing free, notOver free, tasks, plain,
      fun purpose' g same => (other purpose' g same).elim⟩
  | wentOn t purpose f deadline progress found =>
    obtain ⟨new, task, tasks, plain, other⟩ := (lead_led _ t purpose f _).tasks
    exact .inr ⟨t, _, task, new, found, nofun, nofun, tasks, plain,
      fun purpose' g same => (other purpose' g same).elim⟩
  | dropped t purpose f deadline progress doomed found =>
    refine .inr ⟨t, _, .over .cancelled, [], found, nofun, nofun, ?_, List.forall_mem_nil _, nofun⟩
    rw [List.append_nil]
    rfl

/-- A task that is neither free nor leads a refresh is left alone by moves that have to do with
one. -/
theorem task?_of_other {new : List (Task σ)} {old task task' : Task σ}
    (found : s.task? t = some old) (tasks : s'.tasks = (s.tasks ++ new).set t task) {u : Nat}
    (other : u ≠ t) (before : s.task? u = some task') : s'.task? u = some task' := by
  rw [task?_of_set found tasks, if_neg other, before]
  rfl

/-- What is over stays over. -/
theorem over_step {outcome : Outcome} (done : s.task? t = some (.over outcome)) (m : Move σ) :
    (s.step m).task? t = some (.over outcome) := by
  rcases (moved s m).concerns with aside | ⟨u, old, task, new, concerns⟩
  · have shift := aside.tasks t
    rw [done] at shift
    generalize (s.step m).task? t = after at shift
    cases shift with
    | same => rfl
    | aside free plain => cases free _ rfl
  · have other : t ≠ u := by
      rintro rfl
      have same := concerns.found
      rw [done] at same
      cases same
      exact concerns.notOver outcome rfl
    exact task?_of_other concerns.found concerns.tasks other done

theorem over_after {outcome : Outcome} (done : s.task? t = some (.over outcome))
    (moves : List (Move σ)) : (s.after moves).task? t = some (.over outcome) := by
  induction moves generalizing s with
  | nil => exact done
  | cons m rest ih => exact ih (over_step done m)

/-- Whoever follows a refresh follows it still, was dropped, or is through with what it was told. -/
theorem follows_step {purpose : Purpose} (follows : s.task? t = some (.following purpose f))
    (m : Move σ) : (s.step m).task? t = some (.following purpose f) ∨
      (s.step m).task? t = some (.over .cancelled) ∨
      ∃ result task, (s.step m).task? t = some task ∧ Ended purpose result task ∧
        Flight.Tells s.flights[f]? result := by
  rcases (moved s m).concerns with aside | ⟨u, old, task, new, concerns⟩
  · have shift := aside.tasks t
    rw [follows] at shift
    generalize (s.step m).task? t = after at shift
    cases shift with
    | same => exact .inl rfl
    | aside free plain => cases free _ rfl
    | cancelled => exact .inr (.inl rfl)
    | told tells ended => exact .inr (.inr ⟨_, _, rfl, ended, tells⟩)
  · have other : t ≠ u := by
      rintro rfl
      have same := concerns.found
      rw [follows] at same
      cases same
      exact concerns.notFollowing purpose f rfl
    exact .inl (task?_of_other concerns.found concerns.tasks other follows)

/-- Whoever begins to follow a refresh does so while that is under way, and nothing else happens. -/
theorem joins_step (orderly : Orderly s) (m : Move σ) {purpose : Purpose}
    (follows : (s.step m).task? t = some (.following purpose f)) :
    s.task? t = some (.following purpose f) ∨ (s.flights[f]? = some .underWay ∧
      (s.step m).flights = s.flights ∧ (s.step m).world = s.world) := by
  rcases (moved s m).concerns with aside | ⟨u, old, task, new, concerns⟩
  · exact .inl (aside.following follows)
  · rcases following_of_set concerns.found concerns.tasks concerns.plain follows with
      ⟨_, same⟩ | before
    · obtain ⟨flying, flights, world⟩ := concerns.joins purpose f same
      exact .inr ⟨(orderly.underWay f).mp flying, flights, world⟩
    · exact .inl before.2

/-- Whoever leads a refresh leads it still, or it has ended for everybody. -/
theorem leads_step (orderly : Orderly s) {purpose : Purpose} {deadline : Option Nat}
    {progress : Progress} (leads : s.task? t = some (.leading purpose f deadline progress))
    (m : Move σ) :
    (∃ deadline progress, (s.step m).task? t = some (.leading purpose f deadline progress)) ∨
      ∃ flight task, (s.step m).flights[f]? = some flight ∧ (s.step m).task? t = some task ∧
        Lands purpose flight task ∧ (s.step m).world.config.inFlight = none := by
  have flying : s.world.config.inFlight = some f := orderly.leads t f ⟨_, _, _, leads⟩
  have here : f < s.flights.size :=
    (Array.getElem?_eq_some_iff.mp ((orderly.underWay f).mp flying)).1
  -- a move that goes on with a refresh goes on with this one
  have only {u g : Nat} {purpose' : Purpose} {deadline' : Option Nat} {progress' : Progress}
      (leads' : s.task? u = some (.leading purpose' g deadline' progress')) :
      u = t ∧ purpose' = purpose ∧ g = f := by
    have same := orderly.single u t g f ⟨_, _, _, leads'⟩ ⟨_, _, _, leads⟩
    subst same
    rw [leads] at leads'
    cases leads'
    exact ⟨rfl, rfl, rfl⟩
  have led {base after : Session σ} {fetched : Fetched} (led : Led base t purpose f fetched after)
      (sameTasks : base.tasks = s.tasks) (sameFlights : base.flights = s.flights) :
      (∃ deadline progress, after.task? t = some (.leading purpose f deadline progress)) ∨
        ∃ flight task, after.flights[f]? = some flight ∧ after.task? t = some task ∧
          Lands purpose flight task ∧ after.world.config.inFlight = none := by
    cases led with
    | @waits pace progress' _ deadline' flights world tasks =>
      rw [sameTasks] at tasks
      exact .inl ⟨deadline', progress', by rw [task?_of_replace leads tasks, if_pos rfl]⟩
    | lands fetched flight flights cleared asks tasks plain lands kept failed =>
      rw [sameTasks] at tasks
      rw [sameFlights] at flights
      refine .inr ⟨flight, _, ?_, by rw [task?_of_set leads tasks, if_pos rfl], lands, cleared⟩
      rw [flights]
      exact Array.getElem?_setIfInBounds_self_of_lt here
  generalize s.step m = after, moved s m = moved
  cases moved with
  | aside aside =>
    have shift := aside.tasks t
    rw [leads] at shift
    generalize after.task? t = task at shift
    cases shift with
    | same => exact .inl ⟨deadline, progress, rfl⟩
    | aside free plain => cases free _ rfl
  | joined u purpose' g found free opened flying' =>
    have other : t ≠ u := by
      rintro rfl
      rw [leads] at found
      cases found
      cases free
    refine .inl ⟨deadline, progress, ?_⟩
    rw [task?_of_replace found rfl, if_neg other, leads]
  | began u purpose' found free opened idle =>
    rw [flying] at idle
    cases idle
  | wentOn u purpose' g deadline' progress' found =>
    obtain ⟨rfl, rfl, rfl⟩ := only found
    exact led (lead_led _ u purpose' g _) rfl rfl
  | dropped u purpose' g deadline' progress' doomed found =>
    obtain ⟨rfl, rfl, rfl⟩ := only found
    refine .inr ⟨.abandoned, .over .cancelled, Array.getElem?_setIfInBounds_self_of_lt here, ?_,
      ⟨.cancelled, rfl, .inl rfl⟩, rfl⟩
    rw [task?_of_replace found rfl, if_pos rfl]

/-! ### Runs -/

/-- A refresh that has ended has the same outcome for ever. -/
theorem Deed.flights_of_ended (deed : Deed s s') (orderly : Orderly s) {flight : Flight}
    (there : s.flights[f]? = some flight) (ended : flight ≠ .underWay) :
    s'.flights[f]? = some flight := by
  cases deed with
  | aside aside => rwa [aside.flights]
  | joined _ _ _ flights => rwa [flights]
  | advanced _ flights => rwa [flights]
  | tookOff _ _ _ flights =>
    have earlier : f ≠ s.flights.size :=
      Nat.ne_of_lt (Array.getElem?_eq_some_iff.mp there).1
    rwa [flights, Array.getElem?_push, if_neg earlier]
  | @landed t purpose g deadline progress flight' new task found flights =>
    -- what lands was under way, so it is another refresh
    have other : g ≠ f := by
      rintro rfl
      have flying := orderly.leads t g ⟨_, _, _, found⟩
      rw [(orderly.underWay g).mp flying] at there
      cases there
      exact ended rfl
    rwa [flights, Array.getElem?_setIfInBounds_ne other]

theorem flights_of_ended (orderly : Orderly s) {flight : Flight}
    (there : s.flights[f]? = some flight) (ended : flight ≠ .underWay) (moves : List (Move σ)) :
    (s.after moves).flights[f]? = some flight :=
  (kept_by_deeds (P := fun s => Orderly s ∧ s.flights[f]? = some flight)
    (fun _ _ kept deed => ⟨kept.1.deed deed, deed.flights_of_ended kept.1 kept.2 ended⟩)
    ⟨orderly, there⟩ moves).2

/-- What is told of a refresh is told of one that has ended. -/
theorem ended_of_tells {result : Except ConfigError Tree} (here : f < s.flights.size)
    (tells : Flight.Tells s.flights[f]? result) :
    s.flights[f]? = some (.settled result) ∨
      (s.flights[f]? = some .abandoned ∧ result = .error .refreshAborted) := by
  rw [Array.getElem?_eq_getElem here] at tells ⊢
  generalize s.flights[f] = flight at tells
  cases flight with
  | underWay => exact tells.elim
  | settled result' =>
    cases (show result = result' from tells)
    exact .inl rfl
  | abandoned => exact .inr ⟨rfl, tells⟩

/-- A call that follows a refresh returns what that ended with, unless it is dropped. -/
theorem follows_after (orderly : Orderly s) (follows : s.task? t = some (.following .once f))
    (moves : List (Move σ)) :
    (s.after moves).task? t = some (.following .once f) ∨
      (s.after moves).outcome? t = some .cancelled ∨
      (∃ result, (s.after moves).outcome? t = some (.replied (refreshReply result)) ∧
        (s.after moves).flights[f]? = some (.settled result)) ∨
      ((s.after moves).outcome? t = some (.replied (refreshReply (.error .refreshAborted))) ∧
        (s.after moves).flights[f]? = some .abandoned) := by
  have ended {s' : Session σ} {outcome : Outcome} (done : s'.task? t = some (.over outcome)) :
      s'.outcome? t = some outcome := by rw [outcome?, done]
  -- by induction on the moves: the first one with which the call no longer follows decides
  induction moves generalizing s with
  | nil => exact .inl follows
  | cons m rest ih =>
    have orderly' : Orderly (s.step m) := orderly.after [m]
    rcases follows_step follows m with still | dropped | ⟨result, task, now, through, tells⟩
    · exact ih orderly' still
    · exact .inr (.inl (ended (over_after dropped rest)))
    · rw [show task = _ from through] at now
      have done := ended (over_after now rest)
      rcases ended_of_tells (orderly.joined t .once f follows) tells with settled | ⟨gone, rfl⟩
      · have stays := flights_of_ended orderly settled nofun (m :: rest)
        exact .inr (.inr (.inl ⟨result, done, stays⟩))
      · have stays := flights_of_ended orderly gone nofun (m :: rest)
        exact .inr (.inr (.inr ⟨done, stays⟩))

/-- A call that leads a refresh returns what the refresh ended with, or ends together with it. -/
theorem leads_after (orderly : Orderly s) {deadline : Option Nat} {progress : Progress}
    (leads : s.task? t = some (.leading .once f deadline progress)) (moves : List (Move σ)) :
    (s.after moves).LedBy t f ∨
      (∃ result, (s.after moves).outcome? t = some (.replied (refreshReply result)) ∧
        (s.after moves).flights[f]? = some (.settled result)) ∨
      (∃ outcome, (s.after moves).outcome? t = some outcome ∧
        (outcome = .cancelled ∨ outcome = .panicked ∨ outcome = .exhausted) ∧
        (s.after moves).flights[f]? = some .abandoned) := by
  induction moves generalizing s deadline progress with
  | nil => exact .inl ⟨_, _, _, leads⟩
  | cons m rest ih =>
    have orderly' : Orderly (s.step m) := orderly.after [m]
    rcases leads_step orderly leads m with ⟨_, _, still⟩ | ⟨flight, task, there, now, lands, _⟩
    · exact ih orderly' still
    · have ended {outcome : Outcome} (done : task = .over outcome) :
          ((s.step m).after rest).outcome? t = some outcome := by
        rw [done] at now
        rw [outcome?, over_after now rest]
      cases flight with
      | underWay => exact lands.elim
      | settled result =>
        have stays := flights_of_ended orderly' there nofun rest
        exact .inr (.inl ⟨result, ended lands, stays⟩)
      | abandoned =>
        obtain ⟨outcome, done, how⟩ := lands
        have stays := flights_of_ended orderly' there nofun rest
        exact .inr (.inr ⟨outcome, ended done, how, stays⟩)

/-! ### What a refresh asks -/

/-- Since a moment at which no refresh was under way at most one has begun, and it has asked no
source twice; the one that it waits for it has asked last. -/
structure AskedOnce (before : List Nat) (begun : Nat) (s : Session σ) : Prop where
  orderly : Orderly s
  since : begun ≤ s.flights.size
  none : s.flights.size = begun → s.world.config.inFlight = none ∧ asks s.world.history = before
  one : s.flights.size = begun + 1 → ∃ asked, asks s.world.history = asked ++ before ∧
    asked.Nodup ∧ ∀ t purpose f deadline progress,
      s.task? t = some (.leading purpose f deadline progress) →
        ∀ j, progress.source? = some j → ∀ i ∈ asked, i ≤ j

theorem AskedOnce.deed {before : List Nat} {begun : Nat} (once : AskedOnce before begun s)
    (deed : Deed s s') : AskedOnce before begun s' := by
  have orderly' := once.orderly.deed deed
  cases deed with
  | aside aside =>
    refine ⟨orderly', by rw [aside.flights]; exact once.since, fun size => ?_, fun size => ?_⟩
    · rw [aside.apart.inFlight, aside.apart.asks]
      exact once.none (by rwa [aside.flights] at size)
    · obtain ⟨asked, all, nodup, upTo⟩ := once.one (by rwa [aside.flights] at size)
      refine ⟨asked, aside.apart.asks.trans all, nodup,
        fun t purpose f deadline progress leads => ?_⟩
      have shift := aside.tasks t
      rw [leads] at shift
      generalize found : s.task? t = old at shift
      cases shift with
      | same => exact upTo t purpose f deadline progress found
      | aside free plain => cases plain _ rfl
      | told tells ended => cases ended.flight?
  | @joined t purpose f old found free flying flights world tasks =>
    refine ⟨orderly', by rw [flights]; exact once.since, fun size => ?_, fun size => ?_⟩
    · rw [world]
      exact once.none (by rwa [flights] at size)
    · obtain ⟨asked, all, nodup, upTo⟩ := once.one (by rwa [flights] at size)
      refine ⟨asked, by rw [world, all], nodup, fun u purpose' g deadline progress leads => ?_⟩
      rw [task?_of_replace found tasks] at leads
      split at leads
      · cases leads
      · exact upTo u purpose' g deadline progress leads
  | @tookOff t purpose old deadline progress asked found free idle flights flying all nodup upTo
      tasks =>
    have size : s'.flights.size = s.flights.size + 1 := by rw [flights, Array.size_push]
    have since := once.since
    refine ⟨orderly', by omega, fun same => by omega, fun same => ?_⟩
    have all' : asks s.world.history = before := (once.none (by omega)).2
    refine ⟨asked, by rw [all, all'], nodup, fun u purpose' g deadline' progress' leads => ?_⟩
    rw [task?_of_replace found tasks] at leads
    split at leads
    · cases leads
      exact upTo
    · -- nobody led a refresh before, since none was under way
      have flying' := once.orderly.leads u g ⟨_, _, _, leads⟩
      rw [idle] at flying'
      cases flying'
  | @advanced t purpose f deadline deadline' progress progress' asked found flights flying all nodup
      allowed upTo tasks =>
    have leading : s.world.config.inFlight = some f := once.orderly.leads t f ⟨_, _, _, found⟩
    refine ⟨orderly', by rw [flights]; exact once.since, fun size => ?_, fun size => ?_⟩
    · have idle := (once.none (by rwa [flights] at size)).1
      rw [leading] at idle
      cases idle
    · obtain ⟨asked', all', nodup', upTo'⟩ := once.one (by rwa [flights] at size)
      have earlier : ∀ j, progress.source? = some j → ∀ i ∈ asked', i ≤ j :=
        upTo' t purpose f deadline progress found
      refine ⟨asked ++ asked', by rw [all, all', List.append_assoc], ?_,
        fun u purpose' g deadline'' progress'' leads => ?_⟩
      · -- what is asked now comes after the source that was waited for, and what was asked
        -- before does not
        refine List.nodup_append.mpr ⟨nodup, nodup', fun i new i' old => ?_⟩
        obtain ⟨j, waited, later⟩ := allowed i new
        exact Nat.ne_of_gt (Nat.lt_of_le_of_lt (earlier j waited i' old) later)
      · rw [task?_of_replace found tasks] at leads
        split at leads
        · cases leads
          intro j waits i member
          obtain ⟨⟨j', waited, later⟩, upTo⟩ := upTo j waits
          rcases List.mem_append.mp member with new | old
          · exact upTo i new
          · exact Nat.le_of_lt (Nat.lt_of_le_of_lt (earlier j' waited i old) later)
        next other =>
          exact absurd (once.orderly.single u t g f ⟨_, _, _, leads⟩ ⟨_, _, _, found⟩) other
  | @landed t purpose f deadline progress flight new task found flights cleared all tasks plain
      lands =>
    have leading : s.world.config.inFlight = some f := once.orderly.leads t f ⟨_, _, _, found⟩
    have same : s'.flights.size = s.flights.size := by rw [flights, Array.size_setIfInBounds]
    refine ⟨orderly', by rw [same]; exact once.since, fun size => ?_, fun size => ?_⟩
    · have idle := (once.none (same ▸ size)).1
      rw [leading] at idle
      cases idle
    · obtain ⟨asked, all', nodup, _⟩ := once.one (same ▸ size)
      refine ⟨asked, all.trans all', nodup, fun u purpose' g deadline' progress' leads => ?_⟩
      -- nobody leads a refresh once it has landed
      have flying := orderly'.leads u g ⟨_, _, _, leads⟩
      rw [cleared] at flying
      cases flying

/-- From one moment at which no refresh is under way on, as long as at most one refresh has begun
since, no source is asked twice. -/
theorem asks_after (orderly : Orderly s) (idle : s.world.config.inFlight = none)
    (moves : List (Move σ)) (most : (s.after moves).flights.size ≤ s.flights.size + 1) :
    ∃ asked, asks (s.after moves).world.history = asked ++ asks s.world.history ∧ asked.Nodup := by
  have start : AskedOnce (asks s.world.history) s.flights.size s :=
    ⟨orderly, Nat.le_refl _, fun _ => ⟨idle, rfl⟩, fun wrong => absurd wrong (by omega)⟩
  have once := kept_by_deeds (fun _ _ once deed => once.deed deed) start moves
  rcases Nat.lt_or_ge s.flights.size (s.after moves).flights.size with more | same
  · obtain ⟨asked, all, nodup, _⟩ := once.one (by omega)
    exact ⟨asked, all, nodup⟩
  · have since := once.since
    exact ⟨[], (once.none (by omega)).2, .nil⟩

/-- A refresh that begins on an open configuration while none is under way leads a fetch of its own,
which asks the first source. -/
theorem beginRefresh_of_idle (t : Nat) (purpose : Purpose)
    (opened : s.world.config.closed = false) (idle : s.world.config.inFlight = none) :
    (s.beginRefresh t purpose).flights.size = s.flights.size + 1 ∧
      ∃ asked, asks (s.beginRefresh t purpose).world.history = asked ++ asks s.world.history ∧
        (s.plan.sources ≠ [] → 0 ∈ asked) := by
  obtain ⟨events, part, first⟩ := FetchPart.fetch s.plan s.marked
  obtain ⟨surroundings, world⟩ := part.world
  have begins : s.beginRefresh t purpose =
      s.begun.lead t purpose s.flights.size ((fetch s.plan).run s.marked).1 := by
    rw [beginRefresh, if_neg (by simp [opened]), idle]
    rfl
  have led := lead_led s.begun t purpose s.flights.size ((fetch s.plan).run s.marked).1
  rw [← begins] at led
  have asked : asks s.begun.world.history = asks events ++ asks s.world.history := by
    rw [show s.begun.world = _ from world]
    exact asks_append events _
  have one : s.begun.flights.size = s.flights.size + 1 := Array.size_push _
  generalize s.beginRefresh t purpose = after at led
  generalize ((fetch s.plan).run s.marked).1 = fetched at led
  cases led with
  | waits pace progress flights world' tasks =>
    refine ⟨by rw [flights, one], asks events, ?_, first⟩
    rw [world']
    exact asked
  | lands fetched flight flights cleared all tasks plain lands kept failed =>
    refine ⟨by rw [flights, Array.size_setIfInBounds, one], asks events, ?_, first⟩
    exact all.trans asked

/-! ### Coalescing -/

/-- Refresh coalescing is safe at a moment, and from that moment on. -/
structure Coalesces (s : Session σ) : Prop where
  -- At most one fetch runs, and the marker says which one.
  alone : ∀ t u f g, s.LedBy t f → s.LedBy u g → t = u
  marked : ∀ f : Nat, s.world.config.inFlight = some f ↔ ∃ t, s.LedBy t f
  underWay : ∀ f : Nat, s.flights[f]? = some Flight.underWay ↔ ∃ t, s.LedBy t f
  -- A call that comes meanwhile follows the refresh, and nothing else happens.
  joins : ∀ t purpose f, s.world.config.closed = false → s.world.config.inFlight = some f →
    s.beginRefresh t purpose = s.setTask t (.following purpose f)
  -- A call that comes when none is under way leads a fetch of its own.
  begins : ∀ t purpose, s.world.config.closed = false → s.world.config.inFlight = none →
    (s.beginRefresh t purpose).flights.size = s.flights.size + 1 ∧
      ∃ asked, asks (s.beginRefresh t purpose).world.history = asked ++ asks s.world.history ∧
        (s.plan.sources ≠ [] → 0 ∈ asked)
  -- Nobody joins a refresh that has ended.
  joined : ∀ m t purpose f, (s.step m).task? t = some (.following purpose f) →
    s.task? t = some (.following purpose f) ∨ (s.flights[f]? = some Flight.underWay ∧
      (s.step m).flights = s.flights ∧ (s.step m).world = s.world)
  -- The outcome of a refresh is the same for everybody, at all times.
  ended : ∀ (f : Nat) flight, s.flights[f]? = some flight → flight ≠ Flight.underWay →
    ∀ later, (s.after later).flights[f]? = some flight
  -- Whoever follows is told the outcome at the first turn after it.
  told : ∀ t purpose f, s.task? t = some (.following purpose f) → s.doomed.contains t = false →
    (s.flights[f]? = some Flight.underWay ∧ s.turn t = s) ∨
      (∃ result, s.flights[f]? = some (.settled result) ∧
        s.turn t = s.endRefresh t purpose result) ∨
      (s.flights[f]? = some Flight.abandoned ∧
        s.turn t = s.endRefresh t purpose (.error .refreshAborted))
  -- A call that follows returns what the refresh ended with and nothing else, unless it is
  -- dropped.
  follows : ∀ t f, s.task? t = some (.following .once f) → ∀ later,
    (s.after later).task? t = some (.following .once f) ∨
      (s.after later).outcome? t = some .cancelled ∨
      (∃ result, (s.after later).outcome? t = some (.replied (refreshReply result)) ∧
        (s.after later).flights[f]? = some (.settled result)) ∨
      ((s.after later).outcome? t = some (.replied (refreshReply (.error .refreshAborted))) ∧
        (s.after later).flights[f]? = some Flight.abandoned)
  -- A call that leads returns what the refresh ended with; the refresh is abandoned only if the
  -- call is broken off.
  leads : ∀ t f deadline progress, s.task? t = some (.leading .once f deadline progress) → ∀ later,
    (s.after later).LedBy t f ∨
      (∃ result, (s.after later).outcome? t = some (.replied (refreshReply result)) ∧
        (s.after later).flights[f]? = some (.settled result)) ∨
      (∃ outcome, (s.after later).outcome? t = some outcome ∧
        (outcome = .cancelled ∨ outcome = .panicked ∨ outcome = .exhausted) ∧
        (s.after later).flights[f]? = some Flight.abandoned)
  -- However the one who leads a refresh ends, for whatever purpose, the marker is cleared.
  cleared : ∀ m t purpose f deadline progress,
    s.task? t = some (.leading purpose f deadline progress) → ¬(s.step m).LedBy t f →
    (s.step m).world.config.inFlight = none ∧ ∃ flight task, (s.step m).flights[f]? = some flight ∧
      (s.step m).task? t = some task ∧ Lands purpose flight task
  -- Dropping somebody who follows concerns nobody else.
  dropped : ∀ t purpose f, s.task? t = some (.following purpose f) →
    s.drop t = { s with
      doomed := s.doomed.filter (· != t)
      tasks := s.tasks.set t (.over .cancelled) }
  -- Each source is asked at most once in a refresh.
  once : s.world.config.inFlight = none → ∀ later,
    (s.after later).flights.size ≤ s.flights.size + 1 →
    ∃ asked, asks (s.after later).world.history = asked ++ asks s.world.history ∧ asked.Nodup

theorem Orderly.coalesces (orderly : Orderly s) : Coalesces s where
  alone := orderly.single
  marked f := by
    constructor
    · exact orderly.led f
    · rintro ⟨t, leads⟩
      exact orderly.leads t f leads
  underWay f := by
    rw [← orderly.underWay f]
    constructor
    · exact orderly.led f
    · rintro ⟨t, leads⟩
      exact orderly.leads t f leads
  joins t purpose f opened flying := by
    rw [beginRefresh, if_neg (by simp [opened]), flying]
  begins t purpose opened idle := beginRefresh_of_idle t purpose opened idle
  joined m t purpose f follows := joins_step orderly m follows
  ended f flight there ended later := flights_of_ended orderly there ended later
  told t purpose f follows awake := by
    have here : f < s.flights.size := orderly.joined t purpose f follows
    rw [turn_of_following follows awake]
    rw [Array.getElem?_eq_getElem here]
    cases s.flights[f] with
    | underWay => exact .inl ⟨rfl, rfl⟩
    | settled result => exact .inr (.inl ⟨result, rfl, rfl⟩)
    | abandoned => exact .inr (.inr ⟨rfl, rfl⟩)
  follows t f follows later := follows_after orderly follows later
  leads t f deadline progress leads later := leads_after orderly leads later
  cleared m t purpose f deadline progress leads ends := by
    rcases leads_step orderly leads m with ⟨_, _, still⟩ | ⟨flight, task, there, now, lands, idle⟩
    · exact (ends ⟨_, _, _, still⟩).elim
    · exact ⟨idle, flight, task, there, now, lands⟩
  dropped t purpose f follows := by
    -- the list of those to be dropped has no part in who follows
    have same : task? { s with doomed := s.doomed.filter (· != t) } t =
        some (.following purpose f) := follows
    rw [drop, same]
    rfl
  once idle later most := asks_after orderly idle later most

/-- In every run of a configuration, whoever refreshes it, drops refreshes or breaks off in
whatever order, refresh coalescing is safe at every moment. -/
theorem refreshes_coalesce (plan : Plan σ) (fuel : Nat) (surroundings : σ)
    (moves : List (Move σ)) : Coalesces ((Session.fresh plan fuel surroundings).after moves) :=
  ((Orderly.fresh plan fuel surroundings).after moves).coalesces

end LayeredConfig.Live.Session
