import LayeredConfig.Proofs.Live.Deeds
/-!
# What a move does to the world

Most moves of a session leave the cells alone and do nothing to the configuration but for what is
remembered of refreshes (`Beside`). The others run one script, or they end a refresh that publishes
a tree, which is an agenda as well: every derived cell is to get its value, and then the mark of the
configuration is taken back. `Effect` lists what a move can do to the world, and `onward` says that
the list is complete.
-/
namespace LayeredConfig.Live

variable {σ : Type} {α : Type} {plan : Plan σ} {u v w : World σ}

/-! ### Publishing as an agenda -/

namespace World

/-- The world in which a tree has taken the place of the current one and is about to be published
to the derived cells. -/
def swap (w : World σ) (tree : Tree) : World σ :=
  ((w.modifyConfig ({ · with current := some tree })).log (.published tree)).modifyConfig
    ({ · with dispatching := true })

end World

/-- Updates of cells one after the other. -/
def putAll (updates : List (Nat × Option Value)) : List (Item σ) :=
  updates.map fun (c, value) => .put c value

/-- The work that publishes a tree once the values of the derived cells are known. -/
def dispatch (plan : Plan σ) (updates : List (Nat × Option Value)) : List (Item σ) :=
  putAll (plan.order.arrange updates) ++ [.endDispatch]

theorem updateAll_carries (plan : Plan σ) (fuel : Nat) (updates : List (Nat × Option Value))
    (w : World σ) : Carries plan (putAll updates) w ((updateAll plan fuel updates).run.run w) := by
  induction updates generalizing w with
  | nil => exact Leads.here
  | cons update rest ih =>
    obtain ⟨c, value⟩ := update
    exact Carries.bind (a := [.put c value]) ((carries plan fuel).update w c value)
      (fun _ w' _ => ih w') fun u => unwind_map _ (fun _ _ => rfl) rest u

theorem dispatching_carries (plan : Plan σ) (fuel : Nat) (updates : List (Nat × Option Value))
    (w : World σ) :
    Carries plan (dispatch plan updates) (w.modifyConfig ({ · with dispatching := true }))
      ((dispatching (updateAll plan fuel (plan.order.arrange updates))).run.run w) :=
  .between (updateAll_carries plan fuel _ _) (fun _ => rfl) fun _ => rfl

/-- How a refresh ends whose fetch is over. -/
inductive Concluded (plan : Plan σ) (w : World σ) :
    Except ConfigError Tree → Except Stop (Except ConfigError Tree) × World σ → Prop where
  | failed {fetched : Except ConfigError Tree} (e : ConfigError)
    (fails : w.failure? fetched = some e) :
    Concluded plan w fetched (.ok (.error e), w.modifyConfig (·.ended w.now (.error e)))
  | reloaded (tree : Tree) (opened : w.config.closed = false)
    (same : (w.config.current == some tree) = true) :
    Concluded plan w (.ok tree) (.ok (.ok tree), w.modifyConfig (·.ended w.now (.ok tree)))
  | published {tree : Tree} {updates : List (Nat × Option Value)} {v : World σ}
    (opened : w.config.closed = false) (other : (w.config.current == some tree) = false)
    (computes : computeAll tree w.config.tracked = .ok updates)
    (leads : Leads plan (dispatch plan updates) (w.swap tree) [] v) :
    Concluded plan w (.ok tree) (.ok (.ok tree), v.modifyConfig (·.ended v.now (.ok tree)))
  | broken {tree : Tree} {updates : List (Nat × Option Value)} {left : List (Item σ)}
    {v : World σ} (stop : Stop)
    (opened : w.config.closed = false) (other : (w.config.current == some tree) = false)
    (computes : computeAll tree w.config.tracked = .ok updates)
    (leads : Leads plan (dispatch plan updates) (w.swap tree) left v)
    (panics : stop = .panicked → left.head? = some (.go .panic)) :
    Concluded plan w (.ok tree) (.error stop, unwind left v)

/-- A tree that differs from the current one is published once the values for it are known. -/
theorem run_publish {tree : Tree} {updates : List (Nat × Option Value)} (plan : Plan σ) (fuel : Nat)
    (opened : w.config.closed = false) (other : (w.config.current == some tree) = false)
    (computes : computeAll tree w.config.tracked = .ok updates) :
    (publish plan fuel tree).run.run w =
      (dispatching (updateAll plan fuel (plan.order.arrange updates)) >>= fun _ =>
        pure (.ok tree)).run.run
          ((w.modifyConfig ({ · with current := some tree })).log (.published tree)) := by
  rw [publish, Act.run_bind_of_ok (Act.run_get w)]
  dsimp only
  rw [opened, if_neg Bool.false_ne_true, other, if_neg Bool.false_ne_true, computes]
  rfl

/-- A tree that equals the current one changes nothing. -/
theorem run_publish_of_same {tree : Tree} (plan : Plan σ) (fuel : Nat)
    (opened : w.config.closed = false) (same : (w.config.current == some tree) = true) :
    (publish plan fuel tree).run.run w = (.ok (.ok tree), w) := by
  rw [publish, Act.run_bind_of_ok (Act.run_get w)]
  dsimp only
  rw [opened, if_neg Bool.false_ne_true, same, if_pos rfl]
  rfl

theorem concluded (plan : Plan σ) (fuel : Nat) (fetched : Except ConfigError Tree) (w : World σ) :
    Concluded plan w fetched ((conclude plan fuel fetched).run.run w) := by
  cases fails : w.failure? fetched with
  | some e =>
    rw [conclude_of_failure fuel fails]
    exact .failed e fails
  | none =>
    cases fetched with
    | error e => cases fails
    | ok tree =>
      cases closed : w.config.closed with
      | true =>
        rw [World.failure?, if_pos closed] at fails
        cases fails
      | false =>
        rw [World.failure?, closed, if_neg Bool.false_ne_true] at fails
        cases same : w.config.current == some tree with
        | true =>
          rw [conclude, Act.run_bind_of_ok (run_publish_of_same plan fuel closed same)]
          exact .reloaded tree closed same
        | false =>
          rw [same, if_neg Bool.false_ne_true] at fails
          cases computes : computeAll tree w.config.tracked with
          | error e =>
            rw [computes] at fails
            cases fails
          | ok updates =>
            have carried := dispatching_carries plan fuel updates
              ((w.modifyConfig ({ · with current := some tree })).log (.published tree))
            have runs := run_publish plan fuel closed same computes
            rw [Act.run_bind] at runs
            rw [conclude, Act.run_bind, runs]
            generalize (dispatching _).run.run _ = ran at carried
            rcases ran with ⟨stop | _, v⟩
            · obtain ⟨left, u, leads, rfl, panics⟩ := carried
              exact .broken stop closed same computes leads panics
            · exact .published closed same computes carried

/-! ### What moves leave alone -/

/-- From one world to another nothing happened to the cells, and to the configuration nothing but
what has to do with refreshes. Sources and transformers may have been asked. -/
structure Beside (w w' : World σ) : Prop where
  cells : w'.cells = w.cells
  current : w'.config.current = w.config.current
  tracked : w'.config.tracked = w.config.tracked
  nextId : w'.config.nextId = w.config.nextId
  closed : w'.config.closed = w.config.closed
  dispatching : w'.config.dispatching = w.config.dispatching
  history : ∃ events, w'.history = events ++ w.history ∧ ∀ e ∈ events, e.ofFetch = true

namespace Beside

theorem of_config (cells : v.cells = w.cells) (config : v.config = w.config)
    (history : v.history = w.history) : Beside w v where
  cells
  current := by rw [config]
  tracked := by rw [config]
  nextId := by rw [config]
  closed := by rw [config]
  dispatching := by rw [config]
  history := ⟨[], history, nofun⟩

theorem refl (w : World σ) : Beside w w := of_config rfl rfl rfl

theorem trans (first : Beside u v) (second : Beside v w) : Beside u w where
  cells := second.cells.trans first.cells
  current := second.current.trans first.current
  tracked := second.tracked.trans first.tracked
  nextId := second.nextId.trans first.nextId
  closed := second.closed.trans first.closed
  dispatching := second.dispatching.trans first.dispatching
  history := by
    obtain ⟨events, before, ofFetch⟩ := first.history
    obtain ⟨events', after, ofFetch'⟩ := second.history
    refine ⟨events' ++ events, by rw [after, before, List.append_assoc], fun e member => ?_⟩
    exact (List.mem_append.mp member).elim (ofFetch' e) (ofFetch e)

/-- What is remembered of refreshes changes. -/
theorem marked (w : World σ) (inFlight lastRefreshed : Option Nat)
    (lastError : Option ConfigError) :
    Beside w (w.modifyConfig ({ · with inFlight, lastRefreshed, lastError })) :=
  ⟨rfl, rfl, rfl, rfl, rfl, rfl, [], rfl, nofun⟩

theorem ended (w : World σ) (now : Nat) (result : Except ConfigError Tree) :
    Beside w (w.modifyConfig (·.ended now result)) := by
  cases result with
  | ok tree => exact marked w _ _ _
  | error e => cases e <;> exact marked w _ _ _

theorem cell (beside : Beside w v) (c : Nat) : v.cell c = w.cell c := by
  rw [World.cell, beside.cells, World.cell]

/-- What is broken off does not open the configuration. -/
theorem closed_of_unwind {agenda : List (Item σ)} (unwinds : Beside (unwind agenda v) w)
    (closed : v.config.closed = true) : w.config.closed = true :=
  unwinds.closed.trans ((unwind_aloof agenda v).closed closed)

/-- Neither steps nor breaking them off changes the current tree. -/
theorem current_of_unwind {a b : List (Item σ)} (leads : Leads plan a u b v)
    (unwinds : Beside (unwind b v) w) : w.config.current = u.config.current :=
  unwinds.current.trans ((unwind_aloof b v).current.trans leads.aloof.current)

/-- Of anything but fetches the history tells nothing new. -/
theorem filterMap (beside : Beside w v) (p : Event → Option α) (asked : ∀ i, p (.asked i) = none)
    (transformed : ∀ i, p (.transformed i) = none) :
    v.history.filterMap p = w.history.filterMap p := by
  obtain ⟨events, history, ofFetch⟩ := beside.history
  have none : events.filterMap p = [] := List.filterMap_eq_nil_iff.mpr fun e member => by
    have fetches := ofFetch e member
    cases e with
    | asked i => exact asked i
    | transformed i => exact transformed i
    | _ => cases fetches
  rw [history, List.filterMap_append, none, List.nil_append]

end Beside

theorem FetchPart.beside {may : Nat → Prop} {events : List Event} {part : Fetched × World σ}
    (fetching : FetchPart may w events part) : Beside w part.2 := by
  obtain ⟨surroundings, world⟩ := fetching.world
  rw [world]
  exact ⟨rfl, rfl, rfl, rfl, rfl, rfl, events, rfl, fetching.ofFetch⟩

/-! ### The scripts of a session -/

/-- All scripts of the job are of a kind. -/
inductive Job.Performs (P : Script σ → Prop) : Job σ → Prop where
  | refresh : Performs P .refresh
  | getOrRefresh : Performs P .getOrRefresh
  | loop : Performs P .loop
  | perform {script : Script σ} : P script → Performs P (.perform script)
  | pause (millis : Nat) : Performs P (.pause millis)
  | abort (task : Nat) : Performs P (.abort task)
  | join : Performs P .join
  | concurrently {jobs : List (Nat × Job σ)} :
    (∀ entry ∈ jobs, Performs P entry.2) → Performs P (.concurrently jobs)

variable {P : Script σ → Prop}

theorem Job.Performs.shiftAbort {job : Job σ} (performs : job.Performs P) (first : Nat) :
    (job.shiftAbort first).Performs P := by
  cases performs with
  | abort task => exact .abort _
  | perform performs => exact .perform performs
  | concurrently performs => exact .concurrently performs
  | refresh => exact .refresh
  | getOrRefresh => exact .getOrRefresh
  | loop => exact .loop
  | pause millis => exact .pause millis
  | join => exact .join

/-- All scripts that the task will run are of a kind. -/
def Task.Performs (P : Script σ → Prop) : Task σ → Prop
  | .fresh _ job | .sleeping _ job => job.Performs P
  | _ => True

theorem Task.performs_of_passive {task : Task σ} (passive : task.passive = true) :
    task.Performs P := by
  cases task with
  | fresh | sleeping => cases passive
  | _ => trivial

/-- All scripts that the move brings into a session are of a kind. -/
def Session.Move.Performs (P : Script σ → Prop) : Session.Move σ → Prop
  | .spawn _ job => job.Performs P
  | .perform script => P script
  | .passTo _ | .turn _ => True

/-- The tree that a refresh has brought. -/
def Flight.tree? : Flight → Option Tree
  | .settled (.ok tree) => some tree
  | _ => none

namespace Session

variable {s s' base : Session σ} {t f : Nat}

/-- All scripts that tasks will run are of a kind. -/
def Performs (P : Script σ → Prop) (s : Session σ) : Prop := ∀ task ∈ s.tasks, task.Performs P

/-- The trees that refreshes have brought, in the order in which the refreshes began. -/
def loads (s : Session σ) : List Tree := s.flights.toList.filterMap Flight.tree?

theorem loads_of_push (flights : s'.flights = s.flights.push .underWay) : s'.loads = s.loads := by
  simp [loads, flights, Flight.tree?]

/-- The last refresh was under way and is over. -/
theorem loads_of_landed {flight : Flight} (last : f + 1 = s.flights.size)
    (underWay : s.flights[f]? = some .underWay)
    (flights : s'.flights = s.flights.setIfInBounds f flight) :
    s'.loads = s.loads ++ flight.tree?.toList := by
  rcases List.eq_nil_or_concat s.flights.toList with none | ⟨earlier, x, all⟩
  · rw [← Array.length_toList, none] at last
    cases last
  · rw [List.concat_eq_append] at all
    have length : earlier.length = f := by
      rw [← Array.length_toList, all, List.length_append] at last
      exact (Nat.succ_inj.mp last).symm
    have same : x = .underWay := by
      rw [← Array.getElem?_toList, all, ← length, List.getElem?_concat_length] at underWay
      exact Option.some_inj.mp underWay
    have now : s'.flights.toList = earlier ++ [flight] := by
      rw [flights, Array.toList_setIfInBounds, all, List.set_append_right _ _ (Nat.le_of_eq length),
        length, Nat.sub_self]
      rfl
    have one (flight : Flight) : [flight].filterMap Flight.tree? = flight.tree?.toList := by
      rw [List.filterMap_cons]
      cases flight.tree? <;> rfl
    have nothing : Flight.underWay.tree?.toList = [] := rfl
    rw [loads, loads, now, all, same, List.filterMap_append, List.filterMap_append, one, one,
      nothing, List.append_nil]

/-- The refresh under way is the last one that began. -/
def Latest (s : Session σ) : Prop :=
  ∀ f, s.world.config.inFlight = some f → f + 1 = s.flights.size

theorem Latest.deed (latest : Latest s) (deed : Deed s s') : Latest s' := by
  intro f flying
  cases deed with
  | aside aside =>
    rw [aside.flights]
    exact latest f (aside.apart.inFlight ▸ flying)
  | joined found free flying' flights world tasks =>
    rw [flights]
    exact latest f (world ▸ flying)
  | tookOff found free idle flights flying' =>
    rw [flying'] at flying
    rw [flights, Array.size_push, Option.some_inj.mp flying]
  | advanced found flights flying' =>
    rw [flights]
    exact latest f (flying' ▸ flying)
  | landed found flights cleared =>
    rw [cleared] at flying
    cases flying

/-! ### The list of what moves do -/

/-- What a move does to the world, and to the list of trees that refreshes have brought. -/
inductive Effect (P : Script σ → Prop) (s s' : Session σ) : Prop where
  | beside (beside : Beside s.world s'.world) (loads : s'.loads = s.loads)
  | ran {script : Script σ} {left : List (Item σ)} {v : World σ} (performs : P script)
    (leads : Leads s.plan [.go script] s.world left v) (unwinds : Beside (unwind left v) s'.world)
    (loads : s'.loads = s.loads)
  | reloaded {tree : Tree} (beside : Beside s.world s'.world)
    (same : (s.world.config.current == some tree) = true) (loads : s'.loads = s.loads ++ [tree])
  | published {tree : Tree} {updates : List (Nat × Option Value)} {left : List (Item σ)}
    {u v : World σ} (fetched : Beside s.world u) (opened : u.config.closed = false)
    (other : (u.config.current == some tree) = false)
    (computes : computeAll tree u.config.tracked = .ok updates)
    (leads : Leads s.plan (dispatch s.plan updates) (u.swap tree) left v)
    (unwinds : Beside (unwind left v) s'.world)
    (loads : left = [] ∧ s'.loads = s.loads ++ [tree] ∨ s'.loads = s.loads)

/-- Whatever a move does, the tasks that there are then perform scripts of the same kind. -/
structure Onward (P : Script σ → Prop) (s s' : Session σ) : Prop where
  plan : s'.plan = s.plan
  performs : s'.Performs P
  effect : Effect P s s'

theorem Performs.setTask (performs : s.Performs P) {task : Task σ} (plain : task.Performs P) :
    (s.setTask t task).Performs P := by
  intro task' member
  rcases List.mem_or_eq_of_mem_set member with member | rfl
  · exact performs task' member
  · exact plain

theorem Performs.append {new : List (Task σ)} (performs : s.Performs P)
    (tasks : s'.tasks = s.tasks ++ new) (plain : ∀ task ∈ new, task.Performs P) :
    s'.Performs P := by
  intro task member
  rw [tasks] at member
  exact (List.mem_append.mp member).elim (performs task) (plain task)

theorem Performs.adoptLoops (performs : s.Performs P) : s.adoptLoops.Performs P :=
  performs.append rfl fun task member => by
    rw [List.eq_of_mem_replicate member]
    exact Job.Performs.loop

namespace Onward

/-- Nothing was done to the world, and no refresh ended. -/
theorem still (plan : s'.plan = s.plan) (world : Beside s.world s'.world)
    (loads : s'.loads = s.loads) (performs : s'.Performs P) : Onward P s s' :=
  ⟨plan, performs, .beside world loads⟩

theorem setTask (performs : s.Performs P) {task : Task σ} (plain : task.Performs P) :
    Onward P s (s.setTask t task) :=
  .still rfl (.refl _) rfl (performs.setTask plain)

theorem finish (performs : s.Performs P) (outcome : Outcome) :
    Onward P s (s.setTask t (.over outcome)) :=
  .setTask performs trivial

theorem endRefresh (performs : s.Performs P) (purpose : Purpose)
    (result : Except ConfigError Tree) : Onward P s (s.endRefresh t purpose result) := by
  obtain ⟨task, ends, ended⟩ := endRefresh_spec s t purpose result
  rw [ends]
  exact .setTask performs (Task.performs_of_passive ended.passive)

end Onward

/-- A refresh that is broken off has brought no tree. -/
theorem crash_spec (performs : s.Performs P) (last : f + 1 = s.flights.size)
    (underWay : s.flights[f]? = some .underWay) (t : Nat) (stop : Stop) :
    (s.crash t f stop).Performs P ∧ Beside s.world (s.crash t f stop).world ∧
      (s.crash t f stop).loads = s.loads := by
  refine ⟨performs.setTask trivial, ⟨rfl, rfl, rfl, rfl, rfl, rfl, [], rfl, nofun⟩, ?_⟩
  exact (loads_of_landed last underWay rfl).trans (List.append_nil _)

/-- A refresh that has a result may have brought a tree. -/
theorem settle_spec (performs : s.Performs P) (last : f + 1 = s.flights.size)
    (underWay : s.flights[f]? = some .underWay) (t : Nat) (purpose : Purpose)
    (result : Except ConfigError Tree) :
    ((s.land f (.settled result)).endRefresh t purpose result).Performs P ∧
      Beside s.world ((s.land f (.settled result)).endRefresh t purpose result).world ∧
      ((s.land f (.settled result)).endRefresh t purpose result).plan = s.plan ∧
      ((s.land f (.settled result)).endRefresh t purpose result).loads =
        s.loads ++ result.toOption.toList := by
  obtain ⟨task, ends, ended⟩ := endRefresh_spec (s.land f (.settled result)) t purpose result
  rw [ends]
  refine ⟨performs.setTask (Task.performs_of_passive ended.passive),
    ⟨rfl, rfl, rfl, rfl, rfl, rfl, [], rfl, nofun⟩, rfl, ?_⟩
  refine (loads_of_landed last underWay rfl).trans ?_
  cases result <;> rfl

/-- The leader of the last refresh goes on. -/
theorem lead_onward (plan : base.plan = s.plan) (fetched : Beside s.world base.world)
    (performs : base.Performs P) (loads : base.loads = s.loads) (last : f + 1 = base.flights.size)
    (underWay : base.flights[f]? = some .underWay) (t : Nat) (purpose : Purpose)
    (part : Fetched) : Onward P s (base.lead t purpose f part) := by
  rcases part with ⟨pace, progress⟩ | result
  · cases pace <;> exact .still plan fetched loads (performs.setTask trivial)
  · rw [lead]
    split
    · -- the fetch broke down
      obtain ⟨performs', world, loads'⟩ := crash_spec performs last underWay t .panicked
      exact .still plan (fetched.trans world) (loads'.trans loads) performs'
    · have ends := concluded base.plan base.fuel result base.world
      generalize (conclude base.plan base.fuel result).run.run base.world = ran at ends
      have adopted : (adoptLoops { base with world := ran.2 }).Performs P :=
        Performs.adoptLoops (s := { base with world := ran.2 }) performs
      have idle : Beside ran.2 (adoptLoops { base with world := ran.2 }).world :=
        .of_config rfl rfl rfl
      cases ends with
      | failed e fails =>
        obtain ⟨performs', world, plan', loads'⟩ :=
          settle_spec adopted last underWay t purpose (.error e)
        refine .still (plan'.trans plan) ?_ (loads'.trans ((List.append_nil _).trans loads))
          performs'
        exact (fetched.trans (.ended _ _ _)).trans (idle.trans world)
      | reloaded tree opened same =>
        obtain ⟨performs', world, plan', loads'⟩ :=
          settle_spec adopted last underWay t purpose (.ok tree)
        refine ⟨plan'.trans plan, performs', .reloaded ?_ (fetched.current ▸ same) ?_⟩
        · exact (fetched.trans (.ended _ _ _)).trans (idle.trans world)
        · rw [← loads]
          exact loads'
      | @published tree updates v opened other computes leads =>
        obtain ⟨performs', world, plan', loads'⟩ :=
          settle_spec adopted last underWay t purpose (.ok tree)
        refine ⟨plan'.trans plan, performs',
          .published fetched opened other computes (plan ▸ leads) ?_ (.inl ⟨rfl, ?_⟩)⟩
        · exact (Beside.ended v _ _).trans (idle.trans world)
        · rw [← loads]
          exact loads'
      | broken stop opened other computes leads =>
        obtain ⟨performs', world, loads'⟩ := crash_spec adopted last underWay t stop
        exact ⟨plan, performs', .published fetched opened other computes (plan ▸ leads)
          (idle.trans world) (.inr (loads'.trans loads))⟩

/-- A script was run, and then nothing but the tasks changed. -/
theorem ran_onward {script : Script σ} (script_performs : P script) (performs : s'.Performs P)
    (plan : s'.plan = s.plan) (flights : s'.flights = s.flights)
    (world : s'.world = (s.perform script).1.world) : Onward P s s' := by
  have loads : s'.loads = s.loads := by rw [Session.loads, flights, Session.loads]
  have carried := (carries s.plan s.fuel).run s.world script
  have unwinds : Beside ((run s.plan s.fuel script).run.run s.world).2 s'.world := by
    rw [world]
    exact .of_config rfl rfl rfl
  generalize (run s.plan s.fuel script).run.run s.world = ran at carried unwinds
  rcases ran with ⟨stop | reply, v⟩
  · obtain ⟨left, u, leads, rfl, _⟩ := carried
    exact ⟨plan, performs, .ran script_performs leads unwinds loads⟩
  · exact ⟨plan, performs, .ran script_performs carried unwinds loads⟩

theorem beginRefresh_onward (performs : s.Performs P) (t : Nat)
    (purpose : Purpose) : Onward P s (s.beginRefresh t purpose) := by
  rw [beginRefresh]
  split
  · exact .endRefresh performs purpose _
  · split
    · exact .setTask performs trivial
    · -- the new refresh is the last one, and under way
      obtain ⟨events, part, _⟩ := FetchPart.fetch s.plan s.marked
      have fetched : Beside s.world ((fetch s.plan).run s.marked).2 :=
        (Beside.marked s.world _ s.world.config.lastRefreshed s.world.config.lastError).trans
          part.beside
      have underWay : (s.flights.push .underWay)[s.flights.size]? = some .underWay :=
        Array.getElem?_push_size
      have same : s.begun.plan = s.plan := rfl
      exact lead_onward same fetched performs (loads_of_push rfl) (Array.size_push _).symm underWay
        t purpose _

theorem tick_onward (performs : s.Performs P) (t due : Nat) :
    Onward P s (s.tick t due) := by
  rw [tick]
  split
  · exact .finish performs _
  · split
    · exact .finish performs _
    · split
      · exact beginRefresh_onward performs t _
      · exact .setTask performs trivial

theorem beginGet_onward (performs : s.Performs P) (t : Nat) : Onward P s (s.beginGet t) := by
  rw [beginGet]
  split
  · exact .finish performs _
  · obtain ⟨task, checks, passive⟩ := checkChild_spec (s.spawn 0 .refresh) t s.tasks.length
      (s.world.now + s.plan.getTimeout)
    rw [checks]
    have spawned : (s.spawn 0 .refresh).Performs P := performs.append rfl fun task member => by
      rw [List.mem_singleton.mp member]
      exact Job.Performs.refresh
    exact .still rfl (.refl _) rfl (spawned.setTask (Task.performs_of_passive passive))

theorem beginJob_onward (performs : s.Performs P) (t : Nat) {job : Job σ}
    (kind : job.Performs P) : Onward P s (s.beginJob t job) := by
  cases kind with
  | refresh => exact beginRefresh_onward performs t .once
  | getOrRefresh => exact beginGet_onward performs t
  | loop => exact tick_onward performs t s.world.now
  | @perform script kind =>
    have adopted : (s.perform script).1.Performs P :=
      Performs.adoptLoops (s := { s with
        world := ((run s.plan s.fuel script).run.run s.world).2 }) performs
    exact ran_onward kind (adopted.setTask trivial) rfl rfl rfl
  | pause millis =>
    rw [beginJob]
    split
    · exact .finish performs _
    · exact .setTask performs (Job.Performs.pause 0)
  | abort target =>
    rw [beginJob]
    split
    · exact .finish performs _
    · exact .still rfl (.refl _) rfl (performs.setTask trivial)
  | join =>
    rw [beginJob]
    split
    next loop _ =>
      obtain ⟨task, checks, passive⟩ := checkLoop_spec { s with loop := none } t loop
      rw [checks]
      exact .still rfl (.refl _) rfl (performs.setTask (Task.performs_of_passive passive))
    · exact .finish performs _
  | @concurrently jobs kind =>
    rw [beginJob]
    obtain ⟨task, gathers, passive⟩ := gather_spec (s.spawnAll jobs).1 t (s.spawnAll jobs).2
      (s.spawnAll jobs).2
    have spawned : (s.spawnAll jobs).1.Performs P := performs.append rfl fun task member => by
      obtain ⟨⟨delay, job⟩, among, rfl⟩ := List.mem_map.mp member
      exact (kind _ among).shiftAbort _
    dsimp only
    rw [gathers]
    exact .still rfl (.refl _) rfl (spawned.setTask (Task.performs_of_passive passive))

theorem drop_onward (orderly : Orderly s) (latest : Latest s) (performs : s.Performs P) (t : Nat) :
    Onward P s (s.drop t) := by
  rw [drop]
  split
  · exact .still rfl (.refl _) rfl performs
  · exact .still rfl (.refl _) rfl performs
  next purpose f deadline progress found =>
    have flying := orderly.leads t f ⟨purpose, deadline, progress, found⟩
    refine .still rfl ⟨rfl, rfl, rfl, rfl, rfl, rfl, [], rfl, List.forall_mem_nil _⟩ ?_
      (performs.setTask trivial)
    exact (loads_of_landed (latest f flying) ((orderly.underWay f).mp flying) rfl).trans
      (List.append_nil _)
  · exact .still rfl (.refl _) rfl (performs.setTask trivial)

theorem turn_onward (orderly : Orderly s) (latest : Latest s) (performs : s.Performs P) (t : Nat) :
    Onward P s (s.turn t) := by
  have same : Onward P s s := .still rfl (.refl _) rfl performs
  have kind {task : Task σ} (found : s.task? t = some task) : task.Performs P :=
    performs task (List.mem_of_getElem? found)
  rw [turn]
  split
  · exact drop_onward orderly latest performs t
  · split
    · exact same
    · exact same
    next delay job found =>
      split
      · exact beginJob_onward performs t (kind found)
      · have plain : job.Performs P := kind found
        exact .setTask performs plain
    next deadline job found =>
      split
      · exact beginJob_onward performs t (kind found)
      · exact same
    next purpose f deadline progress found =>
      split
      · have flying := orderly.leads t f ⟨purpose, deadline, progress, found⟩
        obtain ⟨events, part⟩ := FetchPart.resume s.plan progress s.world
        have same : (s.resumed progress).plan = s.plan := rfl
        exact lead_onward same part.beside performs rfl (latest f flying)
          ((orderly.underWay f).mp flying) t purpose _
      · exact same
    next purpose f found =>
      split
      · exact .endRefresh performs purpose _
      · exact same
      · exact .endRefresh performs purpose _
      · exact .endRefresh performs purpose _
    next child deadline found =>
      obtain ⟨task, checks, passive⟩ := checkChild_spec s t child deadline
      rw [checks]
      exact .setTask performs (Task.performs_of_passive passive)
    next due found => exact tick_onward performs t due
    next loop found =>
      obtain ⟨task, checks, passive⟩ := checkLoop_spec s t loop
      rw [checks]
      exact .setTask performs (Task.performs_of_passive passive)
    next tasks pending found =>
      obtain ⟨task, gathers, passive⟩ := gather_spec s t tasks pending
      rw [gathers]
      exact .setTask performs (Task.performs_of_passive passive)

/-- The list of what moves do to the world is complete. -/
theorem onward (orderly : Orderly s) (latest : Latest s) (performs : s.Performs P) {m : Move σ}
    (kind : m.Performs P) : Onward P s (s.step m) := by
  cases m with
  | passTo moment => exact .still rfl (.of_config rfl rfl rfl) rfl performs
  | spawn delay job =>
    have spawned : (s.spawn delay job).Performs P := performs.append rfl fun task member => by
      rw [List.mem_singleton.mp member]
      exact kind
    exact .still rfl (.refl _) rfl spawned
  | turn t => exact turn_onward orderly latest performs t
  | perform script =>
    have adopted : (s.perform script).1.Performs P :=
      Performs.adoptLoops (s := { s with
        world := ((run s.plan s.fuel script).run.run s.world).2 }) performs
    exact ran_onward kind adopted rfl rfl rfl

end Session

/-! ### Whatever the scripts do -/

mutual

theorem Job.performs_any : ∀ job : Job σ, job.Performs fun _ => True
  | .refresh => .refresh
  | .getOrRefresh => .getOrRefresh
  | .loop => .loop
  | .perform _ => .perform trivial
  | .pause millis => .pause millis
  | .abort task => .abort task
  | .join => .join
  | .concurrently jobs => .concurrently (all_perform_any jobs)
termination_by structural job => job

theorem all_perform_any : ∀ jobs : List (Nat × Job σ),
    ∀ entry ∈ jobs, entry.2.Performs fun _ => True
  | [] => List.forall_mem_nil _
  | (_, job) :: rest => List.forall_mem_cons.mpr ⟨job.performs_any, all_perform_any rest⟩
termination_by structural jobs => jobs

end

theorem Session.Move.performs_any (m : Session.Move σ) : m.Performs fun _ => True := by
  cases m with
  | spawn _ job => exact job.performs_any
  | perform => trivial
  | passTo | turn => trivial

namespace Session

theorem performs_any (s : Session σ) : s.Performs fun _ => True := by
  intro task _
  cases task with
  | fresh _ job | sleeping _ job => exact job.performs_any
  | _ => trivial

/-- What every move keeps, whatever scripts are run in it, is true after any moves. -/
theorem kept_by_moves {Q : Session σ → Prop}
    (kept : ∀ s m, Orderly s → Q s → Onward (fun _ => True) s (s.step m) → Q (s.step m))
    {s : Session σ} (orderly : Orderly s) (latest : Latest s) (start : Q s)
    (moves : List (Move σ)) : Q (s.after moves) := by
  induction moves generalizing s with
  | nil => exact start
  | cons m rest ih =>
    have onward := Session.onward orderly latest s.performs_any m.performs_any
    exact ih (orderly.after [m])
      (kept_by_deeds (fun _ _ latest deed => latest.deed deed) latest [m])
      (kept s m orderly start onward)

end Session

end LayeredConfig.Live
