import LayeredConfig.Proofs.Live.Effects
/-!
# What a session leaves behind

From one moment of a session to a later one time only passes, no task goes away, and whoever waits
for a task waits for one that somebody could wait for before, or for a new one. So nobody ever comes
to wait for a task that was added on its own.
-/
namespace LayeredConfig.Live

variable {σ : Type} {α : Type} {plan : Plan σ} {v w : World σ}

/-! ### Time -/

theorem Item.step_now (plan : Plan σ) (w : World σ) (item : Item σ) :
    (item.step plan w).2.now = w.now := by
  cases item with
  | go script =>
    cases script <;> simp only [Item.step, Script.step] <;> first | rfl | (split <;> rfl)
  | greet c l | close c | drain c =>
    simp only [Item.step]
    repeat' split
    all_goals rfl
  | put c value | apply c value | derive extract | shut =>
    simp only [Item.step]
    repeat' split
    all_goals rfl
  | shutSources =>
    obtain ⟨events, surroundings, -, after⟩ := closeSources_spec 0 plan.sources w
    simp only [Item.step, after]
  | tell | unmark | endDispatch => rfl

theorem Item.undo_now (w : World σ) (item : Item σ) : (item.undo w).now = w.now := by
  cases item <;> rfl

theorem unwind_now (agenda : List (Item σ)) (w : World σ) : (unwind agenda w).now = w.now :=
  unwind_preserves (fun v => v.now = w.now) (fun item v same => (item.undo_now v).trans same)
    agenda rfl

theorem Leads.now {a b : List (Item σ)} (leads : Leads plan a w b v) : v.now = w.now :=
  leads.preserves (fun _ v => v.now = w.now)
    (fun item _ v same => (item.step_now plan v).trans same) rfl

/-- Scripts take no time. -/
theorem run_now (plan : Plan σ) (fuel : Nat) (script : Script σ) (w : World σ) :
    ((run plan fuel script).run.run w).2.now = w.now :=
  ((carries plan fuel).run w script).preserves (fun v => v.now = w.now)
    (fun item v same => (item.step_now plan v).trans same)
    (fun item v same => (item.undo_now v).trans same) rfl

theorem conclude_now (plan : Plan σ) (fuel : Nat) (fetched : Except ConfigError Tree)
    (w : World σ) : ((conclude plan fuel fetched).run.run w).2.now = w.now := by
  have ends := concluded plan fuel fetched w
  generalize (conclude plan fuel fetched).run.run w = ran at ends
  cases ends with
  | failed | reloaded => rfl
  | published opened other computes leads => exact leads.now
  | broken stop opened other computes leads => exact (unwind_now _ _).trans leads.now

/-! ### Waiting -/

/-- The tasks for which a task waits. -/
def Task.awaited : Task σ → List Nat
  | .awaiting child _ => [child]
  | .joining loop => [loop]
  | .gathering tasks pending => tasks ++ pending
  | _ => []

theorem Ended.awaited {purpose : Purpose} {result : Except ConfigError Tree} {task : Task σ}
    (ended : Ended purpose result task) : task.awaited = [] := by
  cases purpose with
  | once => rw [show task = _ from ended]; rfl
  | periodic due => rcases ended with rfl | rfl <;> rfl

namespace Session

variable {s s' s'' : Session σ} {t n : Nat}

/-- Somebody waits for the task, or could join it. -/
def Awaited (s : Session σ) (n : Nat) : Prop :=
  (∃ u task, s.task? u = some task ∧ n ∈ task.awaited) ∨ s.loop = some n

/-- What somebody who waited for a task is told of how it ended. -/
def passedOn : Outcome → Outcome
  | .replied reply => .replied reply
  | .exhausted => .exhausted
  | _ => .replied (.outcome (.error .refreshAborted))

/-- What somebody is told who has waited long enough. -/
def timedOut (plan : Plan σ) : Outcome :=
  .replied (.outcome (.error (.timeout (plan.getTimeout * microsPerMilli))))

/-- What becomes of a task that waits for another one. -/
def waited (s : Session σ) (child deadline : Nat) : Task σ :=
  match s.outcome? child with
  | some outcome => .over (passedOn outcome)
  | none => if deadline ≤ s.world.now then .over (timedOut s.plan) else .awaiting child deadline

theorem checkChild_eq (s : Session σ) (t child deadline : Nat) :
    s.checkChild t child deadline = s.setTask t (s.waited child deadline) := by
  rw [checkChild, waited]
  cases s.outcome? child with
  | none =>
    dsimp only
    split <;> rfl
  | some outcome => cases outcome <;> rfl

theorem waited_of_running {child deadline : Nat} (running : s.outcome? child = none) :
    s.waited child deadline =
      if deadline ≤ s.world.now then .over (timedOut s.plan) else .awaiting child deadline := by
  rw [waited, running]

theorem awaited_waited {child deadline : Nat} (among : n ∈ (s.waited child deadline).awaited) :
    n = child := by
  rw [waited] at among
  split at among
  · cases among
  · split at among
    · cases among
    · exact List.mem_singleton.1 among

theorem begun_now (s : Session σ) : s.begun.world.now = s.world.now := by
  obtain ⟨events, part, -⟩ := FetchPart.fetch s.plan s.marked
  obtain ⟨surroundings, world⟩ := part.world
  have same := congrArg World.now world
  exact same

theorem resumed_now (s : Session σ) (progress : Progress) :
    (s.resumed progress).world.now = s.world.now := by
  obtain ⟨events, part⟩ := FetchPart.resume s.plan progress s.world
  obtain ⟨surroundings, world⟩ := part.world
  have same := congrArg World.now world
  exact same

/-- A later moment of a session. -/
structure Ensues (s s' : Session σ) : Prop where
  now : s.world.now ≤ s'.world.now
  length : s.tasks.length ≤ s'.tasks.length
  awaited : ∀ n, s'.Awaited n → s.Awaited n ∨ s.tasks.length ≤ n ∧ n < s'.tasks.length

namespace Ensues

theorem refl (s : Session σ) : Ensues s s :=
  ⟨Nat.le_refl _, Nat.le_refl _, fun _ => .inl⟩

theorem trans (first : Ensues s s') (second : Ensues s' s'') : Ensues s s'' where
  now := Nat.le_trans first.now second.now
  length := Nat.le_trans first.length second.length
  awaited n awaited := by
    have order := first.length
    have order' := second.length
    rcases second.awaited n awaited with before | ⟨lower, upper⟩
    · rcases first.awaited n before with before | ⟨lower, upper⟩
      · exact .inl before
      · exact .inr ⟨lower, by omega⟩
    · exact .inr ⟨by omega, upper⟩

/-- Nothing happened to tasks. -/
theorem of_eq (ensues : Ensues s s') (tasks : s''.tasks = s'.tasks) (loop : s''.loop = s'.loop)
    (now : s'.world.now ≤ s''.world.now) : Ensues s s'' where
  now := Nat.le_trans ensues.now now
  length := by
    rw [tasks]
    exact ensues.length
  awaited n awaited := by
    rw [tasks]
    refine ensues.awaited n ?_
    simpa only [Awaited, task?, tasks, loop] using awaited

/-- What becomes of a task that does not begin to wait for one that nobody could wait for. -/
theorem setTask (ensues : Ensues s s') (t : Nat) (task : Task σ)
    (known : ∀ n ∈ task.awaited, s.Awaited n ∨ s.tasks.length ≤ n ∧ n < s'.tasks.length) :
    Ensues s (s'.setTask t task) where
  now := ensues.now
  length := by
    rw [Session.setTask, List.length_set]
    exact ensues.length
  awaited n awaited := by
    rw [Session.setTask, List.length_set]
    rcases awaited with ⟨u, other, found, among⟩ | joinable
    · rw [task?, Session.setTask, List.getElem?_set] at found
      split at found
      · split at found
        · obtain rfl := Option.some.inj found
          exact known n among
        · cases found
      · exact ensues.awaited n (.inl ⟨u, other, found, among⟩)
    · exact ensues.awaited n (.inr joinable)

theorem through (ensues : Ensues s s') (t : Nat) {task : Task σ} (plain : task.awaited = []) :
    Ensues s (s'.setTask t task) := by
  refine ensues.setTask t task fun n among => ?_
  rw [plain] at among
  cases among

/-- Tasks were added that wait for nobody yet. -/
theorem add (ensues : Ensues s s') {new : List (Task σ)} (tasks : s''.tasks = s'.tasks ++ new)
    (loop : ∀ n, s''.loop = some n → s'.loop = some n ∨
      s'.tasks.length ≤ n ∧ n < s''.tasks.length)
    (now : s'.world.now ≤ s''.world.now) (plain : ∀ task ∈ new, task.awaited = []) :
    Ensues s s'' where
  now := Nat.le_trans ensues.now now
  length := by
    have order := ensues.length
    rw [tasks, List.length_append]
    omega
  awaited n awaited := by
    have order := ensues.length
    have more : s'.tasks.length ≤ s''.tasks.length := by
      rw [tasks, List.length_append]
      omega
    have before : s'.Awaited n ∨ s'.tasks.length ≤ n ∧ n < s''.tasks.length := by
      rcases awaited with ⟨u, task, found, among⟩ | joinable
      · rw [task?, tasks, List.getElem?_append] at found
        split at found
        · exact .inl (.inl ⟨u, task, found, among⟩)
        · rw [plain task (List.mem_of_getElem? found)] at among
          cases among
      · exact (loop n joinable).imp_left .inr
    rcases before with before | ⟨lower, upper⟩
    · rcases ensues.awaited n before with before | ⟨lower, upper⟩
      · exact .inl before
      · exact .inr ⟨lower, by omega⟩
    · exact .inr ⟨by omega, upper⟩

theorem spawn (ensues : Ensues s s') (delay : Nat) (job : Job σ) :
    Ensues s (s'.spawn delay job) :=
  ensues.add rfl (fun _ => .inl) (Nat.le_refl _) (by simp [Task.awaited])

theorem adoptLoops (ensues : Ensues s s') : Ensues s s'.adoptLoops := by
  refine ensues.add rfl (fun n joinable => ?_) (Nat.le_refl _) fun task member => ?_
  · simp only [Session.adoptLoops] at joinable ⊢
    split at joinable
    · exact .inl joinable
    · obtain rfl := Option.some.inj joinable
      rw [List.length_append, List.length_replicate]
      exact .inr ⟨by omega, by omega⟩
  · rw [List.eq_of_mem_replicate member]
    rfl

theorem perform (ensues : Ensues s s') (script : Script σ) :
    Ensues s (s'.perform script).1 := by
  refine adoptLoops (ensues.of_eq rfl rfl ?_)
  exact Nat.le_of_eq (run_now s'.plan s'.fuel script s'.world).symm

theorem endRefresh (ensues : Ensues s s') (t : Nat) (purpose : Purpose)
    (result : Except ConfigError Tree) : Ensues s (s'.endRefresh t purpose result) := by
  obtain ⟨task, ends, ended⟩ := endRefresh_spec s' t purpose result
  rw [ends]
  exact ensues.through t ended.awaited

theorem land (ensues : Ensues s s') (f : Nat) (flight : Flight) : Ensues s (s'.land f flight) :=
  ensues.of_eq rfl rfl (Nat.le_refl _)

theorem crash (ensues : Ensues s s') (t f : Nat) (stop : Stop) : Ensues s (s'.crash t f stop) :=
  (ensues.land f .abandoned).through t rfl

theorem lead (ensues : Ensues s s') (t : Nat) (purpose : Purpose) (f : Nat) (fetched : Fetched) :
    Ensues s (s'.lead t purpose f fetched) := by
  rcases fetched with ⟨pace, progress⟩ | fetched
  · cases pace <;> exact ensues.through t rfl
  · rw [Session.lead]
    split
    · exact ensues.crash t f .panicked
    · have now := conclude_now s'.plan s'.fuel fetched s'.world
      have adopted (w : World σ) (same : w.now = s'.world.now) :
          Ensues s (Session.adoptLoops { s' with world := w }) :=
        adoptLoops (ensues.of_eq rfl rfl (Nat.le_of_eq same.symm))
      generalize (conclude s'.plan s'.fuel fetched).run.run s'.world = ran at now ⊢
      rcases ran with ⟨stop | result, w⟩
      · exact (adopted w now).crash t f stop
      · exact ((adopted w now).land f (.settled result)).endRefresh t purpose result

theorem beginRefresh (ensues : Ensues s s') (t : Nat) (purpose : Purpose) :
    Ensues s (s'.beginRefresh t purpose) := by
  rw [Session.beginRefresh]
  split
  · exact ensues.endRefresh t purpose _
  · split
    · exact ensues.through t rfl
    · have began : Ensues s s'.begun :=
        ensues.of_eq rfl rfl (Nat.le_of_eq s'.begun_now.symm)
      exact began.lead t purpose _ _

theorem tick (ensues : Ensues s s') (t due : Nat) : Ensues s (s'.tick t due) := by
  rw [Session.tick]
  split
  · exact ensues.through t rfl
  · split
    · exact ensues.through t rfl
    · split
      · exact ensues.beginRefresh t _
      · exact ensues.through t rfl

theorem checkChild (ensues : Ensues s s') (t : Nat) {child : Nat} (deadline : Nat)
    (known : s.Awaited child ∨ s.tasks.length ≤ child ∧ child < s'.tasks.length) :
    Ensues s (s'.checkChild t child deadline) := by
  rw [checkChild_eq]
  refine ensues.setTask t _ fun n among => ?_
  obtain rfl := awaited_waited among
  exact known

theorem checkLoop (ensues : Ensues s s') (t : Nat) {loop : Nat}
    (known : s.Awaited loop ∨ s.tasks.length ≤ loop ∧ loop < s'.tasks.length) :
    Ensues s (s'.checkLoop t loop) := by
  rw [Session.checkLoop]
  split
  · exact ensues.through t rfl
  · exact ensues.through t rfl
  · refine ensues.setTask t _ fun n among => ?_
    obtain rfl := List.mem_singleton.1 among
    exact known

theorem gather (ensues : Ensues s s') (t : Nat) {tasks pending : List Nat}
    (known : ∀ n ∈ tasks ++ pending,
      s.Awaited n ∨ s.tasks.length ≤ n ∧ n < s'.tasks.length) :
    Ensues s (s'.gather t tasks pending) := by
  rw [Session.gather]
  split
  · exact ensues.through t rfl
  · refine ensues.setTask t _ fun n among => known n ?_
    rcases List.mem_append.1 among with among | among
    · exact List.mem_append_left _ among
    · exact List.mem_append_right _ ((List.dropWhile_sublist _).mem among)

theorem beginGet (s : Session σ) (t : Nat) : Ensues s (s.beginGet t) := by
  rw [Session.beginGet]
  split
  · exact (refl s).through t rfl
  · refine ((refl s).spawn 0 .refresh).checkChild t _ (.inr ⟨Nat.le_refl _, ?_⟩)
    simp [Session.spawn]

theorem beginJob (s : Session σ) (t : Nat) (job : Job σ) : Ensues s (s.beginJob t job) := by
  have same := refl s
  cases job with
  | refresh => exact same.beginRefresh t .once
  | getOrRefresh => exact beginGet s t
  | loop => exact same.tick t s.world.now
  | perform script => exact (same.perform script).through t rfl
  | pause millis =>
    rw [Session.beginJob]
    split <;> exact same.through t rfl
  | abort target =>
    rw [Session.beginJob]
    split
    · exact same.through t rfl
    · have doomed : Ensues s { s with doomed := s.doomed ++ [target] } :=
        same.of_eq rfl rfl (Nat.le_refl _)
      exact doomed.through t rfl
  | join =>
    rw [Session.beginJob]
    split
    next loop joinable =>
      have forgotten : Ensues s { s with loop := none } := by
        refine ⟨Nat.le_refl _, Nat.le_refl _, fun n awaited => ?_⟩
        rcases awaited with waits | ⟨⟨⟩⟩
        exact .inl (.inl waits)
      exact forgotten.checkLoop t (.inl (.inr joinable))
    · exact same.through t rfl
  | concurrently jobs =>
    rw [Session.beginJob]
    have added : Ensues s (s.spawnAll jobs).1 := by
      refine same.add rfl (fun _ => .inl) (Nat.le_refl _) fun task member => ?_
      obtain ⟨entry, -, rfl⟩ := List.mem_map.1 member
      rfl
    refine added.gather t fun n among => .inr ?_
    simp only [List.mem_append, or_self, List.mem_map, List.mem_range] at among
    obtain ⟨place, lower, rfl⟩ := among
    simp only [Session.spawnAll, List.length_append, List.length_map]
    omega

theorem drop (s : Session σ) (t : Nat) : Ensues s (s.drop t) := by
  have spared : Ensues s { s with doomed := s.doomed.filter (· != t) } :=
    (refl s).of_eq rfl rfl (Nat.le_refl _)
  rw [Session.drop]
  split
  · exact spared
  · exact spared
  · exact (spared.land _ _).through t rfl
  · exact spared.through t rfl

theorem turn (s : Session σ) (t : Nat) : Ensues s (s.turn t) := by
  have same := refl s
  rw [Session.turn]
  split
  · exact drop s t
  · cases found : s.task? t with
    | none => exact same
    | some task =>
      -- those for whom the task waits already may go on to be waited for
      have known {n : Nat} (among : n ∈ task.awaited) : s.Awaited n :=
        .inl ⟨t, task, found, among⟩
      cases task with
      | fresh delay job =>
        dsimp only
        split
        · exact beginJob s t job
        · exact same.through t rfl
      | sleeping deadline job =>
        dsimp only
        split
        · exact beginJob s t job
        · exact same
      | leading purpose f deadline progress =>
        dsimp only
        split
        · have goesOn : Ensues s (s.resumed progress) :=
            same.of_eq rfl rfl (Nat.le_of_eq (s.resumed_now progress).symm)
          exact goesOn.lead t purpose f _
        · exact same
      | following purpose f =>
        dsimp only
        split
        · exact same.endRefresh t purpose _
        · exact same
        · exact same.endRefresh t purpose _
        · exact same.endRefresh t purpose _
      | awaiting child deadline =>
        exact same.checkChild t deadline (.inl (known List.mem_cons_self))
      | ticking due => exact same.tick t due
      | joining loop => exact same.checkLoop t (.inl (known List.mem_cons_self))
      | gathering tasks pending => exact same.gather t fun n among => .inl (known among)
      | _ => exact same

theorem step (s : Session σ) (m : Move σ) : Ensues s (s.step m) := by
  have same := refl s
  cases m with
  | passTo moment => exact same.of_eq rfl rfl (Nat.le_max_left _ _)
  | spawn delay job => exact same.spawn delay job
  | turn t => exact turn s t
  | perform script => exact same.perform script

theorem after (s : Session σ) (moves : List (Move σ)) : Ensues s (s.after moves) := by
  induction moves generalizing s with
  | nil => exact refl s
  | cons m rest ih => exact (step s m).trans (ih (s.step m))

end Ensues

/-- Only tasks that are there are waited for. -/
theorem lt_of_awaited {plan : Plan σ} {fuel : Nat} {surroundings : σ} {moves : List (Move σ)}
    (awaited : ((fresh plan fuel surroundings).after moves).Awaited n) :
    n < ((fresh plan fuel surroundings).after moves).tasks.length := by
  rcases (Ensues.after (fresh plan fuel surroundings) moves).awaited n awaited with before | new
  · rcases before with ⟨u, task, ⟨⟩, -⟩ | ⟨⟨⟩⟩
  · exact new.2

/-- A task that nobody waits for is not waited for later either. -/
theorem not_awaited_after (here : n < s.tasks.length) (unheeded : ¬ s.Awaited n)
    (moves : List (Move σ)) : ¬ (s.after moves).Awaited n := by
  intro awaited
  rcases (Ensues.after s moves).awaited n awaited with before | ⟨lower, -⟩
  · exact unheeded before
  · omega

end Session

end LayeredConfig.Live
