import LayeredConfig.Proofs.Live.Ensuing
import Mathlib.Data.List.Basic
/-!
# Sessions that differ in one task

Two sessions are the same but for one task, and nobody waits for that one. Then every turn of
another task does the same in both, and so does everything else that can happen: they stay the same
but for the one task. It does not matter what the two tasks are, nor whether they are to be dropped.
-/
namespace LayeredConfig.Live.Session

variable {σ : Type} {a b : Session σ} {n t : Nat} {task : Task σ}

/-- The second session is the first one with `task` in the place of task `n`. In whether that is to
be dropped they may differ as well. -/
def SameBut (n : Nat) (task : Task σ) (a b : Session σ) : Prop :=
  n < a.tasks.length ∧ ∃ doomed, b = { a with tasks := a.tasks.set n task, doomed } ∧
    ∀ u ≠ n, u ∈ doomed ↔ u ∈ a.doomed

namespace SameBut

theorem refl (found : a.task? n = some task) : SameBut n task a a := by
  obtain ⟨here, rfl⟩ := List.getElem?_eq_some_iff.1 found
  refine ⟨here, a.doomed, ?_, fun _ _ => .rfl⟩
  rw [List.set_getElem_self]

theorem there (same : SameBut n task a b) : b.task? n = some task := by
  obtain ⟨here, doomed, rfl, -⟩ := same
  exact List.getElem?_set_self here

theorem world (same : SameBut n task a b) : b.world = a.world := by
  obtain ⟨-, doomed, rfl, -⟩ := same
  rfl

theorem flights (same : SameBut n task a b) : b.flights = a.flights := by
  obtain ⟨-, doomed, rfl, -⟩ := same
  rfl

theorem plan (same : SameBut n task a b) : b.plan = a.plan := by
  obtain ⟨-, doomed, rfl, -⟩ := same
  rfl

theorem length (same : SameBut n task a b) : b.tasks.length = a.tasks.length := by
  obtain ⟨-, doomed, rfl, -⟩ := same
  exact List.length_set

theorem loop (same : SameBut n task a b) : b.loop = a.loop := by
  obtain ⟨-, doomed, rfl, -⟩ := same
  rfl

theorem doomed (same : SameBut n task a b) {u : Nat} (other : u ≠ n) :
    b.doomed.contains u = a.doomed.contains u := by
  obtain ⟨-, doomed, rfl, agree⟩ := same
  rw [Bool.eq_iff_iff, List.contains_iff_mem, List.contains_iff_mem]
  exact agree u other

theorem task? (same : SameBut n task a b) {u : Nat} (other : u ≠ n) : b.task? u = a.task? u := by
  obtain ⟨-, doomed, rfl, -⟩ := same
  exact List.getElem?_set_ne (Ne.symm other)

theorem outcome? (same : SameBut n task a b) {u : Nat} (other : u ≠ n) :
    b.outcome? u = a.outcome? u := by
  rw [Session.outcome?, Session.outcome?, same.task? other]

/-! ### What is done to one of the two -/

/-- The first of two sessions has changed in the one task only. -/
theorem left {a' : Session σ} {task' : Task σ} (same : SameBut n task a b)
    (alone : SameBut n task' a a') : SameBut n task a' b := by
  obtain ⟨here, doomed, rfl, agree⟩ := same
  obtain ⟨-, doomed', rfl, agree'⟩ := alone
  refine ⟨by rwa [List.length_set], doomed, ?_, fun u other => ?_⟩
  · rw [List.set_set]
  · exact (agree u other).trans (agree' u other).symm

/-- The second of two sessions has changed in the one task only. -/
theorem right {b' : Session σ} {task' : Task σ} (same : SameBut n task a b)
    (alone : SameBut n task' b b') : SameBut n task' a b' := by
  obtain ⟨here, doomed, rfl, agree⟩ := same
  obtain ⟨-, doomed', rfl, agree'⟩ := alone
  refine ⟨here, doomed', ?_, fun u other => ?_⟩
  · rw [List.set_set]
  · exact (agree' u other).trans (agree u other)

theorem alone (here : n < a.tasks.length) (task : Task σ) : SameBut n task a (a.setTask n task) :=
  ⟨here, a.doomed, rfl, fun _ _ => .rfl⟩

/-! ### What is done to both -/

theorem setTask (same : SameBut n task a b) (other : t ≠ n) (new : Task σ) :
    SameBut n task (a.setTask t new) (b.setTask t new) := by
  obtain ⟨here, doomed, rfl, agree⟩ := same
  refine ⟨by rwa [Session.setTask, List.length_set], doomed, ?_, agree⟩
  simp only [Session.setTask, List.set_comm new task other]

/-- What happens to the world and to refreshes leaves tasks alone. -/
theorem within (same : SameBut n task a b) (w : World σ) (flights : Array Flight) :
    SameBut n task { a with world := w, flights } { b with world := w, flights } := by
  obtain ⟨here, doomed, rfl, agree⟩ := same
  exact ⟨here, doomed, rfl, agree⟩

/-- Tasks are added to both. -/
theorem add (same : SameBut n task a b) (new : List (Task σ)) :
    SameBut n task { a with tasks := a.tasks ++ new } { b with tasks := b.tasks ++ new } := by
  obtain ⟨here, doomed, rfl, agree⟩ := same
  refine ⟨?_, doomed, ?_, agree⟩
  · rw [List.length_append]
    exact Nat.lt_add_right _ here
  · simp only [List.set_append_left n task here]

theorem adoptLoops (same : SameBut n task a b) : SameBut n task a.adoptLoops b.adoptLoops := by
  obtain ⟨here, doomed, rfl, agree⟩ := same
  refine ⟨?_, doomed, ?_, agree⟩
  · rw [Session.adoptLoops, List.length_append]
    exact Nat.lt_add_right _ here
  · simp only [Session.adoptLoops, List.length_append, List.length_set,
      List.set_append_left n task here]

theorem endRefresh (same : SameBut n task a b) (other : t ≠ n) (purpose : Purpose)
    (result : Except ConfigError Tree) :
    SameBut n task (a.endRefresh t purpose result) (b.endRefresh t purpose result) := by
  cases purpose with
  | once => exact same.setTask other _
  | periodic due =>
    simp only [Session.endRefresh, same.world]
    exact same.setTask other _

theorem land (same : SameBut n task a b) (f : Nat) (flight : Flight) :
    SameBut n task (a.land f flight) (b.land f flight) := by
  simp only [Session.land, setFlight, same.world, same.flights]
  exact same.within _ _

theorem crash (same : SameBut n task a b) (other : t ≠ n) (f : Nat) (stop : Stop) :
    SameBut n task (a.crash t f stop) (b.crash t f stop) :=
  (same.land f .abandoned).setTask other _

theorem lead (same : SameBut n task a b) (other : t ≠ n) (purpose : Purpose) (f : Nat)
    (fetched : Fetched) :
    SameBut n task (a.lead t purpose f fetched) (b.lead t purpose f fetched) := by
  obtain ⟨_, doomed, rfl, _⟩ := id same
  rcases fetched with ⟨pace, progress⟩ | fetched
  · cases pace <;> exact same.setTask other _
  · simp only [Session.lead]
    by_cases broken : brokeDown fetched = true
    · rw [if_pos broken, if_pos broken]
      exact same.crash other f .panicked
    · rw [if_neg broken, if_neg broken]
      -- both conclude the refresh in the same world
      generalize (conclude a.plan a.fuel fetched).run.run a.world = ran
      have adopted := (same.within ran.2 a.flights).adoptLoops
      rcases ran with ⟨stop | result, w⟩
      · exact adopted.crash other f stop
      · exact (adopted.land f (.settled result)).endRefresh other purpose result

theorem beginRefresh (same : SameBut n task a b) (other : t ≠ n) (purpose : Purpose) :
    SameBut n task (a.beginRefresh t purpose) (b.beginRefresh t purpose) := by
  obtain ⟨_, doomed, rfl, _⟩ := id same
  simp only [Session.beginRefresh]
  by_cases closed : a.world.config.closed = true
  · rw [if_pos closed, if_pos closed]
    exact same.endRefresh other purpose _
  · rw [if_neg closed, if_neg closed]
    cases a.world.config.inFlight with
    | some f => exact same.setTask other _
    | none =>
      have began := same.within ((fetch a.plan).run a.marked).2 (a.flights.push .underWay)
      exact began.lead other purpose _ _

theorem tick (same : SameBut n task a b) (other : t ≠ n) (due : Nat) :
    SameBut n task (a.tick t due) (b.tick t due) := by
  obtain ⟨_, doomed, rfl, _⟩ := id same
  simp only [Session.tick]
  cases a.plan.refreshInterval with
  | none => exact same.setTask other _
  | some period =>
    by_cases closed : a.world.config.closed = true
    · simp only [if_pos closed]
      exact same.setTask other _
    · by_cases now : due ≤ a.world.now
      · simp only [if_neg closed, if_pos now]
        exact same.beginRefresh other _
      · simp only [if_neg closed, if_neg now]
        exact same.setTask other _

/-- Whoever waits for another task than the one in question hears the same. -/
theorem checkChild (same : SameBut n task a b) (other : t ≠ n) {child : Nat} (heeds : child ≠ n)
    (deadline : Nat) :
    SameBut n task (a.checkChild t child deadline) (b.checkChild t child deadline) := by
  have waited : b.waited child deadline = a.waited child deadline := by
    rw [Session.waited, Session.waited, same.outcome? heeds, same.world, same.plan]
  rw [checkChild_eq, checkChild_eq, waited]
  exact same.setTask other _

theorem checkLoop (same : SameBut n task a b) (other : t ≠ n) {loop : Nat} (heeds : loop ≠ n) :
    SameBut n task (a.checkLoop t loop) (b.checkLoop t loop) := by
  rw [Session.checkLoop, Session.checkLoop, same.outcome? heeds]
  cases a.outcome? loop with
  | none => exact same.setTask other _
  | some outcome => cases outcome <;> exact same.setTask other _

theorem gather (same : SameBut n task a b) (other : t ≠ n) {tasks pending : List Nat}
    (heeds : n ∉ tasks ++ pending) :
    SameBut n task (a.gather t tasks pending) (b.gather t tasks pending) := by
  have heard : ∀ u ∈ tasks ++ pending, b.outcome? u = a.outcome? u := by
    intro u among
    refine same.outcome? ?_
    rintro rfl
    exact heeds among
  obtain ⟨ofTasks, ofPending⟩ := List.forall_mem_append.1 heard
  have waits : (pending.dropWhile fun u => (b.outcome? u).isSome) =
      pending.dropWhile fun u => (a.outcome? u).isSome := by
    clear heeds heard
    induction pending with
    | nil => rfl
    | cons u rest ih =>
      obtain ⟨first, later⟩ := List.forall_mem_cons.1 ofPending
      rw [List.dropWhile_cons, List.dropWhile_cons, first, ih later]
  rw [Session.gather, Session.gather, waits, List.filterMap_congr ofTasks]
  cases pending.dropWhile fun u => (a.outcome? u).isSome with
  | nil => exact same.setTask other _
  | cons u rest => exact same.setTask other _

theorem beginGet (same : SameBut n task a b) (other : t ≠ n) :
    SameBut n task (a.beginGet t) (b.beginGet t) := by
  have spawned := same.add [.fresh 0 .refresh]
  have new : a.tasks.length ≠ n := by
    obtain ⟨here, -⟩ := same
    omega
  rw [Session.beginGet, Session.beginGet, same.world, same.length, same.plan]
  cases a.world.config.current with
  | some tree => exact same.setTask other _
  | none => exact spawned.checkChild other new _

theorem perform (same : SameBut n task a b) (script : Script σ) :
    SameBut n task (a.perform script).1 (b.perform script).1 ∧
      (b.perform script).2 = (a.perform script).2 := by
  obtain ⟨_, doomed, rfl, _⟩ := id same
  refine ⟨?_, rfl⟩
  exact (same.within ((run a.plan a.fuel script).run.run a.world).2 a.flights).adoptLoops

/-- Other tasks are to be dropped, the same ones in both. -/
theorem redoom (same : SameBut n task a b) {others others' : List Nat}
    (agree : ∀ u ≠ n, u ∈ others' ↔ u ∈ others) :
    SameBut n task { a with doomed := others } { b with doomed := others' } := by
  obtain ⟨here, doomed, rfl, -⟩ := same
  exact ⟨here, others', rfl, agree⟩

theorem mem_doomed (same : SameBut n task a b) {u : Nat} (other : u ≠ n) :
    u ∈ b.doomed ↔ u ∈ a.doomed := by
  obtain ⟨-, doomed, rfl, agree⟩ := same
  exact agree u other

/-- Whether a task is dropped later does not depend on the one in question, unless it is that. -/
theorem abort (same : SameBut n task a b) (other : t ≠ n) (target : Nat) :
    SameBut n task (a.beginJob t (.abort target)) (b.beginJob t (.abort target)) := by
  have either (s : Session σ) : s.beginJob t (.abort target) = Session.setTask
      { s with doomed := if (s.outcome? target).isSome then s.doomed else s.doomed ++ [target] } t
      (.over (.replied .nothing)) := by
    rw [Session.beginJob]
    split <;> rfl
  rw [either, either]
  refine (same.redoom fun u differs => ?_).setTask other _
  have members := same.mem_doomed differs
  rcases Decidable.em (target = n) with rfl | aside
  · split <;> split <;> simp [members, differs]
  · rw [same.outcome? aside]
    split <;> simp [members]

theorem beginJob (same : SameBut n task a b) (other : t ≠ n) (unheeded : ¬ a.Awaited n)
    (job : Job σ) : SameBut n task (a.beginJob t job) (b.beginJob t job) := by
  cases job with
  | refresh => exact same.beginRefresh other .once
  | getOrRefresh => exact same.beginGet other
  | loop =>
    rw [Session.beginJob, Session.beginJob, same.world]
    exact same.tick other _
  | perform script =>
    obtain ⟨performed, outcome⟩ := same.perform script
    rw [Session.beginJob, Session.beginJob]
    dsimp only
    rw [outcome]
    exact performed.setTask other _
  | pause millis =>
    rw [Session.beginJob, Session.beginJob, same.world]
    split <;> exact same.setTask other _
  | abort target => exact same.abort other target
  | join =>
    rw [Session.beginJob, Session.beginJob, same.loop]
    cases joinable : a.loop with
    | none => exact same.setTask other _
    | some loop =>
      have heeds : loop ≠ n := by
        rintro rfl
        exact unheeded (.inr joinable)
      have forgotten : SameBut n task { a with loop := none } { b with loop := none } := by
        obtain ⟨here, doomed, rfl, agree⟩ := same
        exact ⟨here, doomed, rfl, agree⟩
      exact forgotten.checkLoop other heeds
  | concurrently jobs =>
    have here : n < a.tasks.length := same.1
    rw [Session.beginJob, Session.beginJob]
    simp only [Session.spawnAll, same.length]
    refine (same.add _).gather other fun among => ?_
    simp only [List.mem_append, or_self, List.mem_map] at among
    obtain ⟨place, -, rfl⟩ := among
    omega

theorem drop (same : SameBut n task a b) (other : t ≠ n) :
    SameBut n task (a.drop t) (b.drop t) := by
  have spared : SameBut n task { a with doomed := a.doomed.filter (· != t) }
      { b with doomed := b.doomed.filter (· != t) } :=
    same.redoom fun u differs => by
      rw [List.mem_filter, List.mem_filter, same.mem_doomed differs]
  rw [Session.drop, Session.drop, spared.task? other]
  split
  · exact spared
  · exact spared
  · exact (spared.land _ _).setTask other _
  · exact spared.setTask other _

/-- A turn of another task. -/
theorem turn (same : SameBut n task a b) (other : t ≠ n) (unheeded : ¬ a.Awaited n) :
    SameBut n task (a.turn t) (b.turn t) := by
  rw [Session.turn, Session.turn, same.doomed other, same.task? other, same.world, same.flights]
  by_cases doomed : a.doomed.contains t = true
  · rw [if_pos doomed, if_pos doomed]
    exact same.drop other
  · rw [if_neg doomed, if_neg doomed]
    cases found : a.task? t with
    | none => exact same
    | some old =>
      -- the other task waits for somebody else
      have heeds : n ∉ old.awaited := fun among => unheeded (.inl ⟨t, old, found, among⟩)
      cases old with
      | fresh delay job =>
        dsimp only
        split
        · exact same.beginJob other unheeded job
        · exact same.setTask other _
      | sleeping deadline job =>
        dsimp only
        split
        · exact same.beginJob other unheeded job
        · exact same
      | leading purpose f deadline progress =>
        dsimp only
        split
        · have goesOn := same.within ((progress.resume a.plan).run a.world).2 a.flights
          obtain ⟨_, doomed, rfl, _⟩ := same
          exact goesOn.lead other purpose f _
        · exact same
      | following purpose f =>
        dsimp only
        split
        · exact same.endRefresh other purpose _
        · exact same
        · exact same.endRefresh other purpose _
        · exact same.endRefresh other purpose _
      | awaiting child deadline =>
        refine same.checkChild other ?_ deadline
        rintro rfl
        exact heeds List.mem_cons_self
      | ticking due => exact same.tick other due
      | joining loop =>
        refine same.checkLoop other ?_
        rintro rfl
        exact heeds List.mem_cons_self
      | gathering tasks pending => exact same.gather other heeds
      | _ => exact same

/-- A move that is no turn of the task. -/
theorem step (same : SameBut n task a b) (unheeded : ¬ a.Awaited n) {m : Move σ}
    (other : m ≠ .turn n) : SameBut n task (a.step m) (b.step m) := by
  cases m with
  | passTo moment =>
    have passed := same.within { a.world with now := max a.world.now moment } a.flights
    obtain ⟨_, doomed, rfl, _⟩ := same
    exact passed
  | spawn delay job => exact same.add [.fresh delay job]
  | turn t => exact same.turn (fun same => other (congrArg Move.turn same)) unheeded
  | perform script => exact (same.perform script).1

end SameBut

end LayeredConfig.Live.Session
