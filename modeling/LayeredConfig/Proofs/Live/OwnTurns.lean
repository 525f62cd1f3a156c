import LayeredConfig.Proofs.Live.Coalescing
/-!
# A task changes in its own turns only

Whatever happens in a session, each move replaces at most the task whose turn it is, and adds others
behind those that there are. So a task is what its own last turn has made of it: `kept_step`.
-/
namespace LayeredConfig.Live.Session

variable {σ : Type} {s s' : Session σ} {t u : Nat} {task : Task σ}

theorem kept_append {new : List (Task σ)} (found : s.task? t = some task)
    (tasks : s'.tasks = s.tasks ++ new) : s'.task? t = some task := by
  have here : t < s.tasks.length := (List.getElem?_eq_some_iff.mp found).1
  rw [task?, tasks, List.getElem?_append_left here]
  exact found

theorem kept_setTask (found : s.task? t = some task) (other : u ≠ t) (new : Task σ) :
    (s.setTask u new).task? t = some task :=
  (List.getElem?_set_ne other).trans found

theorem kept_lead (found : s.task? t = some task) (other : u ≠ t) (purpose : Purpose) (f : Nat)
    (part : Fetched) : (s.lead u purpose f part).task? t = some task := by
  obtain ⟨new, led, tasks, _⟩ := (lead_led s u purpose f part).tasks
  rw [task?, tasks, List.getElem?_set_ne other]
  have beside : task? { s with tasks := s.tasks ++ new } t = some task := kept_append found rfl
  exact beside

theorem kept_endRefresh (found : s.task? t = some task) (other : u ≠ t) (purpose : Purpose)
    (result : Except ConfigError Tree) :
    (s.endRefresh u purpose result).task? t = some task := by
  obtain ⟨_, ends, _⟩ := endRefresh_spec s u purpose result
  rw [ends]
  exact kept_setTask found other _

theorem kept_beginRefresh (found : s.task? t = some task) (other : u ≠ t) (purpose : Purpose) :
    (s.beginRefresh u purpose).task? t = some task := by
  rw [beginRefresh]
  split
  · exact kept_endRefresh found other purpose _
  · split
    · exact kept_setTask found other _
    · have begun : s.begun.task? t = some task := found
      exact kept_lead begun other purpose _ _

theorem kept_tick (found : s.task? t = some task) (other : u ≠ t) (due : Nat) :
    (s.tick u due).task? t = some task := by
  rw [tick]
  repeat' split
  · exact kept_setTask found other _
  · exact kept_setTask found other _
  · exact kept_beginRefresh found other _
  · exact kept_setTask found other _

theorem kept_perform (found : s.task? t = some task) (script : Script σ) :
    (s.perform script).1.task? t = some task :=
  kept_append found rfl

theorem kept_beginJob (found : s.task? t = some task) (other : u ≠ t) (job : Job σ) :
    (s.beginJob u job).task? t = some task := by
  cases job with
  | refresh => exact kept_beginRefresh found other .once
  | getOrRefresh =>
    rw [beginJob, beginGet]
    split
    · exact kept_setTask found other _
    · obtain ⟨_, checks, _⟩ := checkChild_spec (s.spawn 0 .refresh) u s.tasks.length
        (s.world.now + s.plan.getTimeout)
      rw [checks]
      exact kept_setTask (kept_append found rfl) other _
  | loop => exact kept_tick found other _
  | perform script => exact kept_setTask (kept_perform found script) other _
  | pause millis =>
    rw [beginJob]
    split <;> exact kept_setTask found other _
  | abort target =>
    rw [beginJob]
    split <;> exact kept_setTask (s := { s with doomed := _ }) found other _
  | join =>
    rw [beginJob]
    split
    next loop _ =>
      obtain ⟨_, checks, _⟩ := checkLoop_spec { s with loop := none } u loop
      rw [checks]
      exact kept_setTask (s := { s with loop := none }) found other _
    · exact kept_setTask found other _
  | concurrently jobs =>
    rw [beginJob]
    obtain ⟨_, gathers, _⟩ := gather_spec (s.spawnAll jobs).1 u (s.spawnAll jobs).2
      (s.spawnAll jobs).2
    dsimp only
    rw [gathers]
    exact kept_setTask (kept_append found rfl) other _

theorem kept_drop (found : s.task? t = some task) (other : u ≠ t) :
    (s.drop u).task? t = some task := by
  rw [drop]
  split
  · exact found
  · exact found
  · exact kept_setTask (s := land { s with doomed := _ } _ _) found other _
  · exact kept_setTask (s := { s with doomed := _ }) found other _

theorem kept_turn (found : s.task? t = some task) (other : u ≠ t) :
    (s.turn u).task? t = some task := by
  rw [turn]
  split
  · exact kept_drop found other
  · split
    · exact found
    · exact found
    next delay job _ =>
      split
      · exact kept_beginJob found other job
      · exact kept_setTask found other _
    next deadline job _ =>
      split
      · exact kept_beginJob found other job
      · exact found
    next purpose f deadline progress _ =>
      split
      · have resumed : (s.resumed progress).task? t = some task := found
        exact kept_lead resumed other purpose f _
      · exact found
    next purpose f _ =>
      split
      · exact kept_endRefresh found other purpose _
      · exact found
      · exact kept_endRefresh found other purpose _
      · exact kept_endRefresh found other purpose _
    next child deadline _ =>
      obtain ⟨_, checks, _⟩ := checkChild_spec s u child deadline
      rw [checks]
      exact kept_setTask found other _
    next due _ => exact kept_tick found other due
    next loop _ =>
      obtain ⟨_, checks, _⟩ := checkLoop_spec s u loop
      rw [checks]
      exact kept_setTask found other _
    next tasks pending _ =>
      obtain ⟨_, gathers, _⟩ := gather_spec s u tasks pending
      rw [gathers]
      exact kept_setTask found other _

/-- A move that is not a turn of the task leaves it as it is. -/
theorem kept_step (found : s.task? t = some task) {m : Move σ} (other : m ≠ .turn t) :
    (s.step m).task? t = some task := by
  cases m with
  | passTo moment => exact found
  | spawn delay job => exact kept_append found rfl
  | turn u => exact kept_turn found fun same => other (congrArg Move.turn same)
  | perform script => exact kept_perform found script

end LayeredConfig.Live.Session
