import LayeredConfig.Proofs.Live.Overtaken
import LayeredConfig.Proofs.Live.OwnTurns
import LayeredConfig.Proofs.Live.Replaced
import Mathlib.Data.List.Induction
/-!
# Giving up disturbs nobody

A call for the tree that finds none has another task refresh the configuration and waits for that,
but not for ever. Whether it hears of the outcome, gives up or is cancelled, nobody else can tell:
everything is as in the run in which the refresh is begun by itself and nobody waits for it.

The two runs are compared move by move. They differ in the one task only, and since nobody waits for
that one, no move but its own turns can depend on the difference; its own turns change nothing else.
-/
namespace LayeredConfig.Live.Session

variable {σ : Type} {s a b : Session σ} {t n child deadline : Nat} {task old : Task σ}

/-! ### Turns that concern one task only -/

/-- A task that has no refresh to lead is dropped, and that is all. -/
theorem drop_alone (found : s.task? n = some old) (apart : old.flight? = none) :
    ∃ outcome, SameBut n (.over outcome) s (s.drop n) ∧
      (old = .over outcome ∨ outcome = .cancelled) := by
  have here : n < s.tasks.length := (List.getElem?_eq_some_iff.1 found).1
  have spared : SameBut n old s { s with doomed := s.doomed.filter (· != n) } :=
    (SameBut.refl found).redoom fun u differs => by simp [differs]
  have there : n < (tasks { s with doomed := s.doomed.filter (· != n) }).length := here
  rw [drop]
  split
  next gone => cases found.symm.trans gone
  next outcome done =>
    obtain rfl := Option.some.inj (found.symm.trans done)
    exact ⟨outcome, spared, .inl rfl⟩
  next leads =>
    obtain rfl := Option.some.inj (found.symm.trans leads)
    cases apart
  next => exact ⟨.cancelled, spared.right (.alone there _), .inr rfl⟩

/-- A task that only lets some time pass. -/
inductive Idle : Task σ → Prop
  | fresh (delay : Nat) : Idle (.fresh delay (.pause 0))
  | sleeping (deadline : Nat) : Idle (.sleeping deadline (.pause 0))
  | through (outcome : Outcome) : Idle (.over outcome)

/-- A task that has not begun to get the tree. -/
inductive Calling : Task σ → Prop
  | fresh (delay : Nat) : Calling (.fresh delay .getOrRefresh)
  | sleeping (deadline : Nat) : Calling (.sleeping deadline .getOrRefresh)

/-- A task that waits for another one, or is over. -/
inductive Called (child deadline : Nat) : Task σ → Prop
  | awaiting : Called child deadline (.awaiting child deadline)
  | through (outcome : Outcome) : Called child deadline (.over outcome)

theorem called_waited (s : Session σ) (child deadline : Nat) :
    Called child deadline (s.waited child deadline) := by
  rw [waited]
  split
  · exact .through _
  · split
    · exact .through _
    · exact .awaiting

theorem idle_turn (found : s.task? n = some old) (idle : Idle old) :
    ∃ task, Idle task ∧ SameBut n task s (s.turn n) := by
  have here : n < s.tasks.length := (List.getElem?_eq_some_iff.1 found).1
  have apart : old.flight? = none := by
    cases idle <;> rfl
  rw [turn]
  split
  · obtain ⟨outcome, same, -⟩ := drop_alone found apart
    exact ⟨_, .through outcome, same⟩
  · rw [found]
    cases idle with
    | fresh delay =>
      dsimp only
      split
      · exact ⟨_, .through _, .alone here _⟩
      · exact ⟨_, .sleeping _, .alone here _⟩
    | sleeping deadline =>
      dsimp only
      split
      · exact ⟨_, .through _, .alone here _⟩
      · exact ⟨_, .sleeping deadline, .refl found⟩
    | through outcome => exact ⟨_, .through outcome, .refl found⟩

theorem called_turn (found : s.task? n = some old) (called : Called child deadline old) :
    ∃ task, Called child deadline task ∧ SameBut n task s (s.turn n) := by
  have here : n < s.tasks.length := (List.getElem?_eq_some_iff.1 found).1
  have apart : old.flight? = none := by
    cases called <;> rfl
  rw [turn]
  split
  · obtain ⟨outcome, same, -⟩ := drop_alone found apart
    exact ⟨_, .through outcome, same⟩
  · rw [found]
    cases called with
    | awaiting =>
      dsimp only
      rw [checkChild_eq]
      exact ⟨_, called_waited s child deadline, .alone here _⟩
    | through outcome => exact ⟨_, .through outcome, .refl found⟩

/-- The call begins or is dropped, or nothing happens but that it may begin to sleep. -/
theorem calling_turn (found : s.task? n = some old) (calling : Calling old) :
    (∃ child deadline task, (s.turn n).task? n = some task ∧ Called child deadline task) ∨
      ∃ task, Calling task ∧ SameBut n task s (s.turn n) := by
  have here : n < s.tasks.length := (List.getElem?_eq_some_iff.1 found).1
  have apart : old.flight? = none := by
    cases calling <;> rfl
  have begun : ∃ child deadline task,
      (s.beginGet n).task? n = some task ∧ Called child deadline task := by
    rw [beginGet]
    split
    · exact ⟨0, 0, _, (SameBut.alone here _).there, .through _⟩
    · have there : n < (s.spawn 0 .refresh).tasks.length := by
        rw [spawn, List.length_append]
        exact Nat.lt_add_right _ here
      rw [checkChild_eq]
      exact ⟨_, _, _, (SameBut.alone there _).there, called_waited _ _ _⟩
  rw [turn]
  split
  · obtain ⟨outcome, same, -⟩ := drop_alone found apart
    exact .inl ⟨0, 0, _, same.there, .through outcome⟩
  · rw [found]
    cases calling with
    | fresh delay =>
      dsimp only
      split
      · exact .inl begun
      · exact .inr ⟨_, .sleeping _, .alone here _⟩
    | sleeping deadline =>
      dsimp only
      split
      · exact .inl begun
      · exact .inr ⟨_, .sleeping deadline, .refl found⟩

/-! ### Before the call begins -/

theorem called_after (found : s.task? t = some task) (called : Called child deadline task)
    (moves : List (Move σ)) :
    ∃ task', (s.after moves).task? t = some task' ∧ Called child deadline task' := by
  induction moves generalizing s task with
  | nil => exact ⟨task, found, called⟩
  | cons m rest ih =>
    rcases Classical.em (m = .turn t) with rfl | other
    · obtain ⟨task', called', alone⟩ := called_turn found called
      exact ih alone.there called'
    · exact ih (kept_step found other) called

/-- In the first session the call has begun, or else the sessions are the same but for the call, in
whose place the second one has a task that only lets time pass. -/
def Apart (t : Nat) (a b : Session σ) : Prop :=
  (∃ child deadline task, a.task? t = some task ∧ Called child deadline task) ∨
    ∃ old task, a.task? t = some old ∧ Calling old ∧ Idle task ∧ SameBut t task a b

theorem Apart.here (apart : Apart t a b) : t < a.tasks.length := by
  rcases apart with ⟨_, _, _, found, _⟩ | ⟨_, _, found, _⟩
  · exact (List.getElem?_eq_some_iff.1 found).1
  · exact (List.getElem?_eq_some_iff.1 found).1

theorem Apart.step (apart : Apart t a b) (unheeded : ¬ a.Awaited t) (m : Move σ) :
    Apart t (a.step m) (b.step m) := by
  rcases apart with ⟨child, deadline, task, found, called⟩ | ⟨old, task, found, calling, idle, same⟩
  · exact .inl ⟨child, deadline, called_after found called [m]⟩
  · rcases Classical.em (m = .turn t) with rfl | other
    · obtain ⟨task', idle', alone'⟩ := idle_turn same.there idle
      rcases calling_turn found calling with begun | ⟨old', calling', alone⟩
      · exact .inl begun
      · exact .inr ⟨old', task', alone.there, calling', idle', (same.left alone).right alone'⟩
    · exact .inr ⟨old, task, kept_step found other, calling, idle, same.step unheeded other⟩

theorem Apart.after (apart : Apart t a b) (unheeded : ¬ a.Awaited t) (moves : List (Move σ)) :
    Apart t (a.after moves) (b.after moves) := by
  induction moves generalizing a b with
  | nil => exact apart
  | cons m rest ih =>
    exact ih (apart.step unheeded m) (not_awaited_after apart.here unheeded [m])

/-- The next turn of the task is the one in which it calls. -/
def DueToCall (s : Session σ) (t : Nat) : Prop :=
  s.doomed.contains t = false ∧ (s.task? t = some (.fresh 0 .getOrRefresh) ∨
    ∃ deadline ≤ s.world.now, s.task? t = some (.sleeping deadline .getOrRefresh))

theorem DueToCall.turn (due : s.DueToCall t) : s.turn t = s.beginGet t := by
  obtain ⟨awake, fresh | ⟨deadline, slept, sleeping⟩⟩ := due
  · rw [Session.turn, if_neg (Bool.eq_false_iff.mp awake), fresh]
    rfl
  · rw [Session.turn, if_neg (Bool.eq_false_iff.mp awake), sleeping]
    exact if_pos slept

theorem DueToCall.not_called (due : s.DueToCall t) (found : s.task? t = some task) :
    ¬ Called child deadline task := by
  obtain ⟨-, fresh | ⟨deadline, -, sleeping⟩⟩ := due
  · cases Option.some.inj (found.symm.trans fresh)
    nofun
  · cases Option.some.inj (found.symm.trans sleeping)
    nofun

/-- As long as the call has not begun, the sessions are the same but for the call. -/
theorem Apart.same (apart : Apart t a b) {moves : List (Move σ)}
    (due : (a.after moves).DueToCall t) : ∃ task, Idle task ∧ SameBut t task a b := by
  rcases apart with ⟨child, deadline, task, found, called⟩ | ⟨old, task, -, -, idle, same⟩
  · obtain ⟨task', found', called'⟩ := called_after found called moves
    exact (due.not_called found' called').elim
  · exact ⟨task, idle, same⟩

/-! ### Once the call waits -/

/-- In the first session the call waits for its child or is over. -/
def Waits (t child deadline : Nat) (a b : Session σ) : Prop :=
  ∃ old task, a.task? t = some old ∧ Called child deadline old ∧ Idle task ∧ SameBut t task a b

theorem Waits.here (waits : Waits t child deadline a b) : t < a.tasks.length := by
  obtain ⟨_, _, _, _, _, same⟩ := waits
  exact same.1

theorem Waits.step (waits : Waits t child deadline a b) (unheeded : ¬ a.Awaited t) (m : Move σ) :
    Waits t child deadline (a.step m) (b.step m) := by
  obtain ⟨old, task, found, called, idle, same⟩ := waits
  rcases Classical.em (m = .turn t) with rfl | other
  · obtain ⟨old', called', alone⟩ := called_turn found called
    obtain ⟨task', idle', alone'⟩ := idle_turn same.there idle
    exact ⟨old', task', alone.there, called', idle', (same.left alone).right alone'⟩
  · exact ⟨old, task, kept_step found other, called, idle, same.step unheeded other⟩

theorem Waits.after (waits : Waits t child deadline a b) (unheeded : ¬ a.Awaited t)
    (moves : List (Move σ)) : Waits t child deadline (a.after moves) (b.after moves) := by
  induction moves generalizing a b with
  | nil => exact waits
  | cons m rest ih =>
    exact ih (waits.step unheeded m) (not_awaited_after waits.here unheeded [m])

/-- A call that finds no tree has a task refresh the configuration, as if that had been begun in
its place. -/
theorem waits_of_due (due : a.DueToCall t) (idle : Idle task) (same : SameBut t task a b)
    (empty : a.world.config.current = none) :
    Waits t a.tasks.length (a.world.now + a.plan.getTimeout) (a.turn t) (b.spawn 0 .refresh) := by
  have spawned : SameBut t task (a.spawn 0 .refresh) (b.spawn 0 .refresh) :=
    same.add [.fresh 0 .refresh]
  have alone := SameBut.alone spawned.1
    ((a.spawn 0 .refresh).waited a.tasks.length (a.world.now + a.plan.getTimeout))
  rw [due.turn, beginGet, empty]
  dsimp only
  rw [checkChild_eq]
  exact ⟨_, task, alone.there, called_waited _ _ _, idle, spawned.left alone⟩

/-! ### What the call gives -/

theorem after_append (s : Session σ) (past future : List (Move σ)) :
    s.after (past ++ future) = (s.after past).after future :=
  List.foldl_append

theorem outcome?_of_task? {outcome : Outcome} :
    s.outcome? t = some outcome ↔ s.task? t = some (.over outcome) := by
  rw [outcome?]
  cases s.task? t with
  | none => simp
  | some task => cases task <;> simp

/-- What is decided about a call: it is dropped if somebody has aborted it, it is told how its child
has ended, or it is told that it has waited long enough. -/
def Decides (s : Session σ) (t child deadline : Nat) (outcome : Outcome) : Prop :=
  (s.doomed.contains t = true ∧ outcome = .cancelled) ∨
    (∃ ended, s.outcome? child = some ended ∧ outcome = passedOn ended) ∨
    (s.outcome? child = none ∧ deadline ≤ s.world.now ∧ outcome = timedOut s.plan)

theorem decides_of_waited {outcome : Outcome} (done : s.waited child deadline = .over outcome) :
    s.Decides t child deadline outcome := by
  rw [waited] at done
  split at done
  next ended ends =>
    cases done
    exact .inr (.inl ⟨ended, ends, rfl⟩)
  next waits =>
    split at done
    next late =>
      cases done
      exact .inr (.inr ⟨waits, late, rfl⟩)
    next => cases done

theorem turn_of_awaiting (awaits : s.task? t = some (.awaiting child deadline))
    (awake : s.doomed.contains t = false) :
    s.turn t = s.setTask t (s.waited child deadline) := by
  rw [turn, if_neg (Bool.eq_false_iff.mp awake), awaits]
  exact checkChild_eq s t child deadline

theorem decides_of_turn {outcome : Outcome} (awaits : s.task? t = some (.awaiting child deadline))
    (gave : (s.turn t).outcome? t = some outcome) : s.Decides t child deadline outcome := by
  have here : t < s.tasks.length := (List.getElem?_eq_some_iff.1 awaits).1
  have done := outcome?_of_task?.1 gave
  cases doomed : s.doomed.contains t with
  | true =>
    rw [turn, if_pos doomed] at done
    obtain ⟨ended, same, dropped⟩ := drop_alone awaits rfl
    obtain rfl : outcome = ended := by simpa using done.symm.trans same.there
    rcases dropped with ⟨⟨⟩⟩ | cancelled
    exact .inl ⟨doomed, cancelled⟩
  | false =>
    rw [turn_of_awaiting awaits doomed, (SameBut.alone here _).there] at done
    exact decides_of_waited (Option.some.inj done)

/-- What the call gives was decided at some moment. -/
theorem decided_after (found : s.task? t = some task) (called : Called child deadline task)
    (start : ∀ outcome, s.outcome? t = some outcome → s.Decides t child deadline outcome)
    (moves : List (Move σ)) {outcome : Outcome}
    (gave : (s.after moves).outcome? t = some outcome) :
    ∃ past, past <+: moves ∧ (s.after past).Decides t child deadline outcome := by
  -- by induction on the moves, the last one of which may be the turn in which it is decided
  induction moves using List.reverseRecOn generalizing outcome with
  | nil => exact ⟨[], List.prefix_rfl, start outcome gave⟩
  | append_singleton moves m ih =>
    have shorter : moves <+: moves ++ [m] := List.prefix_append moves [m]
    rw [after_append] at gave
    obtain ⟨old, found', called'⟩ := called_after found called moves
    cases called' with
    | through before =>
      have still := over_step found' m
      obtain rfl : outcome = before := by
        simpa using (outcome?_of_task?.1 gave).symm.trans still
      obtain ⟨past, prior, decides⟩ := ih (outcome?_of_task?.2 found')
      exact ⟨past, prior.trans shorter, decides⟩
    | awaiting =>
      rcases Classical.em (m = .turn t) with rfl | other
      · exact ⟨moves, shorter, decides_of_turn found' gave⟩
      · have still := kept_step found' other
        cases still.symm.trans (outcome?_of_task?.1 gave)

/-- If the child ends in time, the call is told so unless it is dropped. -/
theorem told_in_time (found : s.task? t = some task) (called : Called child deadline task)
    (start : ∀ outcome, s.outcome? t = some outcome → s.Decides t child deadline outcome)
    {past moves : List (Move σ)} (prior : past <+: moves) {ended outcome : Outcome}
    (ends : (s.after past).outcome? child = some ended)
    (inTime : (s.after past).world.now < deadline)
    (gave : (s.after moves).outcome? t = some outcome) :
    outcome = .cancelled ∨ outcome = passedOn ended := by
  obtain ⟨decided, prior', decides⟩ := decided_after found called start moves gave
  -- the child had ended when it was decided, or it was decided in time
  have order : (∃ more, decided = past ++ more) ∨ ∃ more, past = decided ++ more := by
    rcases List.prefix_or_prefix_of_prefix prior prior' with ⟨more, rfl⟩ | ⟨more, rfl⟩
    · exact .inl ⟨more, rfl⟩
    · exact .inr ⟨more, rfl⟩
  have done := outcome?_of_task?.1 ends
  rcases decides with ⟨-, cancelled⟩ | ⟨ended', ends', told⟩ | ⟨waits, late, -⟩
  · exact .inl cancelled
  · have done' := outcome?_of_task?.1 ends'
    have agree : ended' = ended := by
      rcases order with ⟨more, rfl⟩ | ⟨more, rfl⟩
      · rw [after_append, over_after done more] at done'
        cases done'
        rfl
      · rw [after_append, over_after done' more] at done
        cases done
        rfl
    exact .inr (agree ▸ told)
  · rcases order with ⟨more, rfl⟩ | ⟨more, rfl⟩
    · rw [after_append, outcome?_of_task?.2 (over_after done more)] at waits
      cases waits
    · have passes := (Ensues.after (s.after decided) more).now
      rw [← after_append] at passes
      omega

/-! ### A call among other moves -/

/-- A call for the tree in a run: after the `earlier` moves a task is added for it, and it begins
after those that come `meanwhile`. -/
structure TreeCall (σ : Type) where
  plan : Plan σ
  fuel : Nat
  surroundings : σ
  earlier : List (Move σ)
  delay : Nat
  meanwhile : List (Move σ)

namespace TreeCall

variable (c : TreeCall σ)

def start : Session σ := fresh c.plan c.fuel c.surroundings

/-- The number of the task that calls. -/
def caller : Nat := (c.start.after c.earlier).tasks.length

/-- The session when the call begins. -/
def asked : Session σ :=
  ((c.start.after c.earlier).spawn c.delay .getOrRefresh).after c.meanwhile

/-- The number of the task that refreshes for the call. -/
def refresher : Nat := c.asked.tasks.length

/-- The time until which the call waits. -/
def limit : Nat := c.asked.world.now + c.asked.plan.getTimeout

/-- The run with the call. -/
def moves (rest : List (Move σ)) : List (Move σ) :=
  c.earlier ++ .spawn c.delay .getOrRefresh :: (c.meanwhile ++ .turn c.caller :: rest)

/-- The run in which a refresh that nobody waits for is begun in place of the call. A task that only
lets time pass has the number of the call. -/
def replaced (rest : List (Move σ)) : List (Move σ) :=
  c.earlier ++ .spawn c.delay (.pause 0) :: (c.meanwhile ++ .spawn 0 .refresh :: rest)

theorem after_moves (rest : List (Move σ)) :
    c.start.after (c.moves rest) = (c.asked.turn c.caller).after rest := by
  rw [moves, after_append]
  exact after_append _ c.meanwhile (.turn c.caller :: rest)

/-- Nobody waits for the task that calls. -/
theorem unheeded : ¬ ((c.start.after c.earlier).spawn c.delay .getOrRefresh).Awaited c.caller := by
  intro awaited
  have before : (c.start.after c.earlier).Awaited c.caller := by
    rcases awaited with ⟨u, task, found, among⟩ | joinable
    · rw [task?, spawn, List.getElem?_append] at found
      split at found
      · exact .inl ⟨u, task, found, among⟩
      · obtain rfl := List.mem_singleton.1 (List.mem_of_getElem? found)
        cases among
    · exact .inr joinable
  exact Nat.lt_irrefl _ (lt_of_awaited before)

theorem apart : Apart c.caller ((c.start.after c.earlier).spawn c.delay .getOrRefresh)
    ((c.start.after c.earlier).spawn c.delay (.pause 0)) := by
  have here : c.caller < ((c.start.after c.earlier).spawn c.delay .getOrRefresh).tasks.length := by
    rw [spawn, List.length_append]
    exact Nat.lt_succ_self _
  refine .inr ⟨_, _, List.getElem?_concat_length, .fresh c.delay, .fresh c.delay, here, _, ?_,
    fun _ _ => .rfl⟩
  simp [spawn, caller]

end TreeCall

/-- Two sessions cannot be told apart by anybody but the task: all that was published, told and
remembered is the same, and so is what others do and were told. -/
def Indistinct (t : Nat) (a b : Session σ) : Prop :=
  b.world = a.world ∧ b.flights = a.flights ∧ ∀ u ≠ t, b.task? u = a.task? u

theorem SameBut.indistinct (same : SameBut t task a b) : Indistinct t a b :=
  ⟨same.world, same.flights, fun _ other => same.task? other⟩

/-- A call for the tree that has found none is noticed by nobody, and is told what it should be. -/
structure Unobtrusive (c : TreeCall σ) : Prop where
  -- It has another task refresh the configuration.
  begun : c.asked.turn c.caller = (c.asked.spawn 0 .refresh).setTask c.caller
    (if c.asked.plan.getTimeout = 0 then .over (timedOut c.asked.plan)
    else .awaiting c.refresher c.limit)
  -- Whatever becomes of it then, at every moment everything is as in the run without it.
  unnoticed : ∀ rest k, Indistinct c.caller
    (c.start.after ((c.moves rest).take k)) (c.start.after ((c.replaced rest).take k))
  -- At its turns it is told how the refresh has ended, or that the time is over, or it waits.
  turns : ∀ rest, let s := c.start.after (c.moves rest)
    s.outcome? c.caller = none → s.doomed.contains c.caller = false →
    s.turn c.caller = s.setTask c.caller (s.waited c.refresher c.limit)
  -- It gives what it was told at one of them, unless it was aborted.
  told : ∀ rest outcome, (c.start.after (c.moves rest)).outcome? c.caller = some outcome →
    ∃ past, past <+: rest ∧
      (c.start.after (c.moves past)).Decides c.caller c.refresher c.limit outcome
  -- If the refresh has ended before the time is over, that is what it gives.
  inTime : ∀ past rest ended outcome, past <+: rest →
    (c.start.after (c.moves past)).outcome? c.refresher = some ended →
    (c.start.after (c.moves past)).world.now < c.limit →
    (c.start.after (c.moves rest)).outcome? c.caller = some outcome →
    outcome = .cancelled ∨ outcome = passedOn ended

/-- The moves before a certain one, or that one and some of those after it. -/
theorem take_cases {α : Type} (before : List α) (k : Nat) :
    (∃ some, some <+: before ∧ ∀ m after, (before ++ m :: after).take k = some) ∨
      ∃ j, ∀ m after, (before ++ m :: after).take k = before ++ m :: after.take j := by
  rcases Nat.lt_or_ge before.length k with beyond | within
  · obtain ⟨j, rfl⟩ := Nat.exists_eq_add_of_lt beyond
    refine .inr ⟨j, fun m after => ?_⟩
    rw [Nat.add_assoc, List.take_length_add_append, List.take_succ_cons]
  · exact .inl ⟨before.take k, List.take_prefix k before, fun m after =>
      List.take_append_of_le_length within⟩

namespace TreeCall

variable {c : TreeCall σ} (due : c.asked.DueToCall c.caller)
  (empty : c.asked.world.config.current = none)

include due in
theorem here : c.caller < c.asked.tasks.length := by
  obtain ⟨-, fresh | ⟨_, -, sleeping⟩⟩ := due
  · exact (List.getElem?_eq_some_iff.1 fresh).1
  · exact (List.getElem?_eq_some_iff.1 sleeping).1

/-- The refresh has not had a turn yet when the call begins to wait for it. -/
theorem not_refreshed : (c.asked.spawn 0 .refresh).outcome? c.refresher = none := by
  simp [outcome?, task?, spawn, refresher]

theorem unheeded_begun : ¬ (c.asked.turn c.caller).Awaited c.caller := by
  have unheeded := not_awaited_after c.apart.here c.unheeded (c.meanwhile ++ [.turn c.caller])
  rwa [after_append] at unheeded

include due empty

theorem begun : c.asked.turn c.caller = (c.asked.spawn 0 .refresh).setTask c.caller
    (if c.asked.plan.getTimeout = 0 then .over (timedOut c.asked.plan)
    else .awaiting c.refresher c.limit) := by
  have late : c.limit ≤ c.asked.world.now ↔ c.asked.plan.getTimeout = 0 := by
    rw [limit]
    omega
  have waits : (c.asked.spawn 0 .refresh).waited c.refresher c.limit =
      if c.asked.plan.getTimeout = 0 then .over (timedOut c.asked.plan)
      else .awaiting c.refresher c.limit := by
    rw [waited_of_running not_refreshed]
    simp only [spawn, late]
  rw [due.turn, beginGet, empty]
  dsimp only
  rw [checkChild_eq]
  exact congrArg _ waits

theorem unnoticed (rest : List (Move σ)) (k : Nat) : Indistinct c.caller
    (c.start.after ((c.moves rest).take k)) (c.start.after ((c.replaced rest).take k)) := by
  rcases take_cases c.earlier k with ⟨some, -, taken⟩ | ⟨j, taken⟩
  · rw [moves, replaced, taken, taken]
    exact ⟨rfl, rfl, fun _ _ => rfl⟩
  rw [moves, replaced, taken, taken, after_append, after_append]
  change Indistinct c.caller
    (((c.start.after c.earlier).spawn c.delay .getOrRefresh).after _)
    (((c.start.after c.earlier).spawn c.delay (.pause 0)).after _)
  rcases take_cases c.meanwhile j with ⟨some, ⟨more, all⟩, taken'⟩ | ⟨i, taken'⟩
  · -- the call has not begun
    have later := due
    rw [asked, ← all, after_append] at later
    obtain ⟨task, -, same⟩ := (c.apart.after c.unheeded some).same later
    rw [taken', taken']
    exact same.indistinct
  · have later : (c.asked.after []).DueToCall c.caller := due
    obtain ⟨task, idle, same⟩ := (c.apart.after c.unheeded c.meanwhile).same later
    have waits := waits_of_due due idle same empty
    obtain ⟨_, _, _, _, _, same'⟩ := waits.after c.unheeded_begun (rest.take i)
    rw [taken', taken', after_append, after_append]
    exact same'.indistinct

theorem begun_alone : SameBut c.caller
    (if c.asked.plan.getTimeout = 0 then .over (timedOut c.asked.plan)
    else .awaiting c.refresher c.limit) (c.asked.spawn 0 .refresh) (c.asked.turn c.caller) := by
  have there : c.caller < (c.asked.spawn 0 .refresh).tasks.length := by
    rw [spawn, List.length_append]
    exact Nat.lt_add_right _ (here due)
  rw [begun due empty]
  exact .alone there _

theorem begun_called : ∃ task, (c.asked.turn c.caller).task? c.caller = some task ∧
    Called c.refresher c.limit task := by
  refine ⟨_, (begun_alone due empty).there, ?_⟩
  split
  · exact .through _
  · exact .awaiting

/-- A call that does not wait at all is told that its time is over. -/
theorem begun_decides {outcome : Outcome}
    (gave : (c.asked.turn c.caller).outcome? c.caller = some outcome) :
    (c.asked.turn c.caller).Decides c.caller c.refresher c.limit outcome := by
  have alone := begun_alone due empty
  have other : c.refresher ≠ c.caller := Nat.ne_of_gt (here due)
  have done := alone.there.symm.trans (outcome?_of_task?.1 gave)
  refine .inr (.inr ⟨by rw [alone.outcome? other, not_refreshed], ?_⟩)
  rw [alone.world, alone.plan, limit]
  split at done
  next never =>
    cases done
    exact ⟨Nat.le_of_eq (by rw [never]; rfl), rfl⟩
  next => cases done

theorem turns (rest : List (Move σ)) : let s := c.start.after (c.moves rest)
    s.outcome? c.caller = none → s.doomed.contains c.caller = false →
    s.turn c.caller = s.setTask c.caller (s.waited c.refresher c.limit) := by
  intro s waits awake
  obtain ⟨task, found, called⟩ := begun_called due empty
  obtain ⟨task', found', called'⟩ := called_after found called rest
  rw [← c.after_moves] at found'
  cases called' with
  | awaiting => exact turn_of_awaiting found' awake
  | through outcome =>
    rw [outcome?_of_task?.2 found'] at waits
    cases waits

theorem told (rest : List (Move σ)) {outcome : Outcome}
    (gave : (c.start.after (c.moves rest)).outcome? c.caller = some outcome) :
    ∃ past, past <+: rest ∧
      (c.start.after (c.moves past)).Decides c.caller c.refresher c.limit outcome := by
  obtain ⟨task, found, called⟩ := begun_called due empty
  rw [c.after_moves] at gave
  simp only [c.after_moves]
  exact decided_after found called (fun _ => begun_decides due empty) rest gave

theorem inTime {past rest : List (Move σ)} {ended outcome : Outcome} (prior : past <+: rest)
    (ends : (c.start.after (c.moves past)).outcome? c.refresher = some ended)
    (before : (c.start.after (c.moves past)).world.now < c.limit)
    (gave : (c.start.after (c.moves rest)).outcome? c.caller = some outcome) :
    outcome = .cancelled ∨ outcome = passedOn ended := by
  obtain ⟨task, found, called⟩ := begun_called due empty
  rw [c.after_moves] at ends before gave
  exact told_in_time found called (fun _ => begun_decides due empty) prior ends
    before gave

theorem unobtrusive : Unobtrusive c where
  begun := begun due empty
  unnoticed := unnoticed due empty
  turns := turns due empty
  told rest _ := told due empty rest
  inTime _ _ _ _ := inTime due empty

end TreeCall

/-- In every run, whatever else happens in it, a call for the tree gives that if there is one.
Otherwise it has the configuration refreshed and disturbs nobody: whether it is told of the outcome,
gives up or is aborted, everything else is at every moment as if a refresh had been begun by itself.
-/
theorem giving_up_disturbs_nobody (c : TreeCall σ) (due : c.asked.DueToCall c.caller) :
    (∀ tree, c.asked.world.config.current = some tree → c.asked.turn c.caller =
      c.asked.setTask c.caller (.over (.replied (refreshReply (.ok tree))))) ∧
    (c.asked.world.config.current = none → Unobtrusive c) := by
  refine ⟨fun tree loaded => ?_, fun empty => TreeCall.unobtrusive due empty⟩
  rw [due.turn, beginGet, loaded]

/-- A call that waits for two milliseconds, for a source that takes five. -/
def impatient : TreeCall Unit where
  plan := { planOf slowSource with getTimeout := 2 }
  fuel := 20
  surroundings := ()
  earlier := []
  delay := 0
  meanwhile := []

/-- The refresh begins, the call gives up, and the source answers. -/
def answeredLate : List (Move Unit) := [.turn 1, .passTo 2, .turn 0, .passTo 5, .turn 1]

theorem giving_up_disturbs_nobody_impatient :
    impatient.asked.DueToCall impatient.caller ∧ Unobtrusive impatient ∧
    (impatient.start.after (impatient.moves answeredLate)).outcome? 0 =
      some (timedOut impatient.plan) ∧
    (impatient.start.after (impatient.moves answeredLate)).outcome? 1 =
      some (.replied (refreshReply (.ok .empty))) ∧
    (impatient.start.after (impatient.replaced answeredLate)).outcome? 1 =
      some (.replied (refreshReply (.ok .empty))) := by
  have due : impatient.asked.DueToCall impatient.caller := ⟨rfl, .inl rfl⟩
  exact ⟨due, (giving_up_disturbs_nobody impatient due).2 rfl, rfl, rfl, rfl⟩

end LayeredConfig.Live.Session
