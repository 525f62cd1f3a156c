import LayeredConfig.Live.Session
/-!
# Runs of a session

A run of a session is a list of moves, whoever decided on them. What becomes of a task that has to
wait, and what fetches do to the world, is said here once, since every move that goes on with a
refresh contains a part of one.
-/
namespace LayeredConfig.Live

variable {σ : Type}

namespace Session

/-- A configuration that nobody has used yet. -/
def fresh (plan : Plan σ) (fuel : Nat) (surroundings : σ) : Session σ where
  plan
  fuel
  world := { surroundings }

/-- The session after several moves. -/
def after (s : Session σ) (moves : List (Move σ)) : Session σ := moves.foldl step s

end Session

/-! ### What becomes of a task -/

/-- The task has no job to do any more, and has nothing to do with a refresh. -/
def Task.passive : Task σ → Bool
  | .awaiting .. | .ticking _ | .joining _ | .gathering .. | .over _ => true
  | _ => false

/-- The task of somebody who is through with a refresh. -/
def Ended (purpose : Purpose) (result : Except ConfigError Tree) (task : Task σ) : Prop :=
  match purpose with
  | .once => task = .over (.replied (Session.refreshReply result))
  | .periodic due => task = .over (.replied .nothing) ∨ task = .ticking due

theorem Ended.passive {purpose : Purpose} {result : Except ConfigError Tree} {task : Task σ}
    (ended : Ended purpose result task) : task.passive = true := by
  cases purpose with
  | once => rw [show task = _ from ended]; rfl
  | periodic due => rcases ended with rfl | rfl <;> rfl

theorem Ended.notCancelled {purpose : Purpose} {result : Except ConfigError Tree} {task : Task σ}
    (ended : Ended purpose result task) : task ≠ .over .cancelled := by
  rintro rfl
  cases purpose with
  | once => cases ended
  | periodic due => rcases ended with ⟨⟨⟩⟩ | ⟨⟨⟩⟩

namespace Session

theorem endRefresh_spec (s : Session σ) (t : Nat) (purpose : Purpose)
    (result : Except ConfigError Tree) :
    ∃ task, s.endRefresh t purpose result = s.setTask t task ∧ Ended purpose result task := by
  cases purpose with
  | once => exact ⟨_, rfl, rfl⟩
  | periodic due =>
    have either (stop : Bool) : Ended (.periodic due) result
        (if stop then .over (.replied .nothing) else .ticking due : Task σ) := by
      cases stop with
      | true => exact .inl rfl
      | false => exact .inr rfl
    exact ⟨_, rfl, either _⟩

theorem checkChild_spec (s : Session σ) (t child deadline : Nat) :
    ∃ task, s.checkChild t child deadline = s.setTask t task ∧ task.passive = true := by
  rw [checkChild]
  split
  · exact ⟨_, rfl, rfl⟩
  · exact ⟨_, rfl, rfl⟩
  · exact ⟨_, rfl, rfl⟩
  · split <;> exact ⟨_, rfl, rfl⟩

theorem checkLoop_spec (s : Session σ) (t loop : Nat) :
    ∃ task, s.checkLoop t loop = s.setTask t task ∧ task.passive = true := by
  rw [checkLoop]
  split <;> exact ⟨_, rfl, rfl⟩

theorem gather_spec (s : Session σ) (t : Nat) (tasks pending : List Nat) :
    ∃ task, s.gather t tasks pending = s.setTask t task ∧ task.passive = true := by
  rw [gather]
  split <;> exact ⟨_, rfl, rfl⟩

/-- The turn of somebody who follows a refresh. -/
theorem turn_of_following {s : Session σ} {t f : Nat} {purpose : Purpose}
    (follows : s.task? t = some (.following purpose f))
    (awake : s.doomed.contains t = false) : s.turn t =
      match s.flights[f]? with
      | some (.settled result) => s.endRefresh t purpose result
      | some .underWay => s
      | some .abandoned | none => s.endRefresh t purpose (.error .refreshAborted) := by
  rewrite [turn, if_neg (Bool.eq_false_iff.mp awake), follows]
  rfl

end Session

/-! ### What fetches do -/

/-- The event belongs to a fetch. -/
def Event.ofFetch : Event → Bool
  | .asked _ | .transformed _ => true
  | _ => false

/-- The source that the event asks. -/
def Event.asked? : Event → Option Nat
  | .asked i => some i
  | _ => none

/-- The sources that were asked. -/
def asks (events : List Event) : List Nat := events.filterMap Event.asked?

@[simp] theorem asks_append (a b : List Event) : asks (a ++ b) = asks a ++ asks b :=
  List.filterMap_append

/-- The source that a fetch waits for. -/
def Progress.source? : Progress → Option Nat
  | .source index _ => some index
  | .transformer .. => none

/-- A fetch that goes on may ask a source if that comes after the one for which it has waited. -/
def Progress.MayAsk (progress : Progress) (i : Nat) : Prop := ∃ j, progress.source? = some j ∧ j < i

/-- The source that a fetch waits for, if it is not over. -/
def Fetched.source? : Fetched → Option Nat
  | .waiting _ progress => progress.source?
  | .over _ => none

/-- A part of a fetch leads from one world to another: sources were asked, only such as may be asked
and none of them twice, and transformers, and the surroundings changed. A fetch that now waits for a
source has asked none after that one. -/
structure FetchPart (may : Nat → Prop) (w : World σ) (events : List Event)
    (part : Fetched × World σ) : Prop where
  world : ∃ surroundings, part.2 = { w with surroundings, history := events ++ w.history }
  ofFetch : ∀ e ∈ events, e.ofFetch = true
  once : (asks events).Nodup
  allowed : ∀ i ∈ asks events, may i
  upTo : ∀ j, part.1.source? = some j → may j ∧ ∀ i ∈ asks events, i ≤ j

theorem run_bind {α β : Type} (x : StateM (World σ) α) (f : α → StateM (World σ) β) (w : World σ) :
    (x >>= f).run w = (f (x.run w).1).run (x.run w).2 := rfl

namespace FetchPart

variable {plan : Plan σ} {may : Nat → Prop} {u v w : World σ} {events later : List Event}
  {part : Fetched × World σ}

/-- The part ends here, without having asked a source. -/
theorem ends (w : World σ) {result : Fetched} (none : result.source? = none) :
    FetchPart may w [] (result, w) where
  world := ⟨_, rfl⟩
  ofFetch := nofun
  once := .nil
  allowed := nofun
  upTo j waits := by
    rw [none] at waits
    cases waits

theorem mono {may' : Nat → Prop} (part' : FetchPart may w events part)
    (implies : ∀ i, may i → may' i) : FetchPart may' w events part where
  world := part'.world
  ofFetch := part'.ofFetch
  once := part'.once
  allowed i member := implies i (part'.allowed i member)
  upTo j waits := ⟨implies j (part'.upTo j waits).1, (part'.upTo j waits).2⟩

/-- Something that asks no source comes before. -/
theorem since (part' : FetchPart may v later part) {surroundings : σ}
    (before : v = { w with surroundings, history := events ++ w.history })
    (ofFetch : ∀ e ∈ events, e.ofFetch = true) (none : asks events = []) :
    FetchPart may w (later ++ events) part where
  world := by
    obtain ⟨surroundings, after⟩ := part'.world
    exact ⟨surroundings, by rw [after, before, List.append_assoc]⟩
  ofFetch e member := (List.mem_append.mp member).elim (part'.ofFetch e) (ofFetch e)
  once := by simpa [none] using part'.once
  allowed := by simpa [none] using part'.allowed
  upTo := by simpa [none] using part'.upTo

theorem throughTransformers (index : Nat) (tree : Tree) (ts : List (Transformer σ)) (w : World σ) :
    ∃ events, FetchPart may w events ((Live.throughTransformers index tree ts).run w) := by
  induction ts generalizing index tree w with
  | nil => exact ⟨[], .ends w rfl⟩
  | cons t rest ih =>
    rw [Live.throughTransformers, run_bind]
    have asked : ((askTransformer index t tree).run w).2 = { w with
        surroundings := (t.ask tree w.surroundings).2
        history := [.transformed index] ++ w.history } := rfl
    have ofFetch : ∀ e ∈ [Event.transformed index], e.ofFetch = true := by simp [Event.ofFetch]
    split
    · exact ⟨_, (ends _ rfl).since asked ofFetch rfl⟩
    · rw [run_bind]
      have taken : ∃ surroundings, ((takeTransformer t tree).run
          ((askTransformer index t tree).run w).2).2 =
            { w with surroundings, history := [.transformed index] ++ w.history } := ⟨_, rfl⟩
      obtain ⟨surroundings, taken⟩ := taken
      split
      next tree' _ =>
        obtain ⟨events, part⟩ := ih (index + 1) tree' _
        exact ⟨_, part.since taken ofFetch rfl⟩
      next e _ => exact ⟨_, (ends _ rfl).since taken ofFetch rfl⟩

/-- The first of the sources is asked in any case. -/
theorem throughSources (index : Nat) (merged : Tree) (sources : List (Source σ)) (w : World σ) :
    ∃ events, FetchPart (index ≤ ·) w events
        ((Live.throughSources plan index merged sources).run w) ∧
      (sources ≠ [] → index ∈ asks events) := by
  induction sources generalizing index merged w with
  | nil =>
    obtain ⟨events, part⟩ := throughTransformers 0 merged plan.transformers w
    exact ⟨events, part, fun some => absurd rfl some⟩
  | cons s rest ih =>
    rw [Live.throughSources, run_bind]
    have ofFetch : ∀ e ∈ [Event.asked index], e.ofFetch = true := by simp [Event.ofFetch]
    split
    · refine ⟨[.asked index], ⟨⟨_, rfl⟩, ofFetch, List.pairwise_singleton _ _, ?_, ?_⟩,
        fun _ => List.mem_singleton.mpr rfl⟩
      · simp [asks, Event.asked?]
      · intro j waits
        cases waits
        simp [asks, Event.asked?]
    · rw [run_bind]
      have taken : ∃ surroundings, ((takeSource plan s merged).run
          ((askSource plan index s).run w).2).2 =
            { w with surroundings, history := [.asked index] ++ w.history } := ⟨_, rfl⟩
      obtain ⟨surroundings, taken⟩ := taken
      split
      next merged' _ =>
        obtain ⟨events, part, _⟩ := ih (index + 1) merged' _
        obtain ⟨surroundings', after⟩ := part.world
        -- the history has the latest event first, so this one comes last
        have asked : index ∈ asks (events ++ [.asked index]) := by
          rw [asks_append]
          exact List.mem_append_right _ (List.mem_singleton.mpr rfl)
        refine ⟨events ++ [.asked index], ⟨⟨surroundings', ?_⟩, ?_, ?_, ?_, ?_⟩, fun _ => asked⟩
        · rw [after, taken, List.append_assoc]
        · intro e member
          exact (List.mem_append.mp member).elim (part.ofFetch e) (ofFetch e)
        · -- the sources that come after this one have greater numbers
          have others : ∀ i ∈ asks events, i ≠ index := fun i member =>
            Nat.ne_of_gt (part.allowed i member)
          rw [asks_append, List.nodup_append]
          exact ⟨part.once, List.pairwise_singleton _ _, fun i member j here => by
            rw [show asks [Event.asked index] = [index] from rfl, List.mem_singleton] at here
            exact here ▸ others i member⟩
        · intro i member
          rw [asks_append] at member
          rcases List.mem_append.mp member with member | member
          · exact Nat.le_of_succ_le (part.allowed i member)
          · exact Nat.le_of_eq (List.mem_singleton.mp member).symm
        · intro j waits
          obtain ⟨lower, upper⟩ := part.upTo j waits
          refine ⟨Nat.le_of_succ_le lower, fun i member => ?_⟩
          rw [asks_append] at member
          rcases List.mem_append.mp member with member | member
          · exact upper i member
          · rw [List.mem_singleton.mp member]
            exact Nat.le_of_succ_le lower
      next e _ =>
        refine ⟨[.asked index], ⟨⟨_, taken⟩, ofFetch, List.pairwise_singleton _ _, ?_, nofun⟩,
          fun _ => List.mem_singleton.mpr rfl⟩
        simp [asks, Event.asked?]

theorem fetch (plan : Plan σ) (w : World σ) :
    ∃ events, FetchPart (0 ≤ ·) w events ((Live.fetch plan).run w) ∧
      (plan.sources ≠ [] → 0 ∈ asks events) :=
  throughSources 0 .empty plan.sources w

/-- A fetch that goes on asks sources after the one for which it has waited. -/
theorem resume (plan : Plan σ) (progress : Progress) (w : World σ) :
    ∃ events, FetchPart progress.MayAsk w events ((progress.resume plan).run w) := by
  cases progress with
  | source index merged =>
    rw [Progress.resume]
    split
    · exact ⟨[], .ends w rfl⟩
    next s rest _ =>
      rw [run_bind]
      have taken : ∃ surroundings, ((takeSource plan s merged).run w).2 =
          { w with surroundings, history := [] ++ w.history } := ⟨_, rfl⟩
      obtain ⟨surroundings, taken⟩ := taken
      split
      next merged' _ =>
        obtain ⟨events, part, _⟩ := throughSources (index + 1) merged' rest _
        have later : ∀ i, index + 1 ≤ i → (Progress.source index merged).MayAsk i := fun i after =>
          ⟨index, rfl, after⟩
        exact ⟨_, (part.mono later).since taken nofun rfl⟩
      next e _ => exact ⟨_, (ends _ rfl).since taken nofun rfl⟩
  | transformer index tree =>
    rw [Progress.resume]
    split
    · exact ⟨[], .ends w rfl⟩
    next t rest _ =>
      rw [run_bind]
      have taken : ∃ surroundings, ((takeTransformer t tree).run w).2 =
          { w with surroundings, history := [] ++ w.history } := ⟨_, rfl⟩
      obtain ⟨surroundings, taken⟩ := taken
      split
      next tree' _ =>
        obtain ⟨events, part⟩ := throughTransformers (index + 1) tree' rest _
        exact ⟨_, part.since taken nofun rfl⟩
      next e _ => exact ⟨_, (ends _ rfl).since taken nofun rfl⟩

end FetchPart

end LayeredConfig.Live
