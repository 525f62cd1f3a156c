import LayeredConfig.Proofs.Live.Moves
import LayeredConfig.Proofs.Live.Simulation
/-!
# What scripts leave alone

Scripts can do much, but they do not touch refreshes: which one is under way stays as it is, and no
source is asked. This holds of every script, however it ends, and of publishing, which calls
listeners. What earlier refreshes have had to do with stays as it is as well, unless a tree is
published: the tree, and what is remembered of how they ended.
-/
namespace LayeredConfig.Live

variable {σ : Type} {α : Type} {plan : Plan σ} {u v w : World σ}

/-- The same refresh is under way in both worlds, and no source was asked in between. -/
structure Apart (w w' : World σ) : Prop where
  inFlight : w'.config.inFlight = w.config.inFlight
  asks : asks w'.history = asks w.history

namespace Apart

theorem refl (w : World σ) : Apart w w := ⟨rfl, rfl⟩

theorem trans (first : Apart u v) (second : Apart v w) : Apart u w :=
  ⟨second.inFlight.trans first.inFlight, second.asks.trans first.asks⟩

end Apart

/-- The tree that the event publishes. -/
def Event.published? : Event → Option Tree
  | .published tree => some tree
  | _ => none

/-- The trees that were published. -/
def trees (events : List Event) : List Tree := events.filterMap Event.published?

@[simp] theorem trees_append (a b : List Event) : trees (a ++ b) = trees a ++ trees b :=
  List.filterMap_append

/-- Refreshes have had no effect between the two worlds, and no publishing has begun. The
configuration may have been closed. -/
structure Aloof (w w' : World σ) : Prop extends Apart w w' where
  current : w'.config.current = w.config.current
  lastRefreshed : w'.config.lastRefreshed = w.config.lastRefreshed
  lastError : w'.config.lastError = w.config.lastError
  trees : trees w'.history = trees w.history
  closed : w.config.closed = true → w'.config.closed = true
  dispatching : w'.config.dispatching = true → w.config.dispatching = true

namespace Aloof

theorem of_config (config : v.config = w.config) (asks : asks v.history = asks w.history)
    (trees : Live.trees v.history = Live.trees w.history) : Aloof w v where
  inFlight := by rw [config]
  asks
  current := by rw [config]
  lastRefreshed := by rw [config]
  lastError := by rw [config]
  trees
  closed := by rw [config]; exact id
  dispatching := by rw [config]; exact id

theorem refl (w : World σ) : Aloof w w := of_config rfl rfl rfl

theorem trans (first : Aloof u v) (second : Aloof v w) : Aloof u w where
  toApart := first.toApart.trans second.toApart
  current := second.current.trans first.current
  lastRefreshed := second.lastRefreshed.trans first.lastRefreshed
  lastError := second.lastError.trans first.lastError
  trees := second.trees.trans first.trees
  closed before := second.closed (first.closed before)
  dispatching now := first.dispatching (second.dispatching now)

end Aloof

theorem Script.step_aloof (plan : Plan σ) (w : World σ) (script : Script σ) :
    Aloof w (script.step plan w).2 := by
  cases script with
  | onClose c hook next =>
    rw [Script.step]
    split <;> exact .of_config rfl rfl rfl
  | start next =>
    rw [Script.step]
    dsimp only
    split <;> exact .of_config rfl rfl rfl
  | untrack => exact ⟨⟨rfl, rfl⟩, rfl, rfl, rfl, rfl, id, id⟩
  | _ => exact .of_config rfl rfl rfl

theorem Item.step_aloof (plan : Plan σ) (w : World σ) (item : Item σ) :
    Aloof w (item.step plan w).2 := by
  cases item with
  | go script => exact script.step_aloof plan w
  | put c value =>
    rw [Item.step]
    split
    · exact .refl w
    · split <;> exact .of_config rfl rfl rfl
  | apply c value =>
    rw [Item.step]
    split
    · exact .refl w
    · split <;> exact .of_config rfl rfl rfl
  | drain c =>
    rw [Item.step]
    split <;> exact .of_config rfl rfl rfl
  | greet c l =>
    rw [Item.step]
    split <;> exact .of_config rfl rfl rfl
  | close c =>
    rw [Item.step]
    split
    · exact .refl w
    · dsimp only
      split <;> exact .of_config rfl rfl rfl
  | derive extract =>
    rw [Item.step]
    split
    · exact .refl w
    · split
      · exact .refl w
      · exact ⟨⟨rfl, rfl⟩, rfl, rfl, rfl, rfl, id, id⟩
  | shut =>
    rw [Item.step]
    split
    · exact .refl w
    · exact ⟨⟨rfl, rfl⟩, rfl, rfl, rfl, rfl, fun _ => rfl, id⟩
  | shutSources =>
    obtain ⟨events, surroundings, closed, after⟩ := closeSources_spec 0 plan.sources w
    rw [Item.step, after]
    -- what is heard of closing sources is neither that they were asked nor of a tree
    have noAsk : Live.asks events = [] := by
      rw [Live.asks, List.filterMap_eq_nil_iff]
      intro e member
      obtain ⟨i, rfl⟩ := closed e member
      rfl
    have noTree : trees events = [] := by
      rw [trees, List.filterMap_eq_nil_iff]
      intro e member
      obtain ⟨i, rfl⟩ := closed e member
      rfl
    refine .of_config rfl ?_ ?_
    · rw [asks_append, noAsk, List.nil_append]
    · rw [trees_append, noTree, List.nil_append]
  | tell | unmark => exact .of_config rfl rfl rfl
  | endDispatch =>
    exact ⟨⟨rfl, rfl⟩, rfl, rfl, rfl, rfl, id, fun marked => absurd marked Bool.false_ne_true⟩

theorem Item.undo_aloof (w : World σ) (item : Item σ) : Aloof w (item.undo w) := by
  cases item with
  | endDispatch => exact ⟨⟨rfl, rfl⟩, rfl, rfl, rfl, rfl, id, nofun⟩
  | _ => exact .of_config rfl rfl rfl

theorem unwind_aloof (agenda : List (Item σ)) (w : World σ) : Aloof w (unwind agenda w) :=
  unwind_preserves (Aloof w) (fun item v aloof => aloof.trans (item.undo_aloof v)) agenda (.refl w)

theorem Leads.aloof {a b : List (Item σ)} (leads : Leads plan a w b v) : Aloof w v :=
  leads.preserves (fun _ v => Aloof w v)
    (fun item _ v aloof => aloof.trans (item.step_aloof plan v)) (.refl w)

/-- What every step of a run leaves alone a run leaves alone, also if it is broken off. -/
theorem Carries.aloof {agenda : List (Item σ)} {r : Except Stop α × World σ}
    (carries : Carries plan agenda w r) : Aloof w r.2 :=
  carries.preserves (Aloof w) (fun item v aloof => aloof.trans (item.step_aloof plan v))
    (fun item v aloof => aloof.trans (item.undo_aloof v)) (.refl w)

theorem run_aloof (plan : Plan σ) (fuel : Nat) (script : Script σ) (w : World σ) :
    Aloof w ((run plan fuel script).run.run w).2 :=
  ((carries plan fuel).run w script).aloof

/-! ### Publishing -/

namespace Act

variable {β : Type}

theorem apart_bind {x : Act σ α} {f : α → Act σ β} (first : Apart w (x.run.run w).2)
    (second : ∀ a v, x.run.run w = (.ok a, v) → Apart v ((f a).run.run v).2) :
    Apart w ((x >>= f).run.run w).2 := by
  rw [run_bind]
  rcases ran : x.run.run w with ⟨stop | a, v⟩
  · rwa [ran] at first
  · rw [ran] at first
    exact first.trans (second a v ran)

end Act

theorem updateAll_apart (plan : Plan σ) (fuel : Nat) (updates : List (Nat × Option Value))
    (w : World σ) :
    Apart w ((updateAll plan fuel updates).run.run w).2 := by
  induction updates generalizing w with
  | nil => exact .refl w
  | cons update rest ih =>
    obtain ⟨c, value⟩ := update
    rw [updateAll]
    exact Act.apart_bind ((carries plan fuel).update w c value).aloof.toApart fun _ v _ => ih v

theorem publish_apart (fuel : Nat) (tree : Tree) (w : World σ) :
    Apart w ((publish plan fuel tree).run.run w).2 := by
  rw [publish, Act.run_bind_of_ok (Act.run_get w)]
  dsimp only
  split
  · exact .refl w
  · split
    · exact .refl w
    · split
      · exact .refl w
      next updates _ =>
        refine Act.apart_bind ⟨rfl, rfl⟩ fun _ v _ => Act.apart_bind ⟨rfl, rfl⟩ fun _ u _ => ?_
        refine Act.apart_bind ?_ fun _ t _ => .refl t
        rw [dispatching, run_between]
        have updated := updateAll_apart plan fuel (plan.order.arrange updates)
          (u.modifyConfig ({ · with dispatching := true }))
        exact ⟨updated.inFlight, updated.asks⟩

theorem ConfigState.inFlight_ended (s : ConfigState) (now : Nat)
    (result : Except ConfigError Tree) : (s.ended now result).inFlight = s.inFlight := by
  cases result with
  | ok tree => rfl
  | error e => cases e <;> rfl

theorem conclude_apart (plan : Plan σ) (fuel : Nat) (fetched : Except ConfigError Tree)
    (w : World σ) :
    Apart w ((conclude plan fuel fetched).run.run w).2 := by
  have ended (v : World σ) (result : Except ConfigError Tree) :
      Apart v (v.modifyConfig (·.ended v.now result)) :=
    ⟨ConfigState.inFlight_ended v.config v.now result, rfl⟩
  cases fetched with
  | error e => exact ended w (.error e)
  | ok tree =>
    refine Act.apart_bind (publish_apart fuel tree w) fun result v _ => ?_
    exact Act.apart_bind (ended v result) fun _ u _ => .refl u

/-! ### Publishing that fails -/

/-- Values are computed before anything changes, so a tree that cannot be published leaves no
trace. -/
theorem publish_failed {fuel : Nat} {tree : Tree} {e : ConfigError}
    (ran : (publish plan fuel tree).run.run w = (.ok (.error e), v)) : v = w := by
  rw [publish, Act.run_bind_of_ok (Act.run_get w)] at ran
  dsimp only at ran
  split at ran
  · cases ran
    rfl
  · split at ran
    · cases ran
    · split at ran
      · cases ran
        rfl
      · -- from here on the answer is the tree
        obtain ⟨_, _, _, ran⟩ := Act.ok_of_bind ran
        obtain ⟨_, _, _, ran⟩ := Act.ok_of_bind ran
        obtain ⟨_, _, _, ran⟩ := Act.ok_of_bind ran
        cases ran

/-- Why a refresh fails whose fetch is over, if it does. -/
def World.failure? (w : World σ) : Except ConfigError Tree → Option ConfigError
  | .error e => some e
  | .ok tree =>
    if w.config.closed then some (.closed "reloadable config")
    else if w.config.current == some tree then none
    else match computeAll tree w.config.tracked with
      | .error e => some e
      | .ok _ => none

/-- If one of the values cannot be computed, nothing is published. -/
theorem publish_of_failure {tree : Tree} {e : ConfigError} (fuel : Nat)
    (fails : w.failure? (.ok tree) = some e) :
    (publish plan fuel tree).run.run w = (.ok (.error e), w) := by
  rw [publish, Act.run_bind_of_ok (Act.run_get w)]
  rw [World.failure?] at fails
  dsimp only
  split at fails
  next closed =>
    cases fails
    rw [if_pos closed]
    rfl
  next opened =>
    rw [if_neg opened]
    split at fails
    · cases fails
    next other =>
      rw [if_neg other]
      cases computes : computeAll tree w.config.tracked with
      | error e' =>
        rw [computes] at fails
        cases fails
        rfl
      | ok updates =>
        rw [computes] at fails
        cases fails

theorem conclude_of_failure {fetched : Except ConfigError Tree} {e : ConfigError} (fuel : Nat)
    (fails : w.failure? fetched = some e) : (conclude plan fuel fetched).run.run w =
      (.ok (.error e), w.modifyConfig (·.ended w.now (.error e))) := by
  cases fetched with
  | error e' =>
    cases fails
    rfl
  | ok tree =>
    rw [conclude, Act.run_bind_of_ok (publish_of_failure fuel fails)]
    rfl

/-- Of a refresh that fails only the failure is remembered. -/
theorem conclude_failed {fuel : Nat} {fetched : Except ConfigError Tree} {e : ConfigError}
    (ran : (conclude plan fuel fetched).run.run w = (.ok (.error e), v)) :
    v = w.modifyConfig (·.ended w.now (.error e)) := by
  cases fetched with
  | error e' =>
    cases ran
    rfl
  | ok tree =>
    obtain ⟨result, u, published, ran⟩ := Act.ok_of_bind ran
    obtain ⟨_, _, remembered, ran⟩ := Act.ok_of_bind ran
    cases remembered
    cases ran
    rw [publish_failed published]

end LayeredConfig.Live
