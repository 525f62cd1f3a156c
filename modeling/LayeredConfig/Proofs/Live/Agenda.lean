import LayeredConfig.Live.Publish
/-!
# Agendas

An agenda lists what is still to be done in a world, the next piece of work first. One step does the
first piece of work and puts in its place what that brings with it. Running scripts is taking such
steps one after the other; `Proofs.Live.Simulation` shows that it is nothing else. What holds at
every step therefore holds at every moment of a run, also in the middle of nested notifications.

The work that takes back a mark stands on the agenda as well. When a run is broken off, that is all
that is still done of it: `unwind`.
-/
namespace LayeredConfig.Live

variable {σ : Type}

/-- A piece of work. -/
inductive Item (σ : Type) where
  -- Goes on with a script.
  | go (script : Script σ)
  -- Calls a listener of a cell.
  | tell (cell id : Nat) (listener : Listener σ) (value : Option Value)
  -- Replaces the value of a cell, now or once its listeners are through.
  | put (cell : Nat) (value : Option Value)
  -- Replaces the value of a cell that is marked as notifying.
  | apply (cell : Nat) (value : Option Value)
  -- Turns to the next update that was put off.
  | drain (cell : Nat)
  -- Takes back the mark of a cell.
  | unmark (cell : Nat)
  -- Adds a listener to a cell and calls it at once if the cell has a value.
  | greet (cell : Nat) (listener : Listener σ)
  -- Closes a cell.
  | close (cell : Nat)
  -- Makes a cell that follows the tree.
  | derive (extract : Extractor)
  -- Closes the configuration.
  | shut
  -- Closes all sources.
  | shutSources
  -- Takes back the mark of the configuration.
  | endDispatch

namespace World

/-- The world once a listener was added to a cell. -/
def listen (w : World σ) (c : Nat) (l : Listener σ) (atOnce : Bool) : World σ :=
  (w.modifyCell c (·.register l)).log (.registered c (w.cell c).nextId atOnce)

theorem cell_listen_self (w : World σ) {c : Nat} (here : c < w.cells.length) (l : Listener σ)
    (atOnce : Bool) : (w.listen c l atOnce).cell c = (w.cell c).register l :=
  cell_modifyCell_self w here _

theorem cell_mark_listen_self (w : World σ) {c : Nat} (here : c < w.cells.length) (l : Listener σ)
    (atOnce : Bool) :
    ((w.modifyCell c .mark).listen c l atOnce).cell c = (w.cell c).mark.register l := by
  rw [cell_listen_self _ (by simpa [modifyCell] using here), cell_modifyCell_self w here]

/-- What an update of a cell has to say if it comes to its end. -/
def updateReply (w : World σ) (c : Nat) (value : Option Value) : Except ConfigError Bool :=
  if (w.cell c).closed then .error (.closed "reloadable")
  else if (w.cell c).notifying then .ok false
  else .ok !((w.cell c).value == value)

/-- What making a derived cell has to say if it comes to its end. -/
def deriveReply (w : World σ) (extract : Extractor) : Except ConfigError Nat :=
  if w.config.dispatching then .error (.reentrant "registration")
  else if w.config.closed then .error (.closed "reloadable config")
  else (seed extract w.config.current).map fun _ => w.cells.length

/-- The world with a new cell that follows the tree. -/
def follow (w : World σ) (extract : Extractor) (value : Option Value) : World σ :=
  (w.addCell { value }).modifyConfig (·.track ⟨w.config.nextId, w.cells.length, extract⟩)

end World

/-- The script that has an entry forgotten when its cell is closed. -/
def forgetOnClose (c entry : Nat) : Script σ :=
  .onClose c (.untrack entry (.done .nothing)) (.done .nothing)

/-- What a script does next. -/
def Script.step (plan : Plan σ) (w : World σ) : Script σ → List (Item σ) × World σ
  | .done _ => ([], w)
  | .panic => ([.go .panic], w)
  | .update c value next => ([.put c value, .go (next (w.updateReply c value))], w)
  | .register c name react next =>
    ([.go (next (w.cell c).nextId)], w.listen c ⟨name, react⟩ false)
  | .registerAndCall c name react next =>
    ([.greet c ⟨name, react⟩, .go (next (w.cell c).nextId)], w)
  | .deregister c listener next =>
    ([.go next], (w.modifyCell c (·.deregister listener)).log (.deregistered c listener))
  | .close c next => ([.close c, .go next], w)
  | .onClose c hook next =>
    if (w.cell c).closed then ([.go hook, .go next], w.log (.hookRan c))
    else ([.go next], w.modifyCell c fun cell => { cell with hook := some hook })
  | .look c next => ([.go (next (w.cell c).value)], w)
  | .derive extract next => ([.derive extract, .go (next (w.deriveReply extract))], w)
  | .untrack entry next => ([.go next], w.modifyConfig (·.untrack entry))
  | .tree next => ([.go (next w.config.current)], w)
  | .shut next => ([.shut, .go next], w)
  | .start next =>
    let periodic := plan.refreshInterval.isSome
    ([.go (next periodic)], if periodic then { w with loops := w.loops + 1 } else w)
  | .inspect next => ([.go (next w.surroundings)], w)
  | .alter change next => ([.go next], { w with surroundings := change w.surroundings })
  | .note listener step reply next => ([.go next], w.log (.noted listener step reply))

/-- The calls of listeners in a row. -/
def tellAll (c : Nat) (value : Option Value) (listeners : List (Nat × Listener σ)) :
    List (Item σ) :=
  listeners.map fun (id, l) => .tell c id l value

/-- The call of a new listener, if the cell has a value. -/
def welcome (w : World σ) (c id : Nat) (l : Listener σ) : List (Item σ) :=
  match (w.cell c).value with
  | some value => [.tell c id l (some value)]
  | none => []

theorem mem_welcome {w : World σ} {c id : Nat} {l : Listener σ} {i : Item σ} :
    i ∈ welcome w c id l ↔
      ∃ value, (w.cell c).value = some value ∧ i = .tell c id l (some value) := by
  rw [welcome]
  cases (w.cell c).value <;> simp

/-- One step: what the first piece of work brings with it, and the world afterwards. -/
def Item.step (plan : Plan σ) (w : World σ) : Item σ → List (Item σ) × World σ
  | .go script => script.step plan w
  | .tell c id l value => ([.go (l.react value)], w.log (.called c id l.name value))
  | .put c value =>
    if (w.cell c).closed then ([], w)
    else if (w.cell c).notifying then
      ([], (w.modifyCell c (·.defer value)).log (.deferred c value))
    else ([.apply c value, .unmark c], w.modifyCell c .mark)
  | .apply c value =>
    if (w.cell c).closed then ([], w)
    else if (w.cell c).value == value then ([.drain c], w)
    else
      (tellAll c value ((w.cell c).order.arrange (w.cell c).listeners) ++ [.drain c],
        (w.modifyCell c fun cell => { cell with value }).log (.stored c value))
  | .drain c =>
    match (w.cell c).deferred with
    | [] => ([], w)
    | value :: rest => ([.apply c value], w.modifyCell c fun cell => { cell with deferred := rest })
  | .unmark c => ([], w.modifyCell c .unmark)
  | .greet c l =>
    if (w.cell c).notifying then (welcome w c (w.cell c).nextId l, w.listen c l true)
    else
      let marked := w.modifyCell c .mark
      (welcome w c (w.cell c).nextId l ++ [.drain c, .unmark c], marked.listen c l true)
  | .close c =>
    if (w.cell c).closed then ([], w)
    else
      let shut := (w.modifyCell c .shut).log (.cellClosed c)
      match (w.cell c).hook with
      | some hook => ([.go hook], shut.log (.hookRan c))
      | none => ([], shut)
  | .derive extract =>
    if w.config.dispatching || w.config.closed then ([], w)
    else match seed extract w.config.current with
      | .error _ => ([], w)
      | .ok value =>
        ([.go (forgetOnClose w.cells.length w.config.nextId)], w.follow extract value)
  | .shut =>
    if w.config.closed then ([], w)
    else
      (w.config.tracked.map (fun t => .close t.cell) ++ [.shutSources],
        (w.modifyConfig .shut).log .configClosed)
  | .shutSources => ([], ((closeSources 0 plan.sources : Act σ Unit).run.run w).2)
  | .endDispatch => ([], w.modifyConfig ({ · with dispatching := false }))

/-- What is still done of a piece of work when everything is broken off. -/
def Item.undo (w : World σ) : Item σ → World σ
  | .unmark c => w.modifyCell c .unmark
  | .endDispatch => w.modifyConfig ({ · with dispatching := false })
  | _ => w

/-- The world once everything on an agenda was broken off. -/
def unwind (agenda : List (Item σ)) (w : World σ) : World σ :=
  agenda.foldl Item.undo w

/-- Steps lead from one agenda and world to others. -/
inductive Leads (plan : Plan σ) : List (Item σ) → World σ → List (Item σ) → World σ → Prop where
  | here {agenda w} : Leads plan agenda w agenda w
  | step {item rest w agenda' w'} :
    Leads plan ((item.step plan w).1 ++ rest) (item.step plan w).2 agenda' w' →
    Leads plan (item :: rest) w agenda' w'

namespace Leads

variable {plan : Plan σ} {a b c : List (Item σ)} {u v w : World σ}

theorem one (plan : Plan σ) (item : Item σ) (rest : List (Item σ)) (w : World σ) :
    Leads plan (item :: rest) w ((item.step plan w).1 ++ rest) (item.step plan w).2 :=
  .step .here

theorem trans (first : Leads plan a u b v) (second : Leads plan b v c w) : Leads plan a u c w := by
  induction first with
  | here => exact second
  | step _ ih => exact .step (ih second)

/-- What comes later on the agenda plays no part in what is done before. -/
theorem append (leads : Leads plan a u b v) (rest : List (Item σ)) :
    Leads plan (a ++ rest) u (b ++ rest) v := by
  induction leads with
  | here => exact .here
  | step _ ih =>
    rw [List.append_assoc] at ih
    exact .step ih

/-- Work that comes later is begun when all that comes before is done. -/
theorem split (leads : Leads plan (a ++ b) u c w) :
    (∃ left, Leads plan a u left w ∧ c = left ++ b) ∨
      ∃ v, Leads plan a u [] v ∧ Leads plan b v c w := by
  generalize whole : a ++ b = agenda at leads
  induction leads generalizing a with
  | here => exact .inl ⟨a, .here, whole.symm⟩
  | @step item rest u _ _ leads ih =>
    cases a with
    | nil =>
      cases whole
      exact .inr ⟨u, .here, .step leads⟩
    | cons first others =>
      cases whole
      rcases ih (List.append_assoc ..) with ⟨left, before, rfl⟩ | ⟨v, before, after⟩
      · exact .inl ⟨left, .step before, rfl⟩
      · exact .inr ⟨v, .step before, after⟩

/-- What every step keeps is kept all the way. -/
theorem preserves (leads : Leads plan a u b v) (P : List (Item σ) → World σ → Prop)
    (kept : ∀ item rest w, P (item :: rest) w →
      P ((item.step plan w).1 ++ rest) (item.step plan w).2)
    (start : P a u) : P b v := by
  induction leads with
  | here => exact start
  | step _ ih => exact ih (kept _ _ _ start)

end Leads

/-- Closing sources is heard of, and changes the surroundings. -/
theorem closeSources_spec (index : Nat) (sources : List (Source σ)) (w : World σ) :
    ∃ events surroundings, (∀ e ∈ events, ∃ i, e = .sourceClosed i) ∧
      ((closeSources index sources).run.run w).2 =
        { w with surroundings, history := events ++ w.history } := by
  induction sources generalizing index w with
  | nil => exact ⟨[], w.surroundings, nofun, rfl⟩
  | cons source rest ih =>
    obtain ⟨events, surroundings, closed, after⟩ := ih (index + 1)
      ({ w with surroundings := (source.close w.surroundings).2 }.log (.sourceClosed index))
    -- the history has the latest event first
    refine ⟨events ++ [.sourceClosed index], surroundings, fun e he => ?_, ?_⟩
    · rcases List.mem_append.mp he with he | he
      · exact closed e he
      · exact ⟨index, List.mem_singleton.mp he⟩
    · rw [List.append_assoc]
      exact after

/-- No step takes cells away, and the only one that adds a cell makes it follow the tree. -/
theorem Item.step_length (plan : Plan σ) (w : World σ) (item : Item σ) :
    (item.step plan w).2.cells.length = w.cells.length ∨
      ∃ extract value, item = .derive extract ∧ w.config.closed = false ∧
        seed extract w.config.current = .ok value ∧
        item.step plan w =
          ([.go (forgetOnClose w.cells.length w.config.nextId)], w.follow extract value) := by
  have modified (c : Nat) (f : Cell σ → Cell σ) :
      (w.modifyCell c f).cells.length = w.cells.length := List.length_modify ..
  cases item with
  | go script =>
    refine .inl ?_
    cases script with
    | register | deregister => exact modified _ _
    | onClose =>
      rw [Item.step, Script.step]
      split
      · rfl
      · exact modified _ _
    | start next =>
      rw [Item.step, Script.step]
      dsimp only
      split <;> rfl
    | _ => rfl
  | put =>
    refine .inl ?_
    rw [Item.step]
    split
    · rfl
    · split <;> exact modified _ _
  | apply =>
    refine .inl ?_
    rw [Item.step]
    split
    · rfl
    · split
      · rfl
      · exact modified _ _
  | drain =>
    refine .inl ?_
    rw [Item.step]
    split
    · rfl
    · exact modified _ _
  | unmark => exact .inl (modified _ _)
  | greet c l =>
    refine .inl ?_
    rw [Item.step]
    split
    · exact modified _ _
    · exact (List.length_modify ..).trans (modified c .mark)
  | close c =>
    refine .inl ?_
    rw [Item.step]
    split
    · rfl
    · dsimp only
      split <;> exact modified c .shut
  | derive extract =>
    rw [Item.step]
    split
    · exact .inl rfl
    next free =>
      split
      · exact .inl rfl
      next value gives =>
        have opened : w.config.closed = false := by
          rw [Bool.or_eq_true, not_or] at free
          simpa using free.2
        exact .inr ⟨extract, value, rfl, opened, gives, rfl⟩
  | shut =>
    refine .inl ?_
    rw [Item.step]
    split <;> rfl
  | shutSources =>
    obtain ⟨_, _, _, after⟩ := closeSources_spec 0 plan.sources w
    rw [Item.step]
    exact .inl (congrArg (fun w => w.cells.length) after)
  | tell | endDispatch => exact .inl rfl

theorem Item.step_cells (plan : Plan σ) (w : World σ) (item : Item σ) :
    w.cells.length ≤ (item.step plan w).2.cells.length := by
  rcases item.step_length plan w with same | ⟨extract, value, _, _, _, does⟩
  · exact Nat.le_of_eq same.symm
  · rw [does, World.follow, World.modifyConfig, World.addCell, List.length_append]
    exact Nat.le_add_right _ _

theorem Leads.length {plan : Plan σ} {a b : List (Item σ)} {v w : World σ}
    (leads : Leads plan a w b v) : w.cells.length ≤ v.cells.length := by
  induction leads with
  | here => exact Nat.le_refl _
  | step _ ih => exact Nat.le_trans (Item.step_cells plan _ _) ih

theorem unwind_append (a b : List (Item σ)) (w : World σ) :
    unwind (a ++ b) w = unwind b (unwind a w) :=
  List.foldl_append

/-- What is true however a piece of work is broken off is true when everything is. -/
theorem unwind_preserves (P : World σ → Prop) (undone : ∀ item w, P w → P (Item.undo w item))
    (agenda : List (Item σ)) {w : World σ} (holds : P w) : P (unwind agenda w) := by
  induction agenda generalizing w with
  | nil => exact holds
  | cons item rest ih => exact ih (undone item w holds)

/-- Breaking everything off takes back the mark of the configuration, if any. -/
theorem unwind_config (agenda : List (Item σ)) (w : World σ) :
    ∃ dispatching, (unwind agenda w).config = { w.config with dispatching } := by
  refine unwind_preserves (fun v => ∃ dispatching, v.config = { w.config with dispatching })
    (fun item v before => ?_) agenda ⟨_, rfl⟩
  obtain ⟨dispatching, same⟩ := before
  cases item with
  | endDispatch => exact ⟨false, by rw [Item.undo, World.modifyConfig, same]⟩
  | _ => exact ⟨dispatching, same⟩

theorem unwind_length (agenda : List (Item σ)) (w : World σ) :
    (unwind agenda w).cells.length = w.cells.length := by
  refine unwind_preserves (fun v => v.cells.length = w.cells.length) (fun item v same => ?_)
    agenda rfl
  cases item with
  | unmark c => exact (List.length_modify ..).trans same
  | _ => exact same

theorem unwind_history (agenda : List (Item σ)) (w : World σ) :
    (unwind agenda w).history = w.history :=
  unwind_preserves (fun v => v.history = w.history)
    (fun item v same => by cases item <;> exact same) agenda rfl

end LayeredConfig.Live
