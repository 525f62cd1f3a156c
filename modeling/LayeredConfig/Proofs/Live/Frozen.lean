import LayeredConfig.Proofs.Live.Silence
/-!
# Closed cells

A cell can be closed at any moment, also by its own listeners in the middle of a round while updates
wait. From then on it stays as it is: `closed_cells_stay_as_they_are`. Updates are refused and those
that waited are forgotten, so no round begins any more. Nobody is kept as a listener, though who is
added to be called at once still is, if there is a value.

The hook of a cell runs once, when the cell is closed or, if it is set only later, when it is set.
A hook takes the place of one that was set before, so that is said of a hook that is the only one;
what is set on the way is read off the work that was done.
-/
namespace LayeredConfig.Live

variable {σ : Type} {plan : Plan σ} {c id : Nat} {item : Item σ}
  {a b new rest agenda done done' : List (Item σ)} {u v w w' : World σ}

open Story

/-! ### Values, listeners and updates that wait -/

/-- Once the cell is closed, nobody listens and no update waits. -/
def Cell.Emptied (cell : Cell σ) : Prop :=
  cell.closed = true → cell.listeners = [] ∧ cell.deferred = []

theorem Touch.emptied (touch : Touch c w item new w') (here : c < w.cells.length)
    (emptied : (w.cell c).Emptied) : (w'.cell c).Emptied := by
  have modified (f : Cell σ → Cell σ) : (w.modifyCell c f).cell c = f (w.cell c) :=
    World.cell_modifyCell_self w here f
  have opens {cell : Cell σ} (opened : (w.cell c).closed = false)
      (same : cell.closed = (w.cell c).closed) : cell.Emptied := fun closed => by
    rw [same, opened] at closed
    cases closed
  have registers (cell : Cell σ) (emptied : cell.Emptied) (l : Listener σ) :
      (cell.register l).Emptied := fun closed => by
    have closed : cell.closed = true := closed
    obtain ⟨nobody, nothing⟩ := emptied closed
    exact ⟨by simp [Cell.register, closed, nobody], nothing⟩
  cases touch with
  | aside off calm same =>
    obtain ⟨hook, same⟩ := same
    rw [same]
    exact emptied
  | told | dropped | kept | drained => exact emptied
  | deferred value opened | stored value opened =>
    rw [World.cell_log, modified]
    exact opens opened rfl
  | begun value opened =>
    rw [modified]
    exact opens opened rfl
  | turned value later waiting =>
    rw [modified]
    intro closed
    rw [(emptied closed).2] at waiting
    cases waiting
  | unmarked =>
    rw [modified]
    exact fun closed => ⟨(emptied closed).1, rfl⟩
  | registered script next l | greetedAmid l =>
    rw [World.cell_listen_self w here]
    exact registers _ emptied l
  | greeted l =>
    rw [World.cell_mark_listen_self w here]
    exact registers _ emptied l
  | deregistered script next other =>
    rw [World.cell_log, modified]
    intro closed
    obtain ⟨nobody, nothing⟩ := emptied closed
    exact ⟨by rw [Cell.deregister, nobody, List.filter_nil], nothing⟩
  | closed calm opened same =>
    rw [same]
    exact fun _ => ⟨rfl, rfl⟩

/-- Nothing is stored in a cell by a step, unless a value is applied while the cell is open. -/
theorem Touch.stores_kept (touch : Touch c w item new w') :
    stores c w'.history.reverse = stores c w.history.reverse ∨
      ∃ value, item = .apply c value ∧ (w.cell c).closed = false ∧
        stores c w'.history.reverse = stores c w.history.reverse ++ [value] := by
  have quiet (events : List Event) (history : w'.history = events ++ w.history)
      (silent : ∀ e ∈ events, e.stored? c = none) :
      stores c w'.history.reverse = stores c w.history.reverse := by
    have none : stores c events.reverse = [] :=
      List.filterMap_eq_nil_iff.mpr fun e member => silent e (List.mem_reverse.mp member)
    rw [history, List.reverse_append, stores_append, none, List.append_nil]
  cases touch with
  | aside off calm same events history silent | closed calm opened same events history silent =>
    exact .inl (quiet events history fun e member => (Event.silent (silent e member).1).1)
  | told | registered | greetedAmid | greeted | deregistered | deferred =>
    exact .inl (quiet [_] rfl (List.forall_mem_singleton.mpr rfl))
  | dropped | drained | turned | unmarked | begun | kept => exact .inl rfl
  | stored value opened =>
    refine .inr ⟨value, rfl, opened, ?_⟩
    have store : stores c [.stored c value] = [value] := by
      simp [stores, Event.stored?]
    rw [World.log, List.reverse_cons, stores_append, store]
    rfl

/-- Steps store nothing in a cell that is closed. -/
theorem Touch.stores_of_closed (touch : Touch c w item new w') (closed : (w.cell c).closed = true) :
    stores c w'.history.reverse = stores c w.history.reverse := by
  refine touch.stores_kept.resolve_right ?_
  rintro ⟨_, _, opened, _⟩
  rw [closed] at opened
  cases opened

/-- A tree that takes the place of the current one is no value of a cell. -/
theorem stores_swap (c : Nat) (w : World σ) (tree : Tree) :
    stores c (w.swap tree).history.reverse = stores c w.history.reverse := by
  have last : (w.swap tree).history.reverse = w.history.reverse ++ [.published tree] :=
    List.reverse_cons
  rw [last, stores_append]
  exact List.append_nil _

theorem Course.emptied (course : Course plan a u done b v) (emptied : ∀ c, (u.cell c).Emptied) :
    ∀ c, (v.cell c).Emptied :=
  course.preserves (fun _ _ w => ∀ c, (w.cell c).Emptied)
    (fun _ item rest w _ before c => by
      rcases Nat.lt_or_ge c w.cells.length with here | beyond
      · exact (touches plan here item).emptied here (before c)
      · rcases item.step_beyond plan w beyond with gone | ⟨_, _, _, _, _, made⟩
        · rw [gone, ← World.cell_of_beyond beyond]
          exact before c
        · rw [made]
          exact nofun)
    (fun _ agenda w before c => by
      rcases unwind_cell agenda w c with same | same <;> rw [same]
      · exact before c
      · exact fun closed => ⟨(before c closed).1, rfl⟩)
    (fun _ _ _ beside before c => by rw [beside.cell]; exact before c)
    (fun _ _ _ before => before) (fun _ _ _ _ before => before) emptied

/-- From one moment to another the value of a closed cell has stayed the same, and nothing was
stored in it. -/
structure Unchanged (c : Nat) (w v : World σ) : Prop where
  closed : (v.cell c).closed = true
  value : (v.cell c).value = (w.cell c).value
  stores : stores c v.history.reverse = stores c w.history.reverse

theorem Course.unchanged (course : Course plan a u done b v) (here : c < u.cells.length)
    (closed : (u.cell c).closed = true) : Unchanged c u v :=
  course.preserves (fun _ _ w => Unchanged c u w)
    (fun _ item rest w reached before => by
      have here := Nat.lt_of_lt_of_le here reached.length
      have touch := touches plan here item
      refine ⟨(touch.change here).closed before.closed, Eq.trans ?_ before.value,
        (touch.stores_of_closed before.closed).trans before.stores⟩
      refine touch.value.resolve_right ?_
      rintro ⟨_, _, opened⟩
      rw [before.closed] at opened
      cases opened)
    (fun _ agenda w before => by
      have same : ((unwind agenda w).cell c).closed = (w.cell c).closed ∧
          ((unwind agenda w).cell c).value = (w.cell c).value := by
        rcases unwind_cell agenda w c with same | same <;> rw [same] <;> exact ⟨rfl, rfl⟩
      exact ⟨same.1.trans before.closed, same.2.trans before.value,
        by rw [unwind_history]; exact before.stores⟩)
    (fun _ w v beside before => by
      have stored : Story.stores c v.history.reverse = Story.stores c w.history.reverse := by
        have same := beside.filterMap (·.stored? c) (fun _ => rfl) fun _ => rfl
        rw [Story.stores, List.filterMap_reverse, same, ← List.filterMap_reverse]
        rfl
      exact ⟨by rw [beside.cell]; exact before.closed, by rw [beside.cell]; exact before.value,
        stored.trans before.stores⟩)
    (fun _ _ _ before => before)
    (fun _ tree updates w before =>
      ⟨before.closed, before.value, (stores_swap c w tree).trans before.stores⟩)
    ⟨closed, rfl, rfl⟩

/-! ### Hooks -/

/-- The hooks of a cell that a piece of work sets. -/
def Item.hooks (c : Nat) : Item σ → List (Script σ)
  | .go (.onClose d hook _) => if c = d then [hook] else []
  | _ => []

/-- The hooks of a cell that were set. -/
def hooksSet (c : Nat) (done : List (Item σ)) : List (Script σ) := done.flatMap (·.hooks c)

/-- The event is a run of the hook of a cell. -/
def Event.runsHook (c : Nat) : Event → Bool
  | .hookRan d => c == d
  | _ => false

/-- How often the hook of a cell has run. -/
def hookRuns (c : Nat) (history : List Event) : Nat := history.countP (·.runsHook c)

/-- What one step has to do with the hook of a cell. -/
inductive Hooking (c : Nat) (w : World σ) : Item σ → List (Item σ) → World σ → Prop where
  | still {item : Item σ} {new : List (Item σ)} {w' : World σ} (sets : item.hooks c = [])
    (hook : (w'.cell c).hook = (w.cell c).hook)
    (closed : (w'.cell c).closed = (w.cell c).closed)
    (runs : hookRuns c w'.history = hookRuns c w.history) : Hooking c w item new w'
  | set (hook next : Script σ) (opened : (w.cell c).closed = false) :
    Hooking c w (.go (.onClose c hook next)) [.go next]
      (w.modifyCell c fun cell => { cell with hook := some hook })
  | tooLate (hook next : Script σ) (closed : (w.cell c).closed = true) :
    Hooking c w (.go (.onClose c hook next)) [.go hook, .go next] (w.log (.hookRan c))
  | closes (opened : (w.cell c).closed = false) (without : (w.cell c).hook = none) :
    Hooking c w (.close c) [] ((w.modifyCell c .shut).log (.cellClosed c))
  | runs (hook : Script σ) (opened : (w.cell c).closed = false)
    (waits : (w.cell c).hook = some hook) :
    Hooking c w (.close c) [.go hook]
      (((w.modifyCell c .shut).log (.cellClosed c)).log (.hookRan c))

namespace Hooking

/-- Events none of which is a run of the hook. -/
theorem runs_of_quiet (events : List Event) (quiet : ∀ e ∈ events, e.runsHook c = false)
    (history : w'.history = events ++ w.history) :
    hookRuns c w'.history = hookRuns c w.history := by
  have none : events.countP (·.runsHook c) = 0 :=
    List.countP_eq_zero.mpr fun e member => by simp [quiet e member]
  rw [hookRuns, history, List.countP_append, none, Nat.zero_add, hookRuns]

/-- A step that changes no cell. -/
theorem aside (sets : item.hooks c = []) (cells : w'.cells = w.cells) (events : List Event)
    (quiet : ∀ e ∈ events, e.runsHook c = false) (history : w'.history = events ++ w.history) :
    Hooking c w item new w' := by
  have same : w'.cell c = w.cell c := by rw [World.cell, cells, ← World.cell]
  exact .still sets (by rw [same]) (by rw [same]) (runs_of_quiet events quiet history)

/-- A step that changes some cell, but neither its hook nor whether it is closed. -/
theorem modified (sets : item.hooks c = []) (d : Nat) (f : Cell σ → Cell σ)
    (hook : ∀ cell, (f cell).hook = cell.hook) (closed : ∀ cell, (f cell).closed = cell.closed)
    (cells : w'.cells = (w.modifyCell d f).cells) (events : List Event)
    (quiet : ∀ e ∈ events, e.runsHook c = false) (history : w'.history = events ++ w.history) :
    Hooking c w item new w' := by
  have same : w'.cell c = (w.modifyCell d f).cell c := by rw [World.cell, cells, ← World.cell]
  refine .still sets ?_ ?_ (runs_of_quiet events quiet history)
  · rw [same, World.modifyCell_keeps Cell.hook hook]
  · rw [same, World.modifyCell_keeps Cell.closed closed]

/-- A step that changes another cell. -/
theorem other {d : Nat} {f : Cell σ → Cell σ} (ne : c ≠ d) (sets : item.hooks c = [])
    (cells : w'.cells = (w.modifyCell d f).cells) (events : List Event)
    (quiet : ∀ e ∈ events, e.runsHook c = false) (history : w'.history = events ++ w.history) :
    Hooking c w item new w' := by
  have same : w'.cell c = w.cell c := by
    rw [World.cell, cells, ← World.cell, World.cell_modifyCell_of_ne w (Ne.symm ne)]
  exact .still sets (by rw [same]) (by rw [same]) (runs_of_quiet events quiet history)

theorem script (plan : Plan σ) (script : Script σ) :
    Hooking c w (.go script) (script.step plan w).1 (script.step plan w).2 := by
  cases script with
  | onClose d hook next =>
    rw [Script.step]
    by_cases same : c = d
    · subst same
      split
      next closed => exact .tooLate hook next closed
      next opened => exact .set hook next (by simpa using opened)
    · have sets : (Item.go (.onClose d hook next) : Item σ).hooks c = [] := if_neg same
      split
      · exact .aside sets rfl [_]
          (List.forall_mem_singleton.mpr (by simp [Event.runsHook, same])) rfl
      · exact .other same sets rfl [] (List.forall_mem_nil _) rfl
  | register d name react next =>
    exact .modified rfl d (·.register ⟨name, react⟩) (fun _ => rfl) (fun _ => rfl) rfl [_]
      (List.forall_mem_singleton.mpr rfl) rfl
  | deregister d id next =>
    exact .modified rfl d (·.deregister id) (fun _ => rfl) (fun _ => rfl) rfl [_]
      (List.forall_mem_singleton.mpr rfl) rfl
  | start next =>
    rw [Script.step]
    dsimp only
    split <;> exact .aside rfl rfl [] (List.forall_mem_nil _) rfl
  | note => exact .aside rfl rfl [_] (List.forall_mem_singleton.mpr rfl) rfl
  | _ => exact .aside rfl rfl [] (List.forall_mem_nil _) rfl

theorem close (plan : Plan σ) (d : Nat) :
    Hooking c w (.close d) ((Item.close d).step plan w).1 ((Item.close d).step plan w).2 := by
  rw [Item.step]
  split
  · exact .aside rfl rfl [] (List.forall_mem_nil _) rfl
  next opened =>
    dsimp only
    by_cases same : c = d
    · subst same
      have opened : (w.cell c).closed = false := by simpa using opened
      split
      next hook waits => exact .runs hook opened waits
      next without => exact .closes opened without
    · split
      · exact .other same rfl rfl [.hookRan d, .cellClosed d] (by simp [Event.runsHook, same]) rfl
      · exact .other same rfl rfl [_] (List.forall_mem_singleton.mpr rfl) rfl

end Hooking

/-- The list of what a step can have to do with a hook is complete. -/
theorem hookings (plan : Plan σ) (here : c < w.cells.length) (item : Item σ) :
    Hooking c w item (item.step plan w).1 (item.step plan w).2 := by
  have quiet {e : Event} (off : e.runsHook c = false) : ∀ e' ∈ [e], e'.runsHook c = false :=
    List.forall_mem_singleton.mpr off
  cases item with
  | go script => exact .script plan script
  | tell => exact .aside rfl rfl [_] (quiet rfl) rfl
  | put d value =>
    rw [Item.step]
    split
    · exact .aside rfl rfl [] (List.forall_mem_nil _) rfl
    · split
      · exact .modified rfl d (·.defer value) (fun _ => rfl) (fun _ => rfl) rfl [_] (quiet rfl) rfl
      · exact .modified rfl d .mark (fun _ => rfl) (fun _ => rfl) rfl [] (List.forall_mem_nil _) rfl
  | apply d value =>
    rw [Item.step]
    split
    · exact .aside rfl rfl [] (List.forall_mem_nil _) rfl
    · split
      · exact .aside rfl rfl [] (List.forall_mem_nil _) rfl
      · exact .modified rfl d (fun cell => { cell with value }) (fun _ => rfl) (fun _ => rfl) rfl
          [_] (quiet rfl) rfl
  | drain d =>
    rw [Item.step]
    split
    · exact .aside rfl rfl [] (List.forall_mem_nil _) rfl
    next value later _ =>
      exact .modified rfl d (fun cell => { cell with deferred := later }) (fun _ => rfl)
        (fun _ => rfl) rfl [] (List.forall_mem_nil _) rfl
  | unmark d =>
    exact .modified rfl d .unmark (fun _ => rfl) (fun _ => rfl) rfl [] (List.forall_mem_nil _) rfl
  | greet d l =>
    rw [Item.step]
    split
    · exact .modified rfl d (·.register l) (fun _ => rfl) (fun _ => rfl) rfl [_] (quiet rfl) rfl
    · exact .modified rfl d (fun cell => cell.mark.register l) (fun _ => rfl) (fun _ => rfl)
        (List.modify_modify_eq ..) [_] (quiet rfl) rfl
  | close d => exact .close plan d
  | derive extract =>
    rw [Item.step]
    split
    · exact .aside rfl rfl [] (List.forall_mem_nil _) rfl
    · split
      · exact .aside rfl rfl [] (List.forall_mem_nil _) rfl
      next value _ =>
        have same : (w.follow extract value).cell c = w.cell c := by
          rw [World.follow, World.cell_modifyConfig, World.cell_addCell, if_neg (Nat.ne_of_lt here)]
        exact .still rfl (by rw [same]) (by rw [same]) rfl
  | shut =>
    rw [Item.step]
    split
    · exact .aside rfl rfl [] (List.forall_mem_nil _) rfl
    · exact .aside rfl rfl [_] (quiet rfl) rfl
  | shutSources =>
    obtain ⟨events, surroundings, closes, after⟩ := closeSources_spec 0 plan.sources w
    rw [Item.step, after]
    refine .aside rfl rfl events (fun e member => ?_) rfl
    obtain ⟨i, rfl⟩ := closes e member
    rfl
  | endDispatch => exact .aside rfl rfl [] (List.forall_mem_nil _) rfl

/-- How things stand with the hook of a cell that had none when it had run `base` times, once some
hooks were set. Nothing is said when there is more than one. -/
def HookedOnce (c base : Nat) (w : World σ) : List (Script σ) → Prop
  | [] => (w.cell c).hook = none ∧ hookRuns c w.history = base
  | [hook] =>
    (w.cell c).closed = false ∧ (w.cell c).hook = some hook ∧ hookRuns c w.history = base ∨
      (w.cell c).closed = true ∧ hookRuns c w.history = base + 1
  | _ => True

variable {base : Nat} {set : List (Script σ)}

/-- Nothing happened to the hook. -/
theorem HookedOnce.congr (once : HookedOnce c base w set) (hook : (v.cell c).hook = (w.cell c).hook)
    (closed : (v.cell c).closed = (w.cell c).closed)
    (runs : hookRuns c v.history = hookRuns c w.history) : HookedOnce c base v set := by
  match set, once with
  | [], ⟨without, ran⟩ => exact ⟨hook.trans without, runs.trans ran⟩
  | [_], .inl ⟨opened, waits, ran⟩ =>
    exact .inl ⟨closed.trans opened, hook.trans waits, runs.trans ran⟩
  | [_], .inr ⟨before, ran⟩ => exact .inr ⟨closed.trans before, runs.trans ran⟩
  | _ :: _ :: _, _ => trivial

namespace Hooking

theorem runs_log (w : World σ) : hookRuns c (w.log (.hookRan c)).history =
    hookRuns c w.history + 1 := by
  simp [World.log, hookRuns, Event.runsHook]

theorem hookedOnce (hooking : Hooking c w item new w') (here : c < w.cells.length)
    (once : HookedOnce c base w set) : HookedOnce c base w' (set ++ item.hooks c) := by
  have shut := World.cell_modifyCell_self w here .shut
  have sets (hook next : Script σ) :
      (Item.go (.onClose c hook next) : Item σ).hooks c = [hook] := if_pos rfl
  have closing {v : World σ} (cell : v.cell c = (w.cell c).shut)
      (opened : (w.cell c).closed = false)
      (runs : hookRuns c v.history = hookRuns c w.history + (w.cell c).hook.toList.length) :
      HookedOnce c base v (set ++ (Item.close c : Item σ).hooks c) := by
    rw [show (Item.close c : Item σ).hooks c = [] from rfl, List.append_nil]
    match set, once with
    | [], ⟨without, ran⟩ =>
      rw [without] at runs
      exact ⟨by rw [cell]; rfl, runs.trans ran⟩
    | [hook], .inl ⟨_, waits, ran⟩ =>
      rw [waits, ran] at runs
      exact .inr ⟨by rw [cell]; rfl, runs⟩
    | [_], .inr ⟨closed, _⟩ =>
      rw [opened] at closed
      cases closed
    | _ :: _ :: _, _ => trivial
  cases hooking with
  | still sets hook closed runs =>
    rw [sets, List.append_nil]
    exact once.congr hook closed runs
  | set hook next opened =>
    rw [sets]
    match set, once with
    | [], ⟨_, ran⟩ =>
      have now := World.cell_modifyCell_self w here fun cell => { cell with hook := some hook }
      exact .inl ⟨by rw [now]; exact opened, by rw [now], ran⟩
    | [_], _ | _ :: _ :: _, _ => trivial
  | tooLate hook next closed =>
    rw [sets]
    match set, once with
    | [], ⟨_, ran⟩ => exact .inr ⟨closed, (runs_log w).trans (by rw [ran])⟩
    | [_], _ | _ :: _ :: _, _ => trivial
  | closes opened without =>
    exact closing shut opened (by rw [without]; rfl)
  | runs hook opened waits =>
    exact closing shut opened (by rw [runs_log, waits]; rfl)

/-- It is the hook that was set that runs. -/
theorem runs_next (hooking : Hooking c w item new w') (once : HookedOnce c base w set)
    {hook : Script σ} (only : set ++ item.hooks c = [hook]) :
    hookRuns c w'.history = hookRuns c w.history ∨ new.head? = some (.go hook) := by
  cases hooking with
  | still sets hook closed runs => exact .inl runs
  | set => exact .inl rfl
  | tooLate late next =>
    have sets : (Item.go (.onClose c late next) : Item σ).hooks c = [late] := if_pos rfl
    rw [sets] at only
    cases set with
    | nil =>
      cases only
      exact .inr rfl
    | cons => simp at only
  | closes => exact .inl rfl
  | runs waiting opened waits =>
    rw [show (Item.close c : Item σ).hooks c = [] from rfl, List.append_nil] at only
    subst only
    rcases once with ⟨_, same, _⟩ | ⟨closed, _⟩
    · rw [waits] at same
      cases same
      exact .inr rfl
    · rw [opened] at closed
      cases closed

end Hooking

theorem Course.hookedOnce (course : Course plan a u done b v) (here : c < u.cells.length)
    (without : (u.cell c).hook = none) :
    HookedOnce c (hookRuns c u.history) v (hooksSet c done) :=
  course.preserves (fun done _ w => HookedOnce c (hookRuns c u.history) w (hooksSet c done))
    (fun done item rest w reached once => by
      have here := Nat.lt_of_lt_of_le here reached.length
      have sets : hooksSet c (done ++ [item]) = hooksSet c done ++ item.hooks c := by
        simp [hooksSet]
      rw [sets]
      exact (hookings plan here item).hookedOnce here once)
    (fun _ agenda w once => by
      refine once.congr ?_ ?_ (by rw [unwind_history])
      all_goals
        rcases unwind_cell agenda w c with same | same <;> rw [same]
        rfl)
    (fun _ w v beside once => by
      refine once.congr ?_ ?_ ?_
      · rw [beside.cell]
      · rw [beside.cell]
      · obtain ⟨events, history, ofFetch⟩ := beside.history
        refine Hooking.runs_of_quiet events (fun e member => ?_) history
        have fetches := ofFetch e member
        cases e with
        | hookRan => cases fetches
        | _ => rfl)
    (fun _ _ _ before => before) (fun _ tree updates w once => once.congr rfl rfl rfl)
    ⟨without, rfl⟩

/-! ### What can be done with a closed cell -/

theorem update_of_closed (plan : Plan σ) (closed : (w.cell c).closed = true) (fuel : Nat)
    (value : Option Value) : (update plan (fuel + 1) c value).run.run w =
      (.ok (.error (.closed "reloadable")), w) := by
  rw [update, Act.run_bind_of_ok (Act.run_readCell c w), if_pos closed]
  rfl

theorem closeCell_of_closed (plan : Plan σ) (closed : (w.cell c).closed = true) (fuel : Nat) :
    (closeCell plan (fuel + 1) c).run.run w = (.ok (), w) := by
  rw [closeCell, Act.run_bind_of_ok (Act.run_readCell c w), if_pos closed]
  rfl

theorem listeners_listen (emptied : (w.cell c).Emptied) (closed : (w.cell c).closed = true)
    (here : c < w.cells.length) (l : Listener σ) (atOnce : Bool) :
    ((w.listen c l atOnce).cell c).listeners = [] := by
  rw [World.cell_listen_self w here]
  simp [Cell.register, closed, (emptied closed).1]

/-- What is done for a listener that is to be added to a closed cell and called at once, when `rest`
comes afterwards: it is called if there is a value, before anything else, and never again. -/
structure OnlyGreeted (plan : Plan σ) (c : Nat) (l : Listener σ) (rest : List (Item σ))
    (w : World σ) : Prop where
  nobody : (((Item.greet c l).step plan w).2.cell c).listeners = []
  first : ∃ more, ((Item.greet c l).step plan w).1 = welcome w c (w.cell c).nextId l ++ more
  due : heard (w.cell c).nextId (owed c (((Item.greet c l).step plan w).1 ++ rest)) =
    (w.cell c).value.toList.map some
  silenced : Silenced plan c (w.cell c).nextId (((Item.greet c l).step plan w).1 ++ rest)
    ((Item.greet c l).step plan w).2

theorem OnlyGreeted.intro {l : Listener σ} (underlaid : Underlaid (.greet c l :: rest) w)
    (single : Single c (.greet c l :: rest) w) (sound : (w.cell c).Sound)
    (emptied : (w.cell c).Emptied) (here : c < w.cells.length)
    (closed : (w.cell c).closed = true) : OnlyGreeted plan c l rest w := by
  have does : ∃ more, ((Item.greet c l).step plan w).1 = welcome w c (w.cell c).nextId l ++ more ∧
      owed c more = [] ∧ (((Item.greet c l).step plan w).2.cell c).listeners = [] ∧
      (((Item.greet c l).step plan w).2.cell c).nextId = (w.cell c).nextId + 1 := by
    have nobody := (emptied closed).1
    rw [Item.step]
    split
    · refine ⟨[], (List.append_nil _).symm, rfl, listeners_listen emptied closed here l true, ?_⟩
      rw [World.cell_listen_self w here]
      rfl
    · refine ⟨[.drain c, .unmark c], rfl, rfl, ?_, ?_⟩ <;> rw [World.cell_mark_listen_self w here]
      · simp [Cell.register, Cell.mark, closed, nobody]
      · rfl
  obtain ⟨more, brings, calm, nobody, nextId⟩ := does
  have known : (w.cell c).nextId < (((Item.greet c l).step plan w).2.cell c).nextId := by
    rw [nextId]
    exact Nat.lt_succ_self _
  refine ⟨nobody, ⟨more, brings⟩, ?_, .intro (underlaid.leads (.step .here))
    (single.step (underlaid.rounds c) sound here plan)
    (Nat.lt_of_lt_of_le here (Item.step_cells plan w _)) ⟨known, ?_⟩⟩
  · -- nobody else has the number of the new listener
    have others : heard (w.cell c).nextId (owed c rest) = [] := by
      refine List.filterMap_eq_nil_iff.mpr fun call member => if_neg ?_
      exact Nat.ne_of_lt (single.tail.known call.1 (List.mem_map_of_mem member))
    rw [brings, owed_append, owed_append, calm, List.append_nil, heard_append, others,
      List.append_nil, welcome]
    cases (w.cell c).value with
    | none => rfl
    | some value => simp [owed, Item.owed?, heard]
  · rw [nobody]
    exact List.not_mem_nil

/-- How things are at a moment at which a cell is closed, and what can be done with it. -/
structure Frozen (plan : Plan σ) (c : Nat) (agenda : List (Item σ)) (w : World σ) : Prop where
  nobody : (w.cell c).listeners = []
  nothing : (w.cell c).deferred = []
  -- Neither an update nor closing the cell once more changes anything.
  updates : ∀ fuel value, (update plan (fuel + 1) c value).run.run w =
    (.ok (.error (.closed "reloadable")), w)
  again : ∀ fuel, (closeCell plan (fuel + 1) c).run.run w = (.ok (), w)
  -- Nobody becomes a listener.
  registers : ∀ l atOnce, (register c l atOnce).run.run w =
    (.ok (w.cell c).nextId, w.listen c l atOnce) ∧ ((w.listen c l atOnce).cell c).listeners = []
  greets : ∀ l rest, agenda = .greet c l :: rest → OnlyGreeted plan c l rest w
  -- Whatever happens from then on, the cell keeps its value and no round begins.
  later : ∀ done agenda' v, Course plan agenda w done agenda' v → Unchanged c w v

/-- What becomes of the hook of a cell that was open and had none when the world was `w`, while the
work `done` led to another moment. -/
structure HookRunsOnce (c : Nat) (w : World σ) (done : List (Item σ)) (agenda : List (Item σ))
    (plan : Plan σ) (v : World σ) : Prop where
  none : hooksSet c done = [] → hookRuns c v.history = hookRuns c w.history
  -- A single hook has run once if the cell is closed, and waits otherwise.
  one : ∀ hook, hooksSet c done = [hook] →
    hookRuns c v.history = hookRuns c w.history + (if (v.cell c).closed then 1 else 0) ∧
      ((v.cell c).closed = false → (v.cell c).hook = some hook)
  -- When it runs it is the next thing to be done.
  next : ∀ hook item rest, agenda = item :: rest → hooksSet c (done ++ [item]) = [hook] →
    hookRuns c (item.step plan v).2.history = hookRuns c v.history ∨
      (item.step plan v).1.head? = some (.go hook)

namespace Session

/-- A closed cell stays as it is, whatever was under way when it was closed and whatever is done
later; and its hook runs once, be it set before the cell is closed or after that. -/
theorem closed_cells_stay_as_they_are (plan : Plan σ) (fuel : Nat) (surroundings : σ)
    (others : List (Option Value × NotifyOrder)) :
    let start := freshBeside plan fuel surroundings others
    start.Charted ∧ ∀ c done agenda w, Course plan [] start.world done agenda w →
      c < w.cells.length →
      ((w.cell c).closed = true → Frozen plan c agenda w) ∧
      ((w.cell c).closed = false → (w.cell c).hook = none →
        ∀ done' agenda' v, Course plan agenda w done' agenda' v →
          HookRunsOnce c w done' agenda' plan v) := by
  intro start
  refine ⟨charted plan fuel surroundings others, fun c done agenda w course here =>
    ⟨fun closed => ?_, fun opened without done' agenda' v later => ?_⟩⟩
  · have underlaid := underlaid_fresh plan fuel surroundings others
    have sound := sound_fresh plan fuel surroundings others
    have emptied : ∀ c, (w.cell c).Emptied := course.emptied fun c => by
      rcases freshBeside_cell plan fuel surroundings others c with gone | ⟨value, order, same⟩
      · rw [gone]
        exact fun _ => ⟨rfl, rfl⟩
      · rw [same]
        exact nofun
    obtain ⟨nobody, nothing⟩ := emptied c closed
    refine ⟨nobody, nothing, update_of_closed plan closed, closeCell_of_closed plan closed,
      fun l atOnce => ⟨rfl, listeners_listen (emptied c) closed here l atOnce⟩, ?_,
      fun _ _ _ later => later.unchanged here closed⟩
    rintro l rest rfl
    exact .intro (course.underlaid underlaid) (course.single underlaid sound (.of_nothing rfl))
      (course.sound sound c) (emptied c) here closed
  · have once := later.hookedOnce here without
    refine ⟨fun none => ?_, fun hook one => ?_, ?_⟩
    · rw [none] at once
      exact once.2
    · rw [one] at once
      rcases once with ⟨opened, waits, ran⟩ | ⟨closed, ran⟩
      · exact ⟨by rw [opened, ran]; rfl, fun _ => waits⟩
      · refine ⟨by rw [closed, ran]; rfl, fun opened => ?_⟩
        rw [closed] at opened
        cases opened
    · rintro hook item rest rfl only
      have sets : hooksSet c (done' ++ [item]) = hooksSet c done' ++ item.hooks c := by
        simp [hooksSet]
      have here := Nat.lt_of_lt_of_le here later.length
      exact (hookings plan here item).runs_next once (sets ▸ only)

/-- A listener that clears its cell, which has to wait, and closes it. -/
def leaving : Listener Unit :=
  ⟨"leaving", fun _ => .update 0 none fun _ => .close 0 (.done .nothing)⟩

def settingOnce : Script Unit := .update 0 (some (.bool true)) fun _ => .done .nothing

def closingInMidRound : Script Unit :=
  .onClose 0 (.done .nothing) (.register 0 leaving.name leaving.react fun _ => settingOnce)

theorem closed_cells_stay_as_they_are_inMidRound :
    let start := freshBeside { query := ⟨"app", [], none, none⟩ } 20 () [(none, .registration)]
    ∃ done agenda w, Course start.plan [] start.world done agenda w ∧
      (w.cell 0).notifying = true ∧ (w.cell 0).value = some (.bool true) ∧
      Frozen start.plan 0 agenda w ∧ hookRuns 0 w.history = 1 := by
  intro start
  obtain ⟨-, all⟩ := closed_cells_stay_as_they_are start.plan 20 () [(none, .registration)]
  let value := some (Value.bool true)
  let rest : List (Item Unit) := [.drain 0, .unmark 0, .go (.done .nothing)]
  -- the listener is added and called, it clears the cell, and then it closes it
  let u := (start.world.modifyCell 0 fun cell => { cell with hook := some (.done .nothing) }).listen
    0 leaving false
  let v := (u.begun 0 value).log (.called 0 0 "leaving" value)
  let x := (v.modifyCell 0 (·.defer none)).log (.deferred 0 none)
  let w := ((x.modifyCell 0 .shut).log (.cellClosed 0)).log (.hookRan 0)
  have added : Course start.plan [] start.world _ [.go settingOnce] u :=
    .script closingInMidRound (.step (.step .here))
  have called : Course start.plan [.go settingOnce] u _ (.go (leaving.react value) :: rest) v :=
    .step (.step (.step (.step .here)))
  have cleared : Course start.plan (.go (leaving.react value) :: rest) v _
      (.go (.close 0 (.done .nothing)) :: rest) x := .step (.step .here)
  have closed : Course start.plan (.go (.close 0 (.done .nothing)) :: rest) x _
      (.go (.done .nothing) :: .go (.done .nothing) :: rest) w := .step (.step .here)
  have course := added.trans (called.trans (cleared.trans closed))
  have frozen := (all 0 _ _ w course Nat.zero_lt_one).1 rfl
  have once := (all 0 [] [] start.world .here Nat.zero_lt_one).2 rfl rfl _ _ w course
  exact ⟨_, _, w, course, rfl, rfl, frozen, (once.one (.done .nothing) rfl).1⟩

end Session

end LayeredConfig.Live
