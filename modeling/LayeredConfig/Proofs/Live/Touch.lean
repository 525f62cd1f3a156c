import LayeredConfig.Proofs.Live.Agenda
import LayeredConfig.Proofs.Live.Story
/-!
# One step and one cell

Most pieces of work leave a given cell alone. `Touch` lists what a step can do to it and which work
for the cell the step brings with it; `touches` says that the list is complete. What is true of a
cell at every moment is proved along this list.
-/
namespace LayeredConfig.Live

variable {σ : Type}

/-- The work belongs to the notification of a cell. -/
def Item.about (c : Nat) : Item σ → Bool
  | .tell d _ _ _ | .apply d _ | .drain d | .unmark d => c == d
  | _ => false

/-- What one step does to a cell. -/
inductive Touch (c : Nat) (w : World σ) : Item σ → List (Item σ) → World σ → Prop where
  -- The cell is left alone, except that its hook may be set.
  | aside {item new w'} (off : item.about c = false) (calm : ∀ i ∈ new, i.about c = false)
    (same : ∃ hook, w'.cell c = { w.cell c with hook }) (events : List Event)
    (history : w'.history = events ++ w.history)
    (silent : ∀ e ∈ events, e.about c = false ∧ e.amid c = false) :
    Touch c w item new w'
  | told (id : Nat) (l : Listener σ) (value : Option Value) :
    Touch c w (.tell c id l value) [.go (l.react value)] (w.log (.called c id l.name value))
  | deferred (value : Option Value) (opened : (w.cell c).closed = false)
    (marked : (w.cell c).notifying = true) :
    Touch c w (.put c value) [] ((w.modifyCell c (·.defer value)).log (.deferred c value))
  | begun (value : Option Value) (opened : (w.cell c).closed = false)
    (unmarked : (w.cell c).notifying = false) :
    Touch c w (.put c value) [.apply c value, .unmark c] (w.modifyCell c .mark)
  | dropped (value : Option Value) (closed : (w.cell c).closed = true) :
    Touch c w (.apply c value) [] w
  | kept (value : Option Value) (opened : (w.cell c).closed = false)
    (same : ((w.cell c).value == value) = true) : Touch c w (.apply c value) [.drain c] w
  | stored (value : Option Value) (opened : (w.cell c).closed = false)
    (changed : ((w.cell c).value == value) = false) :
    Touch c w (.apply c value)
      (tellAll c value ((w.cell c).order.arrange (w.cell c).listeners) ++ [.drain c])
      ((w.modifyCell c fun cell => { cell with value }).log (.stored c value))
  | drained (nothing : (w.cell c).deferred = []) : Touch c w (.drain c) [] w
  | turned (value : Option Value) (rest : List (Option Value))
    (waiting : (w.cell c).deferred = value :: rest) :
    Touch c w (.drain c) [.apply c value]
      (w.modifyCell c fun cell => { cell with deferred := rest })
  | unmarked : Touch c w (.unmark c) [] (w.modifyCell c .unmark)
  | registered (script next : Script σ) (l : Listener σ) :
    Touch c w (.go script) [.go next] (w.listen c l false)
  | greetedAmid (l : Listener σ) (marked : (w.cell c).notifying = true) :
    Touch c w (.greet c l) (welcome w c (w.cell c).nextId l) (w.listen c l true)
  | greeted (l : Listener σ) (unmarked : (w.cell c).notifying = false) :
    Touch c w (.greet c l) (welcome w c (w.cell c).nextId l ++ [.drain c, .unmark c])
      ((w.modifyCell c .mark).listen c l true)
  | deregistered (script next : Script σ) (id : Nat) :
    Touch c w (.go script) [.go next]
      ((w.modifyCell c (·.deregister id)).log (.deregistered c id))
  | closed {new w'} (calm : ∀ i ∈ new, i.about c = false) (opened : (w.cell c).closed = false)
    (same : w'.cell c = (w.cell c).shut) (events : List Event)
    (history : w'.history = events ++ w.history)
    (silent : ∀ e ∈ events, e.about c = false ∧ e.amid c = false) :
    Touch c w (.close c) new w'

namespace Touch

variable {c : Nat} {w w' : World σ} {item : Item σ} {new : List (Item σ)}

/-- A step that changes no cell. -/
theorem still (off : item.about c = false) (calm : ∀ i ∈ new, i.about c = false)
    (cells : w'.cells = w.cells) (events : List Event) (history : w'.history = events ++ w.history)
    (silent : ∀ e ∈ events, e.about c = false ∧ e.amid c = false) : Touch c w item new w' :=
  .aside off calm ⟨(w.cell c).hook, by rw [World.cell, cells, ← World.cell]⟩ events history silent

/-- A step that changes another cell. -/
theorem other {d : Nat} {f : Cell σ → Cell σ} (ne : c ≠ d) (off : item.about c = false)
    (calm : ∀ i ∈ new, i.about c = false) (cells : w'.cells = (w.modifyCell d f).cells)
    (events : List Event) (history : w'.history = events ++ w.history)
    (silent : ∀ e ∈ events, e.about c = false ∧ e.amid c = false) : Touch c w item new w' := by
  refine .aside off calm ⟨(w.cell c).hook, ?_⟩ events history silent
  rw [World.cell, cells, ← World.cell, World.cell_modifyCell_of_ne w (Ne.symm ne)]

/-- What a script calls for is not about any cell. -/
theorem calm_script (plan : Plan σ) (w : World σ) (script : Script σ) :
    ∀ i ∈ (script.step plan w).1, i.about c = false := by
  cases script with
  | onClose d hook next =>
    rw [Script.step]
    split <;> simp [Item.about]
  | _ => simp [Script.step, Item.about]

theorem script (plan : Plan σ) (here : c < w.cells.length) (script : Script σ) :
    Touch c w (.go script) (script.step plan w).1 (script.step plan w).2 := by
  have calm : ∀ i ∈ (script.step plan w).1, i.about c = false := calm_script plan w script
  cases script with
  | done reply => exact .still rfl calm rfl [] rfl (List.forall_mem_nil _)
  | panic => exact .still rfl calm rfl [] rfl (List.forall_mem_nil _)
  | update d value next => exact .still rfl calm rfl [] rfl (List.forall_mem_nil _)
  | register d name react next =>
    by_cases same : c = d
    · subst same
      exact .registered _ _ _
    · exact .other same rfl calm rfl [_] rfl (by simp [Event.about, Event.amid, same])
  | registerAndCall d name react next => exact .still rfl calm rfl [] rfl (List.forall_mem_nil _)
  | deregister d id next =>
    by_cases same : c = d
    · subst same
      exact .deregistered _ _ _
    · exact .other same rfl calm rfl [_] rfl (by simp [Event.about, Event.amid, same])
  | close d next => exact .still rfl calm rfl [] rfl (List.forall_mem_nil _)
  | onClose d hook next =>
    rw [Script.step]
    split
    next closed =>
      exact .still rfl (by simp [Item.about]) rfl [_] rfl (by simp [Event.about, Event.amid])
    next opened =>
      -- the hook is no part of what matters of a cell
      refine .aside rfl (by simp [Item.about]) ?_ [] rfl (List.forall_mem_nil _)
      by_cases same : c = d
      · subst same
        exact ⟨some hook, World.cell_modifyCell_self w here _⟩
      · exact ⟨_, World.cell_modifyCell_of_ne w (Ne.symm same) _⟩
  | look d next => exact .still rfl calm rfl [] rfl (List.forall_mem_nil _)
  | derive extract next => exact .still rfl calm rfl [] rfl (List.forall_mem_nil _)
  | untrack entry next => exact .still rfl calm rfl [] rfl (List.forall_mem_nil _)
  | tree next => exact .still rfl calm rfl [] rfl (List.forall_mem_nil _)
  | shut next => exact .still rfl calm rfl [] rfl (List.forall_mem_nil _)
  | start next =>
    rw [Script.step]
    dsimp only
    split <;> exact .still rfl (by simp [Item.about]) rfl [] rfl (List.forall_mem_nil _)
  | inspect next => exact .still rfl calm rfl [] rfl (List.forall_mem_nil _)
  | alter change next => exact .still rfl calm rfl [] rfl (List.forall_mem_nil _)
  | note listener step reply next =>
    exact .still rfl calm rfl [_] rfl (by simp [Event.about, Event.amid])

theorem put (plan : Plan σ) (d : Nat) (value : Option Value) :
    Touch c w (.put d value) ((Item.put d value).step plan w).1
      ((Item.put d value).step plan w).2 := by
  rw [Item.step]
  by_cases same : c = d
  · subst same
    split
    next closed => exact .still rfl (List.forall_mem_nil _) rfl [] rfl (List.forall_mem_nil _)
    next opened =>
      split
      next marked => exact .deferred value (by simpa using opened) marked
      next unmarked => exact .begun value (by simpa using opened) (by simpa using unmarked)
  · split
    next closed => exact .still rfl (List.forall_mem_nil _) rfl [] rfl (List.forall_mem_nil _)
    next opened =>
      split
      next marked =>
        exact .other same rfl (List.forall_mem_nil _) rfl [_] rfl
          (by simp [Event.about, Event.amid, same])
      next unmarked =>
        exact .other same rfl (by simp [Item.about, same]) rfl [] rfl (List.forall_mem_nil _)

theorem apply (plan : Plan σ) (d : Nat) (value : Option Value) :
    Touch c w (.apply d value) ((Item.apply d value).step plan w).1
      ((Item.apply d value).step plan w).2 := by
  rw [Item.step]
  by_cases same : c = d
  · subst same
    split
    next closed => exact .dropped value closed
    next opened =>
      split
      next equal => exact .kept value (by simpa using opened) equal
      next changed => exact .stored value (by simpa using opened) (by simpa using changed)
  · have off : (Item.apply d value : Item σ).about c = false := by simp [Item.about, same]
    split
    next closed => exact .still off (List.forall_mem_nil _) rfl [] rfl (List.forall_mem_nil _)
    next opened =>
      split
      next equal => exact .still off (by simp [Item.about, same]) rfl [] rfl (List.forall_mem_nil _)
      next changed =>
        refine .other same off (fun i called => ?_) rfl [_] rfl
          (by simp [Event.about, Event.amid, same])
        rcases List.mem_append.mp called with called | called
        · obtain ⟨listener, _, rfl⟩ := List.mem_map.mp called
          simp [Item.about, same]
        · rw [List.mem_singleton.mp called]
          simp [Item.about, same]

theorem drain (plan : Plan σ) (d : Nat) :
    Touch c w (.drain d) ((Item.drain d).step plan w).1 ((Item.drain d).step plan w).2 := by
  rw [Item.step]
  by_cases same : c = d
  · subst same
    split
    next nothing => exact .drained nothing
    next value rest waiting => exact .turned value rest waiting
  · have off : (Item.drain d : Item σ).about c = false := by simp [Item.about, same]
    split
    next nothing => exact .still off (List.forall_mem_nil _) rfl [] rfl (List.forall_mem_nil _)
    next value rest waiting =>
      exact .other same off (by simp [Item.about, same]) rfl [] rfl (List.forall_mem_nil _)

theorem about_welcome {d : Nat} (ne : c ≠ d) (v : World σ) (id : Nat) (l : Listener σ) :
    ∀ i ∈ welcome v d id l, i.about c = false := by
  rw [welcome]
  split <;> simp [Item.about, ne]

theorem greet (plan : Plan σ) (d : Nat) (l : Listener σ) :
    Touch c w (.greet d l) ((Item.greet d l).step plan w).1 ((Item.greet d l).step plan w).2 := by
  rw [Item.step]
  by_cases same : c = d
  · subst same
    split
    next marked => exact .greetedAmid l marked
    next unmarked => exact .greeted l (by simpa using unmarked)
  · split
    next marked =>
      exact .other same rfl (about_welcome same _ _ _) rfl [_] rfl
        (by simp [Event.about, Event.amid, same])
    next unmarked =>
      have kept : ((w.modifyCell d .mark).listen d l true).cell c = w.cell c := by
        rw [World.listen, World.cell_log, World.cell_modifyCell_of_ne _ (Ne.symm same),
          World.cell_modifyCell_of_ne w (Ne.symm same)]
      refine .aside rfl (fun i called => ?_) ⟨(w.cell c).hook, kept⟩ [_] rfl
        (by simp [Event.about, Event.amid, same])
      rcases List.mem_append.mp called with called | called
      · exact about_welcome same w _ l i called
      · rcases List.mem_cons.mp called with rfl | called
        · simp [Item.about, same]
        · rw [List.mem_singleton.mp called]
          simp [Item.about, same]

theorem close (plan : Plan σ) (here : c < w.cells.length) (d : Nat) :
    Touch c w (.close d) ((Item.close d).step plan w).1 ((Item.close d).step plan w).2 := by
  rw [Item.step]
  by_cases same : c = d
  · subst same
    split
    next closed => exact .still rfl (List.forall_mem_nil _) rfl [] rfl (List.forall_mem_nil _)
    next opened =>
      have shut := World.cell_modifyCell_self w here .shut
      dsimp only
      split
      next script hook =>
        exact .closed (by simp [Item.about]) (by simpa using opened) shut
          [.hookRan c, .cellClosed c] rfl (by simp [Event.about, Event.amid])
      next none =>
        exact .closed (List.forall_mem_nil _) (by simpa using opened) shut [.cellClosed c] rfl
          (by simp [Event.about, Event.amid])
  · split
    next closed => exact .still rfl (List.forall_mem_nil _) rfl [] rfl (List.forall_mem_nil _)
    next opened =>
      dsimp only
      split
      next script hook =>
        exact .other same rfl (by simp [Item.about]) rfl [.hookRan d, .cellClosed d] rfl
          (by simp [Event.about, Event.amid])
      next none =>
        exact .other same rfl (List.forall_mem_nil _) rfl [.cellClosed d] rfl
          (by simp [Event.about, Event.amid])

theorem derive (plan : Plan σ) (here : c < w.cells.length) (extract : Extractor) :
    Touch c w (.derive extract) ((Item.derive extract).step plan w).1
      ((Item.derive extract).step plan w).2 := by
  rw [Item.step]
  split
  · exact .still rfl (List.forall_mem_nil _) rfl [] rfl (List.forall_mem_nil _)
  · split
    · exact .still rfl (List.forall_mem_nil _) rfl [] rfl (List.forall_mem_nil _)
    · refine .aside rfl (by simp [Item.about]) ⟨(w.cell c).hook, ?_⟩ [] rfl (List.forall_mem_nil _)
      rw [World.follow, World.cell_modifyConfig, World.cell_addCell, if_neg (Nat.ne_of_lt here)]

end Touch

/-- The list of what a step can do to a cell is complete. -/
theorem touches (plan : Plan σ) {c : Nat} {w : World σ} (here : c < w.cells.length)
    (item : Item σ) : Touch c w item (item.step plan w).1 (item.step plan w).2 := by
  cases item with
  | go script => exact .script plan here script
  | tell d id l value =>
    by_cases same : c = d
    · subst same
      exact .told id l value
    · exact .still (by simp [Item.about, same]) (by simp [Item.step, Item.about]) rfl [_] rfl
        (by simp [Event.about, Event.amid, same])
  | put d value => exact .put plan d value
  | apply d value => exact .apply plan d value
  | drain d => exact .drain plan d
  | unmark d =>
    by_cases same : c = d
    · subst same
      exact .unmarked
    · exact .other same (by simp [Item.about, same]) (List.forall_mem_nil _) rfl [] rfl
        (List.forall_mem_nil _)
  | greet d l => exact .greet plan d l
  | close d => exact .close plan here d
  | derive extract => exact .derive plan here extract
  | shut =>
    rw [Item.step]
    split
    · exact .still rfl (List.forall_mem_nil _) rfl [] rfl (List.forall_mem_nil _)
    · refine .still rfl (fun i called => ?_) rfl [_] rfl (by simp [Event.about, Event.amid])
      rcases List.mem_append.mp called with called | called
      · obtain ⟨tracked, _, rfl⟩ := List.mem_map.mp called
        rfl
      · rw [List.mem_singleton.mp called]
        rfl
  | shutSources =>
    obtain ⟨events, surroundings, closed, after⟩ := closeSources_spec 0 plan.sources w
    rw [Item.step, after]
    refine .still rfl (List.forall_mem_nil _) rfl events rfl fun e he => ?_
    obtain ⟨i, rfl⟩ := closed e he
    exact ⟨rfl, rfl⟩
  | endDispatch => exact .still rfl (List.forall_mem_nil _) rfl [] rfl (List.forall_mem_nil _)

end LayeredConfig.Live
