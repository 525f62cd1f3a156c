import LayeredConfig.Proofs.Live.Touch
/-!
# What becomes of a cell

Many facts about a cell speak of the cell alone, and not of the agenda. `Cell.Change` lists what a
single step makes of a cell, so that such a fact need only be looked at for each kind of change:
`Leads.keeps`.
-/
namespace LayeredConfig.Live

variable {σ : Type}

/-- A cell as it is at any moment: nothing waits unless listeners are being called, and every
listener has a number of its own. -/
structure Cell.Sound (cell : Cell σ) : Prop where
  idle : cell.notifying = false → cell.deferred = []
  unique : (cell.listeners.map Prod.fst).Nodup
  known : ∀ id ∈ cell.listeners.map Prod.fst, id < cell.nextId

namespace Cell.Sound

variable {cell : Cell σ}

theorem new (value : Option Value) : ({ value } : Cell σ).Sound := ⟨fun _ => rfl, .nil, nofun⟩

/-- What is said about a cell depends on its listeners, its mark and what waits. -/
theorem congr (sound : cell.Sound) {cell' : Cell σ} (listeners : cell'.listeners = cell.listeners)
    (nextId : cell'.nextId = cell.nextId)
    (idle : cell'.notifying = false → cell'.deferred = []) : cell'.Sound where
  idle
  unique := by rw [listeners]; exact sound.unique
  known := by rw [listeners, nextId]; exact sound.known

theorem fewer (sound : cell.Sound) {cell' : Cell σ}
    (listeners : cell'.listeners.Sublist cell.listeners) (nextId : cell'.nextId = cell.nextId)
    (idle : cell'.notifying = false → cell'.deferred = []) : cell'.Sound where
  idle
  unique := sound.unique.sublist (listeners.map _)
  known id listens := by
    rw [nextId]
    exact sound.known id ((listeners.map _).subset listens)

theorem register (sound : cell.Sound) (l : Listener σ) : (cell.register l).Sound := by
  have fresh : cell.nextId ∉ cell.listeners.map Prod.fst := fun known =>
    Nat.lt_irrefl _ (sound.known _ known)
  cases opened : cell.closed with
  | true =>
    have listeners : (cell.register l).listeners = cell.listeners := by
      simp [Cell.register, opened]
    refine ⟨sound.idle, ?_, ?_⟩ <;> rw [listeners]
    · exact sound.unique
    · exact fun id listens => Nat.lt_succ_of_lt (sound.known id listens)
  | false =>
    have listeners : (cell.register l).listeners = cell.listeners ++ [(cell.nextId, l)] := by
      simp [Cell.register, opened]
    refine ⟨sound.idle, ?_, ?_⟩ <;> rw [listeners, List.map_append, List.map_singleton]
    · rw [List.nodup_append]
      refine ⟨sound.unique, List.pairwise_singleton _ _, fun id listens other new same => ?_⟩
      have same : id = cell.nextId := same.trans (List.mem_singleton.mp new)
      exact fresh (same ▸ listens)
    · intro id listens
      rcases List.mem_append.mp listens with listens | new
      · exact Nat.lt_succ_of_lt (sound.known id listens)
      · rw [List.mem_singleton.mp new]
        exact Nat.lt_succ_self _

end Cell.Sound

/-- The cell had a listener once, and has it no longer. -/
def Cell.Without (id : Nat) (cell : Cell σ) : Prop :=
  id < cell.nextId ∧ id ∉ cell.listeners.map Prod.fst

/-- What a single step makes of a cell. -/
inductive Cell.Change (cell : Cell σ) : Cell σ → Prop where
  | same : Change cell cell
  | hooked (hook : Option (Script σ)) : Change cell { cell with hook }
  | deferred (value : Option Value) (marked : cell.notifying = true) :
    Change cell (cell.defer value)
  | marked : Change cell cell.mark
  | stored (value : Option Value) : Change cell { cell with value }
  | turned {value : Option Value} {later : List (Option Value)}
    (waiting : cell.deferred = value :: later) : Change cell { cell with deferred := later }
  | unmarked : Change cell cell.unmark
  | registered (l : Listener σ) : Change cell (cell.register l)
  | greeted (l : Listener σ) : Change cell (cell.mark.register l)
  | deregistered (id : Nat) : Change cell (cell.deregister id)
  | shut : Change cell cell.shut

namespace Cell.Change

variable {cell cell' : Cell σ}

theorem order (change : Change cell cell') : cell'.order = cell.order := by
  cases change <;> rfl

/-- Numbers of listeners are not given twice. -/
theorem nextId (change : Change cell cell') : cell.nextId ≤ cell'.nextId := by
  cases change with
  | registered | greeted => exact Nat.le_succ _
  | _ => exact Nat.le_refl _

/-- A cell that is closed stays closed. -/
theorem closed (change : Change cell cell') (closed : cell.closed = true) :
    cell'.closed = true := by
  cases change with
  | shut => rfl
  | _ => exact closed

/-- Whatever a step makes of a cell, it is as sound as before. -/
theorem sound (change : Change cell cell') (sound : cell.Sound) : cell'.Sound := by
  cases change with
  | same => exact sound
  | hooked | stored => exact sound.congr rfl rfl sound.idle
  | deferred value marked =>
    refine sound.congr rfl rfl fun unmarked => ?_
    rw [Cell.defer, marked] at unmarked
    cases unmarked
  | marked => exact sound.congr rfl rfl nofun
  | turned waiting =>
    refine sound.congr rfl rfl fun unmarked => ?_
    have none := sound.idle unmarked
    rw [waiting] at none
    cases none
  | unmarked => exact sound.congr rfl rfl fun _ => rfl
  | registered l => exact sound.register l
  | greeted l =>
    have marked : cell.mark.Sound := sound.congr rfl rfl nofun
    exact marked.register l
  | deregistered id => exact sound.fewer List.filter_sublist rfl sound.idle
  | shut => exact sound.fewer (List.nil_sublist _) rfl fun _ => rfl

/-- The number of a listener stays taken. -/
theorem known {id : Nat} (change : Change cell cell') (known : id < cell.nextId) :
    id < cell'.nextId :=
  Nat.lt_of_lt_of_le known change.nextId

/-- A listener that the cell has no longer does not come back. -/
theorem without {id : Nat} (change : Change cell cell') (without : cell.Without id) :
    cell'.Without id := by
  obtain ⟨known, absent⟩ := without
  have registered (cell : Cell σ) (known : id < cell.nextId)
      (absent : id ∉ cell.listeners.map Prod.fst) (l : Listener σ) :
      (cell.register l).Without id := by
    refine ⟨Nat.lt_succ_of_lt known, ?_⟩
    rw [Cell.register]
    dsimp only
    split
    · exact absent
    · rw [List.map_append, List.mem_append, List.map_singleton, List.mem_singleton]
      exact fun among => among.elim absent (Nat.ne_of_lt known)
  cases change with
  | registered l => exact registered cell known absent l
  | greeted l => exact registered cell.mark known absent l
  | deregistered other =>
    exact ⟨known, fun among => absent ((List.filter_sublist.map _).subset among)⟩
  | shut => exact ⟨known, List.not_mem_nil⟩
  | _ => exact ⟨known, absent⟩

end Cell.Change

variable {c : Nat} {item : Item σ} {new rest agenda : List (Item σ)} {w w' v : World σ}

theorem Touch.change (touch : Touch c w item new w') (here : c < w.cells.length) :
    (w.cell c).Change (w'.cell c) := by
  have modified (f : Cell σ → Cell σ) : (w.modifyCell c f).cell c = f (w.cell c) :=
    World.cell_modifyCell_self w here f
  cases touch with
  | aside off calm same events history silent =>
    obtain ⟨hook, same⟩ := same
    rw [same]
    exact .hooked hook
  | told | dropped | kept | drained => exact .same
  | deferred value opened marked =>
    rw [World.cell_log, modified]
    exact .deferred value marked
  | begun =>
    rw [modified]
    exact .marked
  | stored value =>
    rw [World.cell_log, modified]
    exact .stored value
  | turned value later waiting =>
    rw [modified]
    exact .turned waiting
  | unmarked =>
    rw [modified]
    exact .unmarked
  | registered script next l | greetedAmid l =>
    rw [World.cell_listen_self w here]
    exact .registered l
  | greeted l unmarked =>
    rw [World.cell_mark_listen_self w here]
    exact .greeted l
  | deregistered script next id =>
    rw [World.cell_log, modified]
    exact .deregistered id
  | closed calm opened same =>
    rw [same]
    exact .shut

/-- The value of a cell stays as it is, unless another one is applied while the cell is open. -/
theorem Touch.value (touch : Touch c w item new w') :
    (w'.cell c).value = (w.cell c).value ∨
      ∃ value, item = .apply c value ∧ (w.cell c).closed = false := by
  have kept {f : Cell σ → Cell σ} (keeps : ∀ cell, (f cell).value = cell.value) :
      ((w.modifyCell c f).cell c).value = (w.cell c).value :=
    World.modifyCell_keeps Cell.value keeps w c c
  cases touch with
  | aside off calm same =>
    obtain ⟨hook, same⟩ := same
    exact .inl (by rw [same])
  | told | dropped | kept | drained => exact .inl rfl
  | stored value opened => exact .inr ⟨value, rfl, opened⟩
  | begun | unmarked | deregistered => exact .inl (kept fun _ => rfl)
  | deferred value => exact .inl (kept (f := (·.defer value)) fun _ => rfl)
  | turned value later =>
    exact .inl (kept (f := fun cell => { cell with deferred := later }) fun _ => rfl)
  | registered script next l | greetedAmid l =>
    exact .inl (kept (f := (·.register l)) fun _ => rfl)
  | greeted l =>
    have registered : (((w.modifyCell c .mark).modifyCell c (·.register l)).cell c).value =
        ((w.modifyCell c .mark).cell c).value :=
      World.modifyCell_keeps (f := (·.register l)) Cell.value (fun _ => rfl) _ c c
    exact .inl (registered.trans (kept (f := .mark) fun _ => rfl))
  | closed calm opened same =>
    rw [same]
    exact .inl rfl

/-- What every change of a cell keeps is true of it wherever steps lead. -/
theorem Leads.keeps {plan : Plan σ} {a b : List (Item σ)} (leads : Leads plan a w b v)
    (here : c < w.cells.length) (P : Cell σ → Prop)
    (kept : ∀ cell cell', Cell.Change cell cell' → P cell → P cell') (start : P (w.cell c)) :
    P (v.cell c) :=
  (leads.preserves (fun _ u => c < u.cells.length ∧ P (u.cell c))
    (fun item _ u ⟨here, holds⟩ => ⟨Nat.lt_of_lt_of_le here (Item.step_cells plan u item),
      kept _ _ ((touches plan here item).change here) holds⟩) ⟨here, start⟩).2

/-- Once everything is broken off, a cell is as it was but for its mark. -/
theorem unwind_cell (agenda : List (Item σ)) (w : World σ) (c : Nat) :
    (unwind agenda w).cell c = w.cell c ∨ (unwind agenda w).cell c = (w.cell c).unmark := by
  refine unwind_preserves (fun v => v.cell c = w.cell c ∨ v.cell c = (w.cell c).unmark)
    (fun item v before => ?_) agenda (.inl rfl)
  have undone : (item.undo v).cell c = v.cell c ∨ (item.undo v).cell c = (v.cell c).unmark := by
    cases item with
    | unmark d => exact (v.cell_modifyCell d .unmark c).imp_right fun ⟨same, _, now⟩ => same ▸ now
    | _ => exact .inl rfl
  rcases undone with same | same <;> rcases before with before | before <;> rw [same, before]
  · exact .inl rfl
  · exact .inr rfl
  · exact .inr rfl
  · exact .inr rfl

theorem unwind_keeps (agenda : List (Item σ)) (P : Cell σ → Prop)
    (kept : ∀ cell cell', Cell.Change cell cell' → P cell → P cell') (before : P (w.cell c)) :
    P ((unwind agenda w).cell c) := by
  rcases unwind_cell agenda w c with same | same
  · rw [same]
    exact before
  · rw [same]
    exact kept _ _ .unmarked before

end LayeredConfig.Live
