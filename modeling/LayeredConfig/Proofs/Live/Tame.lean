import LayeredConfig.Proofs.Live.Settles
/-!
# Tame scripts

A tame script neither breaks off nor puts values into cells: it closes cells or the configuration,
adds and removes listeners that are tame as well, and makes derived cells. Such a script always
comes to its end. It leaves the world tidy, in that the open cells are the tracked ones, and leaves
the values alone that were there before.
-/
namespace LayeredConfig.Live

variable {σ : Type}

/-- A script that neither panics nor puts a value or a hook into a cell, nor do its listeners. -/
def Script.Tame : Script σ → Prop
  | .done _ => True
  | .panic | .update .. | .onClose .. | .untrack .. => False
  | .register _ _ react next | .registerAndCall _ _ react next =>
    (∀ value, (react value).Tame) ∧ ∀ id, (next id).Tame
  | .deregister _ _ next | .close _ next | .shut next => next.Tame
  | .alter _ next | .note _ _ _ next => next.Tame
  | .look _ next => ∀ value, (next value).Tame
  | .derive _ next => ∀ made, (next made).Tame
  | .tree next => ∀ tree, (next tree).Tame
  | .start next => ∀ started, (next started).Tame
  | .inspect next => ∀ surroundings, (next surroundings).Tame

/-- A listener that is tame whatever it is told. -/
def Listener.Tame (l : Listener σ) : Prop := ∀ value, (l.react value).Tame

/-- The hook of a derived cell: its entry is forgotten. -/
def forget (entry : Nat) : Script σ := .untrack entry (.done .nothing)

/-- The open cells are the tracked ones, with their hooks in place; all listeners are tame, and no
update waits. -/
structure Tidy (w : World σ) : Prop where
  tame : ∀ c, ∀ entry ∈ (w.cell c).listeners, entry.2.Tame
  nothingWaits : ∀ c, (w.cell c).deferred = []
  opened : ∀ t ∈ w.config.tracked, (w.cell t.cell).closed = false
  hooked : ∀ t ∈ w.config.tracked, (w.cell t.cell).hook = some (forget t.id)
  tracked : ∀ c, (w.cell c).closed = false → ∃ t ∈ w.config.tracked, t.cell = c
  unique : ∀ t ∈ w.config.tracked, ∀ u ∈ w.config.tracked, t.id = u.id → t = u
  fresh : ∀ t ∈ w.config.tracked, t.id < w.config.nextId

/-- From one world to another the values and marks of cells stayed as they were, and so did the
tree; what is tracked now was tracked before, or it is a new cell that was seeded from the tree. -/
structure Calm (w w' : World σ) : Prop where
  current : w'.config.current = w.config.current
  dispatching : w'.config.dispatching = w.config.dispatching
  cells : w.cells.length ≤ w'.cells.length
  value : ∀ c < w.cells.length, (w'.cell c).value = (w.cell c).value
  notifying : ∀ c, (w'.cell c).notifying = (w.cell c).notifying
  tracked : ∀ t ∈ w'.config.tracked, t ∈ w.config.tracked ∨
    (w.config.dispatching = false ∧ w.cells.length ≤ t.cell ∧ t.cell < w'.cells.length ∧
      seed t.extract w.config.current = .ok (w'.cell t.cell).value)

namespace Calm

variable {u v w : World σ}

theorem refl (w : World σ) : Calm w w where
  current := rfl
  dispatching := rfl
  cells := Nat.le_refl _
  value _ _ := rfl
  notifying _ := rfl
  tracked _ known := .inl known

theorem trans (first : Calm u v) (second : Calm v w) : Calm u w where
  current := second.current.trans first.current
  dispatching := second.dispatching.trans first.dispatching
  cells := Nat.le_trans first.cells second.cells
  value c here := by
    have there : c < v.cells.length := Nat.lt_of_lt_of_le here first.cells
    rw [second.value c there, first.value c here]
  notifying c := (second.notifying c).trans (first.notifying c)
  tracked t known := by
    rcases second.tracked t known with known | ⟨idle, new, here, seeded⟩
    · rcases first.tracked t known with known | ⟨idle, new, here, seeded⟩
      · exact .inl known
      · have value : (w.cell t.cell).value = (v.cell t.cell).value := second.value _ here
        have stays : t.cell < w.cells.length := Nat.lt_of_lt_of_le here second.cells
        exact .inr ⟨idle, new, stays, by rw [value]; exact seeded⟩
    · rw [first.dispatching] at idle
      rw [first.current] at seeded
      exact .inr ⟨idle, Nat.le_trans first.cells new, here, seeded⟩

/-- Neither the cells nor the state of the configuration changed. -/
theorem of_eq (cells : v.cells = w.cells) (config : v.config = w.config) : Calm w v where
  current := by rw [config]
  dispatching := by rw [config]
  cells := Nat.le_of_eq (congrArg List.length cells).symm
  value c _ := by rw [World.cell, cells, ← World.cell]
  notifying c := by rw [World.cell, cells, ← World.cell]
  tracked t known := .inl (config ▸ known)

/-- A cell changed, but neither its value nor its mark, and no entry was added. -/
theorem of_modify {c : Nat} {f : Cell σ → Cell σ} (value : ∀ cell, (f cell).value = cell.value)
    (notifying : ∀ cell, (f cell).notifying = cell.notifying)
    (cells : v.cells = (w.modifyCell c f).cells) (current : v.config.current = w.config.current)
    (dispatching : v.config.dispatching = w.config.dispatching)
    (tracked : ∀ t ∈ v.config.tracked, t ∈ w.config.tracked) : Calm w v := by
  have cell (d : Nat) : v.cell d = (w.modifyCell c f).cell d := by
    rw [World.cell, cells, ← World.cell]
  refine ⟨current, dispatching, ?_, fun d _ => ?_, fun d => ?_,
    fun t known => .inl (tracked t known)⟩
  · exact Nat.le_of_eq ((congrArg List.length cells).trans (List.length_modify ..)).symm
  · rw [cell, World.modifyCell_keeps Cell.value value]
  · rw [cell, World.modifyCell_keeps Cell.notifying notifying]

/-- What happened while a cell was marked counts as if there had been no mark. -/
theorem between {c : Nat} (calm : Calm (u.modifyCell c .mark) v)
    (unmarked : (u.cell c).notifying = false) : Calm u (v.modifyCell c .unmark) := by
  have length (w : World σ) (f : Cell σ → Cell σ) :
      (w.modifyCell c f).cells.length = w.cells.length := List.length_modify ..
  have value (d : Nat) : ((v.modifyCell c .unmark).cell d).value = (v.cell d).value :=
    World.modifyCell_keeps (f := .unmark) Cell.value (fun _ => rfl) v c d
  refine ⟨calm.current, calm.dispatching, ?_, fun d here => ?_, fun d => ?_, fun t known => ?_⟩
  · rw [length v, ← length u .mark]
    exact calm.cells
  · rw [value, calm.value d (by rwa [length])]
    exact World.modifyCell_keeps (f := .mark) Cell.value (fun _ => rfl) u c d
  · by_cases same : c = d
    · subst same
      rw [unmarked]
      by_cases here : c < v.cells.length
      · rw [World.cell_modifyCell_self v here]
        rfl
      · -- what is not there counts as a cell without a mark
        have beyond : ((v.modifyCell c .unmark).cell c) = .gone := by
          rw [World.cell, List.getD_eq_getElem?_getD, List.getElem?_eq_none]
          · rfl
          · rw [length]
            exact Nat.le_of_not_lt here
        rw [beyond]
        rfl
    · rw [World.cell_modifyCell_of_ne v same, calm.notifying, World.cell_modifyCell_of_ne u same]
  · rcases calm.tracked t known with known | ⟨idle, new, here, seeded⟩
    · exact .inl known
    · rw [length] at new
      exact .inr ⟨idle, new, by rwa [length], by rw [value]; exact seeded⟩

end Calm

namespace Tidy

variable {v w : World σ}

/-- Neither the cells changed nor what is tracked. -/
theorem of_eq (tidy : Tidy w) (cells : v.cells = w.cells)
    (tracked : v.config.tracked = w.config.tracked) (nextId : v.config.nextId = w.config.nextId) :
    Tidy v := by
  have cell (c : Nat) : v.cell c = w.cell c := by rw [World.cell, cells, ← World.cell]
  constructor
  · exact fun c => by rw [cell]; exact tidy.tame c
  · exact fun c => by rw [cell]; exact tidy.nothingWaits c
  · exact fun t known => by rw [cell]; exact tidy.opened t (tracked ▸ known)
  · exact fun t known => by rw [cell]; exact tidy.hooked t (tracked ▸ known)
  · exact fun c opened => by rw [cell] at opened; rw [tracked]; exact tidy.tracked c opened
  · rw [tracked]; exact tidy.unique
  · rw [tracked, nextId]; exact tidy.fresh

/-- A cell changed, but it stays open if it was, with its hook, and it still does well. -/
theorem of_modify (tidy : Tidy w) {c : Nat} {f : Cell σ → Cell σ}
    (closed : ∀ cell, (f cell).closed = cell.closed) (hook : ∀ cell, (f cell).hook = cell.hook)
    (tame : ∀ entry ∈ (f (w.cell c)).listeners, entry.2.Tame)
    (nothingWaits : (f (w.cell c)).deferred = []) (cells : v.cells = (w.modifyCell c f).cells)
    (config : v.config = w.config) : Tidy v := by
  have cell (d : Nat) : v.cell d = (w.modifyCell c f).cell d := by
    rw [World.cell, cells, ← World.cell]
  -- what held of every cell and holds of the changed one holds of every cell
  have cases (P : Cell σ → Prop) (now : P (f (w.cell c))) (old : ∀ d, P (w.cell d)) (d : Nat) :
      P (v.cell d) := by
    rw [cell]
    by_cases here : c < w.cells.length
    · by_cases same : c = d
      · subst same
        rw [World.cell_modifyCell_self w here]
        exact now
      · rw [World.cell_modifyCell_of_ne w same]
        exact old d
    · have same : (w.modifyCell c f).cells = w.cells := List.modify_eq_self (Nat.le_of_not_lt here)
      rw [World.cell, same]
      exact old d
  have sameClosed (d : Nat) : (v.cell d).closed = (w.cell d).closed := by
    rw [cell, World.modifyCell_keeps Cell.closed closed]
  have sameHook (d : Nat) : (v.cell d).hook = (w.cell d).hook := by
    rw [cell, World.modifyCell_keeps Cell.hook hook]
  constructor
  · exact cases (fun cell => ∀ entry ∈ cell.listeners, entry.2.Tame) tame tidy.tame
  · exact cases (fun cell => cell.deferred = []) nothingWaits tidy.nothingWaits
  · rw [config]; exact fun t known => by rw [sameClosed]; exact tidy.opened t known
  · rw [config]; exact fun t known => by rw [sameHook]; exact tidy.hooked t known
  · rw [config]; exact fun d opened => tidy.tracked d (sameClosed d ▸ opened)
  · rw [config]; exact tidy.unique
  · rw [config]; exact tidy.fresh

theorem mark (tidy : Tidy w) (c : Nat) : Tidy (w.modifyCell c .mark) :=
  tidy.of_modify (f := .mark) (fun _ => rfl) (fun _ => rfl) (tidy.tame c) (tidy.nothingWaits c) rfl
    rfl

theorem unmark (tidy : Tidy w) (c : Nat) : Tidy (w.modifyCell c .unmark) :=
  tidy.of_modify (f := .unmark) (fun _ => rfl) (fun _ => rfl) (tidy.tame c) rfl rfl rfl

theorem listen (tidy : Tidy w) (c : Nat) {l : Listener σ} (tame : l.Tame) (atOnce : Bool) :
    Tidy (w.listen c l atOnce) := by
  refine tidy.of_modify (f := (·.register l)) (fun _ => rfl) (fun _ => rfl)
    (fun entry listens => ?_) (tidy.nothingWaits c) rfl rfl
  rw [Cell.register] at listens
  dsimp only at listens
  split at listens
  · exact tidy.tame c entry listens
  · rcases List.mem_append.mp listens with listens | new
    · exact tidy.tame c entry listens
    · rw [List.mem_singleton.mp new]
      exact tame

end Tidy

theorem Calm.log (w : World σ) (e : Event) : Calm w (w.log e) := .of_eq rfl rfl

theorem Calm.listen (w : World σ) (c : Nat) (l : Listener σ) (atOnce : Bool) :
    Calm w (w.listen c l atOnce) :=
  .of_modify (f := (·.register l)) (fun _ => rfl) (fun _ => rfl) rfl rfl rfl fun _ known => known

/-! ### Parts of a run -/

section Parts

variable {plan : Plan σ} {w : World σ}

/-- What was calm until a run began and stays calm during the run is calm all the time. -/
theorem Settles.since {α : Type} {act : Nat → Act σ α} {v : World σ} (calm : Calm w v)
    (settles : Settles act v fun _ u => Tidy u ∧ Calm v u) :
    Settles act v fun _ u => Tidy u ∧ Calm w u :=
  settles.imp fun _ _ settled => ⟨settled.1, calm.trans settled.2⟩

/-- The script always comes to its end, and leaves a tidy world tidy and calm. -/
def Settling (plan : Plan σ) (script : Script σ) : Prop :=
  ∀ w, Tidy w → Settles (fun n => run plan n script) w fun _ v => Tidy v ∧ Calm w v

/-- The same of a listener, whatever it is told. -/
def Listener.Settling (plan : Plan σ) (l : Listener σ) : Prop :=
  ∀ value, Live.Settling plan (l.react value)

theorem call_settles {l : Listener σ} (settling : l.Settling plan) (tidy : Tidy w) (c id : Nat)
    (value : Option Value) :
    Settles (fun n => call plan n c id l value) w fun _ v => Tidy v ∧ Calm w v := by
  refine .succ (fun n => by rw [call]) (.after (Act.run_record _ w) ?_)
  have logged : Tidy (w.log (.called c id l.name value)) := tidy.of_eq rfl rfl rfl
  refine (settling value _ logged).bind fun _ v settled => .done ?_
  exact ⟨settled.1, (Calm.log w _).trans settled.2⟩

theorem callAll_settles {listeners : List (Nat × Listener σ)}
    (settling : ∀ entry ∈ listeners, entry.2.Settling plan) (tidy : Tidy w) (c : Nat)
    (value : Option Value) :
    Settles (fun n => callAll plan n c listeners value) w fun _ v => Tidy v ∧ Calm w v := by
  -- by induction on the listeners, each of which leaves a tidy world for the next one
  induction listeners generalizing w with
  | nil => exact .succ (fun n => by rw [callAll]) (.done ⟨tidy, .refl w⟩)
  | cons first rest ih =>
    obtain ⟨id, l⟩ := first
    have firstSettles := call_settles (settling (id, l) List.mem_cons_self) tidy c id value
    refine .succ (fun n => by rw [callAll]) (firstSettles.bind fun _ v settled => ?_)
    obtain ⟨tidy', calm⟩ := settled
    exact .since calm
      (ih (fun entry member => settling entry (List.mem_cons_of_mem _ member)) tidy')

theorem callIfPresent_settles {l : Listener σ} (settling : l.Settling plan) (tidy : Tidy w)
    (c id : Nat) :
    Settles (fun n => callIfPresent plan n c id l) w fun _ v => Tidy v ∧ Calm w v := by
  refine .succ (fun n => by rw [callIfPresent]) (.after (Act.run_readCell c w) ?_)
  cases (w.cell c).value with
  | none => exact .done ⟨tidy, .refl w⟩
  | some value => exact call_settles settling tidy c id (some value)

/-- No update waits in a tidy world, so there is none to be delivered. -/
theorem drain_settles (tidy : Tidy w) (c : Nat) {β : Type} {f : Option Bool → Act σ β} {b : β}
    (ends : (f none).run.run w = (.ok b, w)) {Q : β → World σ → Prop} (holds : Q b w) :
    Settles (fun n => nextDeferred c >>= fun next => deliver plan n c next >>= f) w Q := by
  have nothing : (nextDeferred c : Act σ _).run.run w = (.ok none, w) := by
    rw [Act.run_nextDeferred, tidy.nothingWaits c]
  have delivered : Settles (fun n => deliver plan n c none) w fun a v => a = none ∧ v = w :=
    .succ (fun n => by rw [deliver]) (.done ⟨rfl, rfl⟩)
  refine .after nothing (delivered.bind fun a v same => ?_)
  obtain ⟨rfl, rfl⟩ := same
  exact .const ends holds

theorem registerAndCall_settles {l : Listener σ} (tame : l.Tame) (settling : l.Settling plan)
    (tidy : Tidy w) (c : Nat) :
    Settles (fun n => registerAndCall plan n c l) w fun _ v => Tidy v ∧ Calm w v := by
  refine .succ (fun n => by rw [registerAndCall]) (.after (Act.run_readCell c w) ?_)
  cases marked : (w.cell c).notifying with
  | true =>
    refine .after (Act.run_register c l true w) ?_
    -- somebody is notifying already, who will turn to what waits
    have called := callIfPresent_settles settling (tidy.listen c tame true) c (w.cell c).nextId
    refine called.bind fun _ v settled => .done ?_
    exact ⟨settled.1, (Calm.listen w c l true).trans settled.2⟩
  | false =>
    refine Settles.between (.after (Act.run_register c l true _) ?_)
    have listening := (tidy.mark c).listen c tame true
    refine (callIfPresent_settles settling listening c _).bind fun _ v settled => ?_
    obtain ⟨tidy', calm⟩ := settled
    have all : Calm (w.modifyCell c .mark) v := (Calm.listen _ c l true).trans calm
    exact drain_settles tidy' c rfl ⟨tidy'.unmark c, all.between marked⟩

/-- The world once a cell with its hook was closed. -/
def World.shutCell (w : World σ) (c entry : Nat) : World σ :=
  (((w.modifyCell c .shut).log (.cellClosed c)).log (.hookRan c)).modifyConfig (·.untrack entry)

theorem cell_shutCell {c : Nat} (entry : Nat) (opened : (w.cell c).closed = false) (d : Nat) :
    (w.shutCell c entry).cell d = if c = d then (w.cell c).shut else w.cell d := by
  change (w.modifyCell c .shut).cell d = _
  split
  next same =>
    subst same
    exact World.cell_modifyCell_self w (World.lt_of_open opened) .shut
  next other => exact World.cell_modifyCell_of_ne w other .shut

theorem Calm.shutCell (w : World σ) (c entry : Nat) : Calm w (w.shutCell c entry) :=
  .of_modify (f := .shut) (fun _ => rfl) (fun _ => rfl) rfl rfl rfl fun _ known =>
    (List.mem_filter.mp known).1

/-- Closing a cell whose only hook has an entry forgotten. -/
theorem closeCell_settles (plan : Plan σ) {c : Nat}
    (hooked : (w.cell c).closed = false → ∃ entry, (w.cell c).hook = some (forget entry)) :
    Settles (fun n => closeCell plan n c) w fun _ v => ((w.cell c).closed = true ∧ v = w) ∨
      ((w.cell c).closed = false ∧ ∃ entry, (w.cell c).hook = some (forget entry) ∧
        v = w.shutCell c entry) := by
  refine .succ (fun n => by rw [closeCell]) (.after (Act.run_readCell c w) ?_)
  cases closed : (w.cell c).closed with
  | true => exact .done (.inl ⟨rfl, rfl⟩)
  | false =>
    obtain ⟨entry, hook⟩ := hooked closed
    rw [hook]
    refine .after (Act.run_changeCell c .shut w) (.after (Act.run_record _ _)
      (.after (Act.run_record _ _) ?_))
    -- the hook is run once the cell is closed
    have ran : Settles (fun n => run plan n (forget entry))
        (((w.modifyCell c .shut).log (.cellClosed c)).log (.hookRan c))
        fun _ v => v = w.shutCell c entry := by
      refine .succ (fun n => by rw [forget, run]) (.after (Act.run_modify _ _) ?_)
      exact .succ (fun n => by rw [run]) (.done rfl)
    exact ran.bind fun _ v same => .done (.inr ⟨rfl, entry, rfl, same⟩)

/-- Closing a derived cell: its entry goes with it. -/
theorem Tidy.shutCell (tidy : Tidy w) {c entry : Nat} (opened : (w.cell c).closed = false)
    (hook : (w.cell c).hook = some (forget entry)) : Tidy (w.shutCell c entry) := by
  have cell := cell_shutCell entry opened
  -- the entry that is forgotten is the only one for the cell, because the hook names it
  have other : ∀ t ∈ (w.shutCell c entry).config.tracked, t ∈ w.config.tracked ∧ c ≠ t.cell := by
    intro t known
    obtain ⟨known, ne⟩ := List.mem_filter.mp known
    refine ⟨known, fun same => ?_⟩
    have named := tidy.hooked t known
    rw [← same, hook] at named
    simp [forget] at named
    simp [named] at ne
  constructor
  · intro d entry listens
    rw [cell] at listens
    split at listens
    · cases listens
    · exact tidy.tame d entry listens
  · intro d
    rw [cell]
    split
    · rfl
    · exact tidy.nothingWaits d
  · intro t known
    obtain ⟨known, ne⟩ := other t known
    rw [cell, if_neg ne]
    exact tidy.opened t known
  · intro t known
    obtain ⟨known, ne⟩ := other t known
    rw [cell, if_neg ne]
    exact tidy.hooked t known
  · intro d opened
    rw [cell] at opened
    split at opened
    · cases opened
    next ne =>
      obtain ⟨t, known, rfl⟩ := tidy.tracked d opened
      refine ⟨t, List.mem_filter.mpr ⟨known, ?_⟩, rfl⟩
      -- an entry with the same number would be the same entry, and its cell the closed one
      obtain ⟨u, known', same⟩ := tidy.tracked c ‹(w.cell c).closed = false›
      have named := tidy.hooked u known'
      rw [same, hook] at named
      simp only [bne_iff_ne, ne_eq]
      intro equal
      have names : entry = u.id := by simpa [forget] using named
      have twin := tidy.unique t known u known' (equal.trans names)
      exact ne (by rw [twin, same])
  · intro t known u known'
    exact tidy.unique t (other t known).1 u (other u known').1
  · intro t known
    exact tidy.fresh t (other t known).1

theorem closeCell_settles_of_tidy (plan : Plan σ) (tidy : Tidy w) (c : Nat) :
    Settles (fun n => closeCell plan n c) w fun _ v => Tidy v ∧ Calm w v := by
  have hooked : (w.cell c).closed = false → ∃ entry, (w.cell c).hook = some (forget entry) := by
    intro opened
    obtain ⟨t, known, rfl⟩ := tidy.tracked c opened
    exact ⟨t.id, tidy.hooked t known⟩
  refine (closeCell_settles plan hooked).imp fun _ v how => ?_
  rcases how with ⟨_, rfl⟩ | ⟨opened, entry, hook, rfl⟩
  · exact ⟨tidy, .refl _⟩
  · exact ⟨tidy.shutCell opened hook, .shutCell w c entry⟩

/-- The configuration is being closed: nothing is tracked any more, and the cells that are open have
still to be closed. -/
structure Shutting (cells : List Nat) (w : World σ) : Prop where
  tame : ∀ c, ∀ entry ∈ (w.cell c).listeners, entry.2.Tame
  nothingWaits : ∀ c, (w.cell c).deferred = []
  untracked : w.config.tracked = []
  left : ∀ c, (w.cell c).closed = false →
    c ∈ cells ∧ ∃ entry, (w.cell c).hook = some (forget entry)

theorem Shutting.tidy (shutting : Shutting [] w) : Tidy w where
  tame := shutting.tame
  nothingWaits := shutting.nothingWaits
  opened := by rw [shutting.untracked]; nofun
  hooked := by rw [shutting.untracked]; nofun
  tracked c opened := by cases (shutting.left c opened).1
  unique := by rw [shutting.untracked]; nofun
  fresh := by rw [shutting.untracked]; nofun

theorem closeCells_settles {cells : List Nat} (shutting : Shutting cells w) :
    Settles (fun n => closeCells plan n cells) w fun _ v => Tidy v ∧ Calm w v := by
  -- by induction on the cells that are left; one of them may have been closed meanwhile
  induction cells generalizing w with
  | nil => exact .succ (fun n => by rw [closeCells]) (.done ⟨shutting.tidy, .refl w⟩)
  | cons c rest ih =>
    have first := closeCell_settles plan fun opened => (shutting.left c opened).2
    refine .succ (fun n => by rw [closeCells]) (first.bind fun _ v how => ?_)
    rcases how with ⟨closed, rfl⟩ | ⟨opened, entry, hook, rfl⟩
    · refine ih ⟨shutting.tame, shutting.nothingWaits, shutting.untracked, fun d opened => ?_⟩
      obtain ⟨among, hook⟩ := shutting.left d opened
      rcases List.mem_cons.mp among with rfl | among
      · rw [closed] at opened
        cases opened
      · exact ⟨among, hook⟩
    · have cell := cell_shutCell entry opened
      have others : Shutting rest (w.shutCell c entry) := by
        constructor
        · intro d entry listens
          rw [cell] at listens
          split at listens
          · cases listens
          · exact shutting.tame d entry listens
        · intro d
          rw [cell]
          split
          · rfl
          · exact shutting.nothingWaits d
        · have nothing := shutting.untracked
          simp [World.shutCell, World.modifyConfig, ConfigState.untrack, World.log,
            World.modifyCell, nothing]
        · intro d opened
          rw [cell] at opened ⊢
          split at opened
          · cases opened
          next ne =>
            rw [if_neg ne]
            obtain ⟨among, hook⟩ := shutting.left d opened
            exact ⟨(List.mem_cons.mp among).resolve_left (Ne.symm ne), hook⟩
      exact .since (.shutCell w c entry) (ih others)

theorem shut_settles (plan : Plan σ) (tidy : Tidy w) :
    Settles (fun n => shut plan n) w fun _ v => Tidy v ∧ Calm w v := by
  refine .succ (fun n => by rw [shut]) (.after (Act.run_get w) ?_)
  dsimp only
  cases closed : w.config.closed with
  | true => exact .done ⟨tidy, .refl w⟩
  | false =>
    refine .after (Act.run_modify _ w) ?_
    refine .after (Act.run_record _ _) ?_
    -- nothing is tracked from here on, so hooks find nothing to forget
    have shutting : Shutting (w.config.tracked.map Tracked.cell)
        ((w.modifyConfig .shut).log .configClosed) := by
      refine ⟨tidy.tame, tidy.nothingWaits, rfl, fun c opened => ?_⟩
      obtain ⟨t, known, rfl⟩ := tidy.tracked c opened
      exact ⟨List.mem_map_of_mem known, t.id, tidy.hooked t known⟩
    have began : Calm w ((w.modifyConfig .shut).log .configClosed) :=
      ⟨rfl, rfl, Nat.le_refl _, fun _ _ => rfl, fun _ => rfl, List.forall_mem_nil _⟩
    refine (closeCells_settles shutting).bind fun _ v settled => ?_
    obtain ⟨tidy', calm⟩ := settled
    obtain ⟨events, surroundings, _, after⟩ := closeSources_spec 0 plan.sources v
    refine .const (Act.run_closeSources 0 plan.sources v) ?_
    rw [after]
    exact ⟨tidy'.of_eq rfl rfl rfl, (began.trans calm).trans (.of_eq rfl rfl)⟩

/-- The world with a new derived cell and its hook. -/
def World.newDerived (w : World σ) (extract : Extractor) (value : Option Value) : World σ :=
  (w.follow extract value).modifyCell w.cells.length fun cell =>
    { cell with hook := some (forget w.config.nextId) }

theorem cell_newDerived (w : World σ) (extract : Extractor) (value : Option Value) (d : Nat) :
    (w.newDerived extract value).cell d = if d = w.cells.length then
      { value, hook := some (forget w.config.nextId) } else w.cell d := by
  have here : w.cells.length < (w.follow extract value).cells.length := by
    simp [World.follow, World.addCell, World.modifyConfig]
  have followed (d : Nat) : (w.follow extract value).cell d =
      if d = w.cells.length then { value } else w.cell d := World.cell_addCell w { value } d
  rw [World.newDerived]
  split
  next same =>
    subst same
    rw [World.cell_modifyCell_self _ here, followed, if_pos rfl]
  next other => rw [World.cell_modifyCell_of_ne _ (Ne.symm other), followed, if_neg other]

theorem Calm.newDerived {extract : Extractor} {value : Option Value}
    (idle : w.config.dispatching = false) (seeded : seed extract w.config.current = .ok value) :
    Calm w (w.newDerived extract value) := by
  have cell := cell_newDerived w extract value
  have length : (w.newDerived extract value).cells.length = w.cells.length + 1 := by
    simp [World.newDerived, World.follow, World.addCell, World.modifyConfig, World.modifyCell]
  refine ⟨rfl, rfl, by omega, fun c here => ?_, fun c => ?_, fun t known => ?_⟩
  · rw [cell, if_neg (Nat.ne_of_lt here)]
  · rw [cell]
    split
    next same =>
      -- before it was made the new cell counted as one without a mark
      have beyond : w.cell c = .gone := by
        rw [World.cell, List.getD_eq_getElem?_getD, List.getElem?_eq_none (Nat.le_of_eq same.symm)]
        rfl
      rw [beyond]
      rfl
    · rfl
  · rcases List.mem_append.mp known with known | new
    · exact .inl known
    · rw [List.mem_singleton.mp new, cell, if_pos rfl]
      exact .inr ⟨idle, Nat.le_refl _, by rw [length]; exact Nat.lt_succ_self _, seeded⟩

theorem Tidy.newDerived (tidy : Tidy w) (extract : Extractor) (value : Option Value) :
    Tidy (w.newDerived extract value) := by
  have cell := cell_newDerived w extract value
  -- a tracked cell is open, so it is not the new one, which was not there before
  have old : ∀ t ∈ w.config.tracked, t.cell ≠ w.cells.length := fun t known =>
    Nat.ne_of_lt (World.lt_of_open (tidy.opened t known))
  have known : ∀ t ∈ (w.newDerived extract value).config.tracked,
      t ∈ w.config.tracked ∨ t = ⟨w.config.nextId, w.cells.length, extract⟩ := by
    intro t known
    exact (List.mem_append.mp known).imp id List.mem_singleton.mp
  constructor
  · intro c entry listens
    rw [cell] at listens
    split at listens
    · cases listens
    · exact tidy.tame c entry listens
  · intro c
    rw [cell]
    split
    · rfl
    · exact tidy.nothingWaits c
  · intro t member
    rcases known t member with member | rfl
    · rw [cell, if_neg (old t member)]
      exact tidy.opened t member
    · rw [cell, if_pos rfl]
  · intro t member
    rcases known t member with member | rfl
    · rw [cell, if_neg (old t member)]
      exact tidy.hooked t member
    · rw [cell, if_pos rfl]
  · intro c opened
    rw [cell] at opened
    split at opened
    next same =>
      exact ⟨_, List.mem_append_right _ (List.mem_singleton.mpr rfl), same.symm⟩
    next =>
      obtain ⟨t, member, same⟩ := tidy.tracked c opened
      exact ⟨t, List.mem_append_left _ member, same⟩
  · intro t member u member' same
    rcases known t member with member | rfl <;> rcases known u member' with member' | rfl
    · exact tidy.unique t member u member' same
    · exact absurd same (Nat.ne_of_lt (tidy.fresh t member))
    · exact absurd same.symm (Nat.ne_of_lt (tidy.fresh u member'))
    · rfl
  · intro t member
    rcases known t member with member | rfl
    · exact Nat.lt_succ_of_lt (tidy.fresh t member)
    · exact Nat.lt_succ_self _

theorem derive_settles (plan : Plan σ) (tidy : Tidy w) (extract : Extractor) :
    Settles (fun n => derive plan n extract) w fun _ v => Tidy v ∧ Calm w v := by
  refine .succ (fun n => by rw [derive]) (.after (Act.run_get w) ?_)
  dsimp only
  cases idle : w.config.dispatching with
  | true => exact .done ⟨tidy, .refl w⟩
  | false =>
    cases w.config.closed with
    | true => exact .done ⟨tidy, .refl w⟩
    | false =>
      cases seeded : seed extract w.config.current with
      | error e => exact .done ⟨tidy, .refl w⟩
      | ok value =>
        refine .after (Act.run_track extract value w) ?_
        have opened : ((w.follow extract value).cell w.cells.length).closed = false := by
          rw [World.follow, World.cell_modifyConfig, World.cell_addCell, if_pos rfl]
        -- the new cell is open, so its hook is put in place and does not run
        have hooking : Settles
            (fun n => run plan n (forgetOnClose w.cells.length w.config.nextId))
            (w.follow extract value) fun _ v => v = w.newDerived extract value := by
          refine .succ (fun n => by rw [forgetOnClose, run]) ?_
          refine .after (Act.run_readCell _ _) ?_
          rw [opened]
          refine .after (Act.run_changeCell _ _ _) ?_
          exact .succ (fun n => by rw [run]) (.done rfl)
        refine hooking.bind fun _ v same => .done ?_
        subst same
        exact ⟨tidy.newDerived extract value, .newDerived idle seeded⟩

/-- Tame scripts come to their end, and leave a tidy world tidy and calm. -/
theorem settling_of_tame (plan : Plan σ) {script : Script σ} (tame : script.Tame) :
    Settling plan script := by
  -- by induction on the script; listeners that it adds are scripts in it as well
  induction script with
  | done reply => exact fun w tidy => .succ (fun n => by rw [run]) (.done ⟨tidy, .refl w⟩)
  | panic | update | onClose | untrack => exact tame.elim
  | register c name react next _ ih =>
    intro w tidy
    refine .succ (fun n => by rw [run]) (.after (Act.run_register c ⟨name, react⟩ false w) ?_)
    have listening := tidy.listen c (l := ⟨name, react⟩) tame.1 false
    exact .since (.listen w c _ false) (ih _ (tame.2 _) _ listening)
  | registerAndCall c name react next reacts ih =>
    intro w tidy
    have added := registerAndCall_settles (l := ⟨name, react⟩) tame.1
      (fun value => reacts value (tame.1 value)) tidy c
    refine .succ (fun n => by rw [run]) (added.bind fun id v settled => ?_)
    exact .since settled.2 (ih id (tame.2 id) v settled.1)
  | deregister c id next ih =>
    intro w tidy
    refine .succ (fun n => by rw [run]) (.after (Act.run_changeCell c _ w)
      (.after (Act.run_record _ _) ?_))
    have less : Tidy ((w.modifyCell c (·.deregister id)).log (.deregistered c id)) := by
      refine tidy.of_modify (f := (·.deregister id)) (fun _ => rfl) (fun _ => rfl)
        (fun entry listens => ?_) (tidy.nothingWaits c) rfl rfl
      exact tidy.tame c entry (List.mem_filter.mp listens).1
    refine .since ?_ (ih tame _ less)
    exact .of_modify (f := (·.deregister id)) (fun _ => rfl) (fun _ => rfl) rfl rfl rfl
      fun _ known => known
  | close c next ih =>
    intro w tidy
    have closes := closeCell_settles_of_tidy plan tidy c
    refine .succ (fun n => by rw [run]) (closes.bind fun _ v settled => ?_)
    exact .since settled.2 (ih tame v settled.1)
  | look c next ih =>
    intro w tidy
    exact .succ (fun n => by rw [run]) (.after (Act.run_readCell c w) (ih _ (tame _) w tidy))
  | derive extract next ih =>
    intro w tidy
    have derives := derive_settles plan tidy extract
    refine .succ (fun n => by rw [run]) (derives.bind fun made v settled => ?_)
    exact .since settled.2 (ih made (tame made) v settled.1)
  | tree next ih =>
    intro w tidy
    exact .succ (fun n => by rw [run]) (.after (Act.run_get w) (ih _ (tame _) w tidy))
  | shut next ih =>
    intro w tidy
    have shuts := shut_settles plan tidy
    refine .succ (fun n => by rw [run]) (shuts.bind fun _ v settled => ?_)
    exact .since settled.2 (ih tame v settled.1)
  | start next ih =>
    intro w tidy
    refine .succ (fun n => by rw [run]) ?_
    dsimp only
    split
    · refine .after (Act.run_modify _ w) ?_
      exact .since (.of_eq rfl rfl) (ih _ (tame _) _ (tidy.of_eq rfl rfl rfl))
    · exact ih _ (tame _) w tidy
  | inspect next ih =>
    intro w tidy
    exact .succ (fun n => by rw [run]) (.after (Act.run_get w) (ih _ (tame _) w tidy))
  | alter change next ih =>
    intro w tidy
    refine .succ (fun n => by rw [run]) (.after (Act.run_modify _ w) ?_)
    exact .since (.of_eq rfl rfl) (ih tame _ (tidy.of_eq rfl rfl rfl))
  | note listener step reply next ih =>
    intro w tidy
    refine .succ (fun n => by rw [run]) (.after (Act.run_record _ w) ?_)
    exact .since (.log w _) (ih tame _ (tidy.of_eq rfl rfl rfl))

end Parts

end LayeredConfig.Live
