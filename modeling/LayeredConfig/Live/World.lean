import LayeredConfig.Live.Script
/-!
# Worlds

A world holds cells, the state of one configuration, the surroundings, and the history of what
happened. A cell is a value that may be absent, with the listeners that hear of its changes.
-/
namespace LayeredConfig.Live

/-- The order in which things are told: as they were registered, or the last one first. -/
inductive NotifyOrder where
  | registration
  | reverse
  deriving DecidableEq, Repr

/-- A list in the order of notification. -/
def NotifyOrder.arrange {α : Type} : NotifyOrder → List α → List α
  | .registration, xs => xs
  | .reverse, xs => xs.reverse

namespace NotifyOrder

variable {α β : Type} (order : NotifyOrder)

@[simp] theorem mem_arrange {xs : List α} {x : α} : x ∈ order.arrange xs ↔ x ∈ xs := by
  cases order
  · rfl
  · exact List.mem_reverse

theorem map_arrange (f : α → β) (xs : List α) :
    (order.arrange xs).map f = order.arrange (xs.map f) := by
  cases order
  · rfl
  · exact List.map_reverse

theorem arrange_sublist {xs ys : List α} (h : xs.Sublist ys) :
    (order.arrange xs).Sublist (order.arrange ys) := by
  cases order
  · exact h
  · exact h.reverse

theorem nodup_arrange {xs : List α} (h : xs.Nodup) : (order.arrange xs).Nodup := by
  cases order
  · exact h
  · exact List.pairwise_reverse.mpr (h.imp Ne.symm)

end NotifyOrder

/-- A cell. While its listeners are called it is marked as notifying, and updates wait in
`deferred`. -/
structure Cell (σ : Type) where
  value : Option Value := none
  order : NotifyOrder := .registration
  listeners : List (Nat × Listener σ) := []
  nextId : Nat := 0
  closed : Bool := false
  notifying : Bool := false
  deferred : List (Option Value) := []
  hook : Option (Script σ) := none

namespace Cell

variable {σ : Type}

/-- A closed cell without a value; it stands for cells that are not there. -/
def gone : Cell σ := { closed := true }

/-- The cell with a listener, unless it is closed; the listener gets a number in any case. -/
def register (c : Cell σ) (l : Listener σ) : Cell σ :=
  { c with
    nextId := c.nextId + 1
    listeners := if c.closed then c.listeners else c.listeners ++ [(c.nextId, l)] }

def deregister (c : Cell σ) (listener : Nat) : Cell σ :=
  { c with listeners := c.listeners.filter fun (id, _) => id != listener }

def defer (c : Cell σ) (value : Option Value) : Cell σ :=
  { c with deferred := c.deferred ++ [value] }

def mark (c : Cell σ) : Cell σ := { c with notifying := true }

/-- The cell without the mark; updates that are still put off are forgotten. -/
def unmark (c : Cell σ) : Cell σ := { c with notifying := false, deferred := [] }

/-- The cell once it is closed: no listeners, nothing put off, no hook. -/
def shut (c : Cell σ) : Cell σ :=
  { c with closed := true, listeners := [], deferred := [], hook := none }

end Cell

/-- A derived cell and the rule by which it follows the tree. -/
structure Tracked where
  id : Nat
  cell : Nat
  extract : Extractor

/-- What can be said of a configuration at a moment. `inFlight` is the number of the refresh that is
under way; times are in milliseconds. -/
structure ConfigState where
  current : Option Tree := none
  tracked : List Tracked := []
  nextId : Nat := 0
  closed : Bool := false
  inFlight : Option Nat := none
  dispatching : Bool := false
  lastRefreshed : Option Nat := none
  lastError : Option ConfigError := none

/-- What happens in a world. Of a new listener it is said whether it was to be called at once. -/
inductive Event where
  | stored (cell : Nat) (value : Option Value)
  | deferred (cell : Nat) (value : Option Value)
  | registered (cell listener : Nat) (atOnce : Bool)
  | called (cell listener : Nat) (name : String) (value : Option Value)
  | deregistered (cell listener : Nat)
  | cellClosed (cell : Nat)
  | hookRan (cell : Nat)
  | noted (listener step : String) (reply : Reply)
  | asked (source : Nat)
  | transformed (transformer : Nat)
  | published (tree : Tree)
  | configClosed
  | sourceClosed (source : Nat)

/-- A world. The history has the latest event first; `loops` counts the refresh loops that were
started and not yet set going. -/
structure World (σ : Type) where
  cells : List (Cell σ) := []
  config : ConfigState := {}
  surroundings : σ
  history : List Event := []
  loops : Nat := 0
  now : Nat := 0

namespace World

variable {σ : Type}

def cell (w : World σ) (c : Nat) : Cell σ := w.cells.getD c .gone

def modifyCell (w : World σ) (c : Nat) (f : Cell σ → Cell σ) : World σ :=
  { w with cells := w.cells.modify c f }

def addCell (w : World σ) (c : Cell σ) : World σ :=
  { w with cells := w.cells ++ [c] }

/-- The world with the state of its configuration changed. -/
def modifyConfig (w : World σ) (f : ConfigState → ConfigState) : World σ :=
  { w with config := f w.config }

def log (w : World σ) (e : Event) : World σ :=
  { w with history := e :: w.history }

theorem cell_modifyCell_self (w : World σ) {c : Nat} (h : c < w.cells.length)
    (f : Cell σ → Cell σ) : (w.modifyCell c f).cell c = f (w.cell c) := by
  simp [cell, modifyCell, List.getD_eq_getElem?_getD, h]

theorem cell_modifyCell_of_ne (w : World σ) {c d : Nat} (h : c ≠ d) (f : Cell σ → Cell σ) :
    (w.modifyCell c f).cell d = w.cell d := by
  simp [cell, modifyCell, List.getD_eq_getElem?_getD, h]

/-- Cells that are not there are closed. -/
theorem lt_of_open {w : World σ} {c : Nat} (h : (w.cell c).closed = false) :
    c < w.cells.length := by
  apply Nat.lt_of_not_le
  intro beyond
  rw [cell, List.getD_eq_getElem?_getD, List.getElem?_eq_none beyond] at h
  cases h

theorem cell_of_beyond {w : World σ} {c : Nat} (beyond : w.cells.length ≤ c) :
    w.cell c = .gone := by
  rw [cell, List.getD_eq_getElem?_getD, List.getElem?_eq_none beyond, Option.getD_none]

/-- A change of one cell leaves a cell as it is unless it is that one. -/
theorem cell_modifyCell (w : World σ) (c : Nat) (f : Cell σ → Cell σ) (d : Nat) :
    (w.modifyCell c f).cell d = w.cell d ∨
      c = d ∧ c < w.cells.length ∧ (w.modifyCell c f).cell d = f (w.cell c) := by
  by_cases here : c < w.cells.length
  · by_cases same : c = d
    · subst same
      exact .inr ⟨rfl, here, cell_modifyCell_self w here f⟩
    · exact .inl (cell_modifyCell_of_ne w same f)
  · have same : (w.modifyCell c f).cells = w.cells := List.modify_eq_self (Nat.le_of_not_lt here)
    exact .inl (by rw [cell, same, cell])

/-- What a change of one cell leaves as it is stays the same in all cells. -/
theorem modifyCell_keeps {α : Type} {f : Cell σ → Cell σ} (p : Cell σ → α)
    (keeps : ∀ cell, p (f cell) = p cell) (w : World σ) (c d : Nat) :
    p ((w.modifyCell c f).cell d) = p (w.cell d) := by
  by_cases same : c = d
  · subst same
    by_cases exists_ : c < w.cells.length
    · rw [cell_modifyCell_self w exists_, keeps]
    · simp [cell, modifyCell, List.getD_eq_getElem?_getD, exists_]
  · rw [cell_modifyCell_of_ne w same]

theorem cell_addCell (w : World σ) (added : Cell σ) (c : Nat) :
    (w.addCell added).cell c = if c = w.cells.length then added else w.cell c := by
  simp only [cell, addCell, List.getD_eq_getElem?_getD]
  rcases Nat.lt_trichotomy c w.cells.length with earlier | rfl | later
  · rw [if_neg (Nat.ne_of_lt earlier), List.getElem?_append_left earlier]
  · rw [if_pos rfl, List.getElem?_concat_length, Option.getD_some]
  · have beyond : (w.cells ++ [added]).length ≤ c := by
      rw [List.length_append, List.length_singleton]
      exact later
    rw [if_neg (Nat.ne_of_gt later), List.getElem?_eq_none beyond,
      List.getElem?_eq_none (Nat.le_of_lt later)]

@[simp] theorem cell_log (w : World σ) (e : Event) (c : Nat) : (w.log e).cell c = w.cell c := rfl

@[simp] theorem cell_modifyConfig (w : World σ) (f : ConfigState → ConfigState) (c : Nat) :
    (w.modifyConfig f).cell c = w.cell c := rfl

end World
end LayeredConfig.Live
