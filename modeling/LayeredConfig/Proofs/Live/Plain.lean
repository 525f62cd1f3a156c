import LayeredConfig.Proofs.Live.Laws
import LayeredConfig.Proofs.Live.Offered
/-!
# Work that leaves derived cells alone

`Regular` ties the open derived cells to the list of entries. That ends when the configuration is
closed. What remains true then is a law: no script updates a cell that follows the tree. So at every
moment, whether the configuration is open or not, no work on the agenda asks for an update of a
derived cell (`Item.Plain.brings`).
-/
namespace LayeredConfig.Live

variable {σ : Type} {n : Nat} {w : World σ} {item : Item σ}

/-- An update is one of a cell with a number below `n`. -/
def Script.UpdatesBelow (n : Nat) : Script σ → Prop
  | .update c _ _ => c < n
  | _ => True

/-- The law that only cells with numbers below `n` are updated. -/
def Law.updatesBelow (n : Nat) : Law σ where
  own := Script.UpdatesBelow n
  inner := Script.UpdatesBelow n
  stricter := fun _ => id
  ends := fun _ => trivial
  forgets := fun _ => trivial
  hooks := fun _ _ => trivial

/-- What can stand on an agenda, whether the configuration is open or not. -/
abbrev Item.Plain (n : Nat) (item : Item σ) : Prop := item.Obeys (.updatesBelow n)

/-- Listeners and hooks update cells with numbers below `n` only. -/
abbrev World.Plain (n : Nat) (w : World σ) : Prop := w.Obeys (.updatesBelow n)

theorem Script.Offered.plain {script : Script σ} (offered : script.Offered n) :
    script.Obeys (.updatesBelow n) := by
  induction script with
  | done | panic => exact ⟨trivial, trivial⟩
  | update c value next ih => exact ⟨offered.1, fun r => ih r (offered.2 r)⟩
  | register c name react next react_ih ih | registerAndCall c name react next react_ih ih =>
    exact ⟨trivial, fun value => react_ih value (offered.1 value), fun id => ih id (offered.2 id)⟩
  | deregister c listener next ih | close c next ih | shut next ih | alter change next ih
    | note listener step reply next ih => exact ⟨trivial, ih offered⟩
  | onClose c hook next hook_ih ih => exact ⟨trivial, hook_ih offered.2.1, ih offered.2.2⟩
  | untrack => exact offered.elim
  | look c next ih | derive extract next ih | tree next ih | start next ih | inspect next ih =>
    exact ⟨trivial, fun r => ih r (offered r)⟩

theorem Item.Fits.plain (fits : item.Fits n w) : item.Plain n := by
  cases item with
  | go script =>
    rcases fits with offered | ⟨c, entry, _, _, _, rfl⟩ | ⟨_, entry, _, _, _, rfl⟩
    · exact offered.plain
    · exact obeys_forgetOnClose _ c entry
    · exact (obeys_forget _ entry).of_strict
  | tell | greet => exact fun value => (fits value).plain
  | derive extract => exact ⟨fun _ => .panic, trivial⟩
  | _ => trivial

theorem Regular.plain (regular : Regular n w) : w.Plain n where
  listeners c entry listens value := (regular.listeners c entry listens value).plain
  hooks c hook has := by
    rcases regular.hooks c hook has with ⟨_, offered⟩ | ⟨entry, _, _, rfl⟩
    · exact offered.plain
    · exact obeys_forget _ entry
  tracked _ _ := ⟨fun _ => .panic, trivial⟩

/-! ### What work brings with it -/

/-- How a piece of work may bring another one with it: updates are asked for of cells that do not
follow the tree, a value is applied when it is its turn, and listeners are called when they are
added or when a value was stored. -/
def Item.Brings (n : Nat) (w : World σ) (item : Item σ) : Item σ → Prop
  | .put d _ => d < n
  | .apply d value => item = .put d value ∨ item = .drain d ∧ (w.cell d).deferred ≠ []
  | .tell d other l value => item = .apply d value ∨
    item = .greet d l ∧ other = (w.cell d).nextId ∧ (w.cell d).value ≠ none
  | _ => True

theorem Item.brings_welcome (w : World σ) (d : Nat) (l : Listener σ) :
    ∀ i ∈ welcome w d (w.cell d).nextId l, (Item.greet d l).Brings n w i := by
  rw [welcome]
  split
  next value held =>
    refine List.forall_mem_singleton.mpr (.inr ⟨rfl, rfl, ?_⟩)
    rw [held]
    exact Option.some_ne_none value
  next => exact List.forall_mem_nil _

theorem Item.Plain.brings (plan : Plan σ) (plain : item.Plain n) :
    ∀ i ∈ (item.step plan w).1, item.Brings n w i := by
  cases item with
  | go script =>
    cases script with
    | update d value next =>
      exact List.forall_mem_cons.mpr ⟨plain.1, List.forall_mem_singleton.mpr trivial⟩
    | onClose =>
      rw [Item.step, Script.step]
      split <;> simp [Item.Brings]
    | _ => simp [Item.step, Script.step, Item.Brings]
  | put | derive =>
    rw [Item.step]
    split
    · exact List.forall_mem_nil _
    · split <;> simp [Item.Brings]
  | apply =>
    rw [Item.step]
    split
    · exact List.forall_mem_nil _
    · split
      · simp [Item.Brings]
      · intro i member
        rcases List.mem_append.mp member with told | last
        · obtain ⟨listener, _, rfl⟩ := List.mem_map.mp told
          exact .inl rfl
        · rw [List.mem_singleton.mp last]
          trivial
  | drain d =>
    rw [Item.step]
    split
    · exact List.forall_mem_nil _
    next value later waiting =>
      refine List.forall_mem_singleton.mpr (.inr ⟨rfl, ?_⟩)
      rw [waiting]
      exact List.cons_ne_nil value later
  | greet d l =>
    rw [Item.step]
    split
    · exact brings_welcome w d l
    · intro i member
      rcases List.mem_append.mp member with told | others
      · exact brings_welcome w d l i told
      · rcases List.mem_cons.mp others with rfl | last
        · trivial
        · rw [List.mem_singleton.mp last]
          trivial
  | close =>
    rw [Item.step]
    split
    · exact List.forall_mem_nil _
    · dsimp only
      split <;> simp [Item.Brings]
  | shut =>
    rw [Item.step]
    split
    · exact List.forall_mem_nil _
    · intro i member
      rcases List.mem_append.mp member with closed | last
      · obtain ⟨t, _, rfl⟩ := List.mem_map.mp closed
        trivial
      · rw [List.mem_singleton.mp last]
        trivial
  | tell | unmark | shutSources | endDispatch => simp [Item.step, Item.Brings]

end LayeredConfig.Live
