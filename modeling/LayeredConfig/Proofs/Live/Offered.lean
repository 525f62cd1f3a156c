import LayeredConfig.Proofs.Live.Marks
import LayeredConfig.Proofs.Live.Tame
/-!
# Cells that follow the tree

A derived cell is handed out to be read, to be listened to and to be closed; nobody but the
configuration puts values into it, sets its hook or takes its entry from the list. `Script.Offered`
says which scripts there can be for that reason, if the first `n` cells of a world are other cells.
As long as the configuration is open the open derived cells are then the tracked ones, each with an
entry of its own: `Regular`, which every step keeps.
-/
namespace LayeredConfig.Live

variable {σ : Type}

/-- A script that updates and hooks only cells with numbers below `n`, and leaves the list of
entries alone. -/
def Script.Offered (n : Nat) : Script σ → Prop
  | .done _ | .panic => True
  | .update c _ next => c < n ∧ ∀ r, (next r).Offered n
  | .register _ _ react next | .registerAndCall _ _ react next =>
    (∀ value, (react value).Offered n) ∧ ∀ id, (next id).Offered n
  | .deregister _ _ next | .close _ next | .shut next => next.Offered n
  | .alter _ next | .note _ _ _ next => next.Offered n
  | .onClose c hook next => c < n ∧ hook.Offered n ∧ next.Offered n
  | .untrack .. => False
  | .look _ next => ∀ value, (next value).Offered n
  | .derive _ next => ∀ made, (next made).Offered n
  | .tree next => ∀ tree, (next tree).Offered n
  | .start next => ∀ started, (next started).Offered n
  | .inspect next => ∀ surroundings, (next surroundings).Offered n

/-- A listener that runs such scripts, whatever it is told. -/
def Listener.Offered (n : Nat) (l : Listener σ) : Prop := ∀ value, (l.react value).Offered n

namespace World

/-- Only a cell can have the entry, if anybody has it. -/
def Owns (w : World σ) (c entry : Nat) : Prop :=
  entry < w.config.nextId ∧ ∀ t ∈ w.config.tracked, t.id = entry → t.cell = c

/-- Cells that are closed stay closed, and entries that are new have new numbers and new cells. -/
structure Later (w w' : World σ) : Prop where
  cells : w.cells.length ≤ w'.cells.length
  closed : ∀ c < w.cells.length, (w.cell c).closed = true → (w'.cell c).closed = true
  nextId : w.config.nextId ≤ w'.config.nextId
  tracked : ∀ t ∈ w'.config.tracked,
    t ∈ w.config.tracked ∨ w.config.nextId ≤ t.id ∧ w.cells.length ≤ t.cell

theorem Later.refl (w : World σ) : w.Later w :=
  ⟨Nat.le_refl _, fun _ _ closed => closed, Nat.le_refl _, fun _ known => .inl known⟩

theorem Later.trans {u v w : World σ} (first : u.Later v) (second : v.Later w) : u.Later w where
  cells := Nat.le_trans first.cells second.cells
  closed c here closed := second.closed c (Nat.lt_of_lt_of_le here first.cells)
    (first.closed c here closed)
  nextId := Nat.le_trans first.nextId second.nextId
  tracked t known := by
    rcases second.tracked t known with old | ⟨id, cell⟩
    · exact first.tracked t old
    · exact .inr ⟨Nat.le_trans first.nextId id, Nat.le_trans first.cells cell⟩

theorem Owns.later {w w' : World σ} {c entry : Nat} (owns : w.Owns c entry) (later : w.Later w') :
    w'.Owns c entry := by
  refine ⟨Nat.lt_of_lt_of_le owns.1 later.nextId, fun t known same => ?_⟩
  rcases later.tracked t known with known | ⟨new, _⟩
  · exact owns.2 t known same
  · exact absurd (same ▸ owns.1) (Nat.not_lt_of_le new)

/-- What hooks there can be stays true. -/
theorem Later.hook {n : Nat} {w w' : World σ} {c : Nat} {hook : Script σ} (later : w.Later w')
    (owned : c < n ∧ hook.Offered n ∨ ∃ entry, n ≤ c ∧ w.Owns c entry ∧ hook = forget entry) :
    c < n ∧ hook.Offered n ∨ ∃ entry, n ≤ c ∧ w'.Owns c entry ∧ hook = forget entry :=
  owned.imp_right fun ⟨entry, derived, owns, same⟩ => ⟨entry, derived, owns.later later, same⟩

end World

/-- What can stand on an agenda while the configuration is open. Beside scripts that are offered
there is the work of derived cells: a hook that will have an entry forgotten once the cell is
closed, and the script of such a hook when the cell is closed. -/
def Item.Fits (n : Nat) (w : World σ) : Item σ → Prop
  | .go script => script.Offered n ∨
    (∃ c entry, n ≤ c ∧ c < w.cells.length ∧ w.Owns c entry ∧ script = forgetOnClose c entry) ∨
    ∃ c entry, c < w.cells.length ∧ (w.cell c).closed = true ∧ w.Owns c entry ∧
      script = forget entry
  | .tell _ _ l _ | .greet _ l => l.Offered n
  | .shutSources => False
  | _ => True

theorem Item.Fits.later {n : Nat} {w w' : World σ} {item : Item σ} (fits : item.Fits n w)
    (later : w.Later w') : item.Fits n w' := by
  cases item with
  | go script =>
    rcases fits with
      offered | ⟨c, entry, derived, here, owns, rfl⟩ | ⟨c, entry, here, closed, owns, rfl⟩
    · exact .inl offered
    · exact .inr (.inl
        ⟨c, entry, derived, Nat.lt_of_lt_of_le here later.cells, owns.later later, rfl⟩)
    · exact .inr (.inr ⟨c, entry, Nat.lt_of_lt_of_le here later.cells, later.closed c here closed,
        owns.later later, rfl⟩)
  | _ => exact fits

theorem Item.fits_next {n : Nat} {w : World σ} {script : Script σ} (offered : script.Offered n) :
    ∀ i ∈ [Item.go script], i.Fits n w :=
  List.forall_mem_singleton.mpr (.inl offered)

theorem Item.fits_then {n : Nat} {w : World σ} (item : Item σ) (fits : item.Fits n w)
    {script : Script σ} (offered : script.Offered n) : ∀ i ∈ [item, .go script], i.Fits n w :=
  List.forall_mem_cons.mpr ⟨fits, fits_next offered⟩

/-- The open derived cells are the tracked ones, each with an entry of its own; the hook of a
derived cell has its entry forgotten, and all other scripts are offered ones. -/
structure Regular (n : Nat) (w : World σ) : Prop where
  others : n ≤ w.cells.length
  listeners : ∀ c, ∀ entry ∈ (w.cell c).listeners, entry.2.Offered n
  hooks : ∀ c hook, (w.cell c).hook = some hook → c < n ∧ hook.Offered n ∨
    ∃ entry, n ≤ c ∧ w.Owns c entry ∧ hook = forget entry
  followed : ∀ c, n ≤ c → (w.cell c).closed = false → ∃ t ∈ w.config.tracked, t.cell = c
  derived : ∀ t ∈ w.config.tracked, n ≤ t.cell ∧ t.cell < w.cells.length ∧ t.id < w.config.nextId
  distinct : (w.config.tracked.map Tracked.cell).Nodup

/-- A step from one regular world to another, and the work that it brings with it. -/
structure Goes (n : Nat) (w : World σ) (new : List (Item σ)) (w' : World σ) : Prop where
  later : w.Later w'
  regular : Regular n w'
  fits : ∀ i ∈ new, i.Fits n w'

namespace Goes

variable {n : Nat} {w w' : World σ} {new : List (Item σ)}

/-- Neither the cells changed nor what is tracked. -/
theorem of_eq (regular : Regular n w) (cells : w'.cells = w.cells)
    (tracked : w'.config.tracked = w.config.tracked) (nextId : w'.config.nextId = w.config.nextId)
    (fits : ∀ i ∈ new, i.Fits n w) : Goes n w new w' := by
  have cell (c : Nat) : w'.cell c = w.cell c := by rw [World.cell, cells, World.cell]
  have later : w.Later w' := {
    cells := Nat.le_of_eq (congrArg List.length cells).symm
    closed := fun c _ closed => by rw [cell]; exact closed
    nextId := Nat.le_of_eq nextId.symm
    tracked := fun t known => .inl (tracked ▸ known) }
  refine ⟨later, ⟨?_, ?_, ?_, ?_, ?_, ?_⟩, fun i member => (fits i member).later later⟩
  · rw [cells]; exact regular.others
  · exact fun c => by rw [cell]; exact regular.listeners c
  · intro c hook has
    rw [cell] at has
    exact later.hook (regular.hooks c hook has)
  · intro c derived opened
    rw [tracked]
    exact regular.followed c derived (cell c ▸ opened)
  · rw [tracked, cells, nextId]; exact regular.derived
  · rw [tracked]; exact regular.distinct

/-- A cell changed, but it is not open again, its listeners are offered ones, and its hook is the
old one or belongs to the cell. -/
theorem of_modify (regular : Regular n w) {c : Nat} {f : Cell σ → Cell σ}
    (closed : ∀ cell, cell.closed = true → (f cell).closed = true)
    (listeners : ∀ entry ∈ (f (w.cell c)).listeners, entry.2.Offered n)
    (hooks : ∀ hook, (f (w.cell c)).hook = some hook → (w.cell c).hook = some hook ∨
      c < n ∧ hook.Offered n ∨ ∃ entry, n ≤ c ∧ w.Owns c entry ∧ hook = forget entry)
    (cells : w'.cells = (w.modifyCell c f).cells) (config : w'.config = w.config)
    (fits : w.Later w' → ∀ i ∈ new, i.Fits n w') : Goes n w new w' := by
  have cell (d : Nat) : w'.cell d = w.cell d ∨
      c = d ∧ c < w.cells.length ∧ w'.cell d = f (w.cell c) := by
    have same : w'.cell d = (w.modifyCell c f).cell d := by rw [World.cell, cells, World.cell]
    rw [same]
    exact w.cell_modifyCell c f d
  have length : w'.cells.length = w.cells.length := by
    rw [cells]
    exact List.length_modify ..
  have later : w.Later w' := {
    cells := Nat.le_of_eq length.symm
    closed := fun d _ before => by
      rcases cell d with same | ⟨rfl, _, now⟩
      · rw [same]; exact before
      · rw [now]; exact closed _ before
    nextId := Nat.le_of_eq (by rw [config])
    tracked := fun t known => .inl (config ▸ known) }
  refine ⟨later, ⟨?_, fun d => ?_, fun d hook has => ?_, fun d derived opened => ?_, ?_, ?_⟩,
    fits later⟩
  · rw [length]; exact regular.others
  · rcases cell d with same | ⟨rfl, _, now⟩
    · rw [same]; exact regular.listeners d
    · rw [now]; exact listeners
  · have owned : (w.cell d).hook = some hook ∨ d < n ∧ hook.Offered n ∨
        ∃ entry, n ≤ d ∧ w.Owns d entry ∧ hook = forget entry := by
      rcases cell d with same | ⟨rfl, _, now⟩
      · exact .inl (same ▸ has)
      · exact hooks hook (now ▸ has)
    have kept : d < n ∧ hook.Offered n ∨ ∃ entry, n ≤ d ∧ w.Owns d entry ∧ hook = forget entry :=
      owned.elim (regular.hooks d hook) id
    exact later.hook kept
  · have before : (w.cell d).closed = false := by
      rcases cell d with same | ⟨rfl, _, now⟩
      · exact same ▸ opened
      · rw [now] at opened
        cases was : (w.cell c).closed with
        | false => rfl
        | true =>
          rw [closed _ was] at opened
          cases opened
    rw [config]
    exact regular.followed d derived before
  · rw [config, length]; exact regular.derived
  · rw [config]; exact regular.distinct

/-- A cell changed, but it is as closed as before, and it has no other hook. -/
theorem of_change (regular : Regular n w) {c : Nat} {f : Cell σ → Cell σ}
    (closed : ∀ cell, (f cell).closed = cell.closed) (hook : ∀ cell, (f cell).hook = cell.hook)
    (listeners : ∀ entry ∈ (f (w.cell c)).listeners, entry.2.Offered n)
    (cells : w'.cells = (w.modifyCell c f).cells) (config : w'.config = w.config)
    (fits : ∀ i ∈ new, i.Fits n w) : Goes n w new w' :=
  of_modify regular (fun cell before => (closed cell).trans before) listeners
    (fun _ has => .inl ((hook _).symm.trans has)) cells config
    fun later i member => (fits i member).later later

/-- An entry is forgotten whose cell is closed. -/
theorem untracked (regular : Regular n w) {c entry : Nat} (closed : (w.cell c).closed = true)
    (owns : w.Owns c entry) (fits : ∀ i ∈ new, i.Fits n w) :
    Goes n w new (w.modifyConfig (·.untrack entry)) := by
  have later : w.Later (w.modifyConfig (·.untrack entry)) := {
    cells := Nat.le_refl _
    closed := fun _ _ closed => closed
    nextId := Nat.le_refl _
    tracked := fun t known => .inl (List.mem_filter.mp known).1 }
  have fewer : (w.modifyConfig (·.untrack entry)).config.tracked.Sublist w.config.tracked :=
    List.filter_sublist
  refine ⟨later, ⟨regular.others, regular.listeners, fun d hook has => ?_,
    fun d derived opened => ?_, fun t known => regular.derived t (fewer.subset known),
    regular.distinct.sublist (fewer.map _)⟩, fun i member => (fits i member).later later⟩
  · exact later.hook (regular.hooks d hook has)
  · obtain ⟨t, known, rfl⟩ := regular.followed d derived opened
    refine ⟨t, List.mem_filter.mpr ⟨known, ?_⟩, rfl⟩
    -- the cell of the entry is closed, and this one is open
    have other : t.id ≠ entry := fun same => by
      have opened : (w.cell t.cell).closed = false := opened
      rw [owns.2 t known same, closed] at opened
      cases opened
    simpa using other

/-- A derived cell is made. -/
theorem follow (regular : Regular n w) (extract : Extractor) (value : Option Value)
    (fits : w.Later (w.follow extract value) → ∀ i ∈ new, i.Fits n (w.follow extract value)) :
    Goes n w new (w.follow extract value) := by
  have cell (d : Nat) : (w.follow extract value).cell d =
      if d = w.cells.length then { value } else w.cell d := World.cell_addCell w { value } d
  have length : (w.follow extract value).cells.length = w.cells.length + 1 := by
    simp [World.follow, World.addCell, World.modifyConfig]
  have tracked : (w.follow extract value).config.tracked =
      w.config.tracked ++ [⟨w.config.nextId, w.cells.length, extract⟩] := rfl
  have later : w.Later (w.follow extract value) := {
    cells := by rw [length]; exact Nat.le_succ _
    closed := fun d here before => by rw [cell, if_neg (Nat.ne_of_lt here)]; exact before
    nextId := Nat.le_succ _
    tracked := fun t known => by
      rw [tracked] at known
      refine (List.mem_append.mp known).imp_right fun new => ?_
      rw [List.mem_singleton.mp new]
      exact ⟨Nat.le_refl _, Nat.le_refl _⟩ }
  refine ⟨later, ⟨?_, fun d => ?_, fun d hook has => ?_, fun d derived opened => ?_,
    fun t known => ?_, ?_⟩, fits later⟩
  · rw [length]
    exact Nat.le_succ_of_le regular.others
  · rw [cell]
    split
    · exact List.forall_mem_nil _
    · exact regular.listeners d
  · rw [cell] at has
    split at has
    · cases has
    · exact later.hook (regular.hooks d hook has)
  · rw [tracked]
    by_cases last : d = w.cells.length
    · exact ⟨_, List.mem_append_right _ (List.mem_singleton_self _), last.symm⟩
    · rw [cell, if_neg last] at opened
      obtain ⟨t, known, same⟩ := regular.followed d derived opened
      exact ⟨t, List.mem_append_left _ known, same⟩
  · rw [tracked] at known
    rw [length]
    rcases List.mem_append.mp known with known | new
    · obtain ⟨derived, here, fresh⟩ := regular.derived t known
      exact ⟨derived, Nat.lt_succ_of_lt here, Nat.lt_succ_of_lt fresh⟩
    · rw [List.mem_singleton.mp new]
      exact ⟨regular.others, Nat.lt_succ_self _, Nat.lt_succ_self _⟩
  · -- the cell is new, so no entry has it
    rw [tracked, List.map_append, List.nodup_append]
    refine ⟨regular.distinct, List.pairwise_singleton _ _, fun d known other new => ?_⟩
    obtain ⟨t, before, rfl⟩ := List.mem_map.mp known
    rw [List.map_singleton, List.mem_singleton] at new
    rw [new]
    exact Nat.ne_of_lt (regular.derived t before).2.1

end Goes

namespace Regular

variable {n : Nat} {w : World σ}

theorem register (regular : Regular n w) (c : Nat) {l : Listener σ} (offered : l.Offered n) :
    ∀ entry ∈ ((w.cell c).register l).listeners, entry.2.Offered n := by
  intro entry listens
  rw [Cell.register] at listens
  dsimp only at listens
  split at listens
  · exact regular.listeners c entry listens
  · rcases List.mem_append.mp listens with listens | new
    · exact regular.listeners c entry listens
    · rw [List.mem_singleton.mp new]
      exact offered

/-- A hook is set, or it runs at once. -/
theorem step_onClose (plan : Plan σ) (regular : Regular n w) {c : Nat} {hook next : Script σ}
    (owned : c < n ∧ hook.Offered n ∨ ∃ entry, n ≤ c ∧ c < w.cells.length ∧ w.Owns c entry ∧
      hook = forget entry)
    (offered : next.Offered n) : Goes n w ((Script.onClose c hook next).step plan w).1
      ((Script.onClose c hook next).step plan w).2 := by
  rw [Script.step]
  split
  next closed =>
    refine .of_eq regular rfl rfl rfl (Item.fits_then (.go hook) ?_ offered)
    rcases owned with ⟨_, runs⟩ | ⟨entry, _, here, owns, same⟩
    · exact .inl runs
    · exact .inr (.inr ⟨c, entry, here, closed, owns, same⟩)
  next opened =>
    refine .of_modify regular (f := fun cell => { cell with hook := some hook }) (fun _ => id)
      (regular.listeners c) (fun script has => .inr ?_) rfl rfl fun _ => Item.fits_next offered
    cases has
    rcases owned with offered | ⟨entry, derived, _, owns, same⟩
    · exact .inl offered
    · exact .inr ⟨entry, derived, owns, same⟩

/-- What a script that is offered does first. -/
theorem step_script (plan : Plan σ) (regular : Regular n w) {script : Script σ}
    (offered : script.Offered n) : Goes n w (script.step plan w).1 (script.step plan w).2 := by
  cases script with
  | done reply => exact .of_eq regular rfl rfl rfl (List.forall_mem_nil _)
  | panic => exact .of_eq regular rfl rfl rfl (Item.fits_next offered)
  | update c value next =>
    exact .of_eq regular rfl rfl rfl (Item.fits_then (.put c value) trivial (offered.2 _))
  | register c name react next =>
    exact .of_change regular (f := (·.register ⟨name, react⟩)) (fun _ => rfl) (fun _ => rfl)
      (regular.register c offered.1) rfl rfl (Item.fits_next (offered.2 _))
  | registerAndCall c name react next =>
    exact .of_eq regular rfl rfl rfl
      (Item.fits_then (.greet c ⟨name, react⟩) offered.1 (offered.2 _))
  | deregister c listener next =>
    exact .of_change regular (f := (·.deregister listener)) (fun _ => rfl) (fun _ => rfl)
      (fun entry listens => regular.listeners c entry (List.mem_filter.mp listens).1) rfl rfl
      (Item.fits_next offered)
  | close c next => exact .of_eq regular rfl rfl rfl (Item.fits_then (.close c) trivial offered)
  | onClose c hook next =>
    exact step_onClose plan regular (.inl ⟨offered.1, offered.2.1⟩) offered.2.2
  | look c next => exact .of_eq regular rfl rfl rfl (Item.fits_next (offered _))
  | derive extract next =>
    exact .of_eq regular rfl rfl rfl (Item.fits_then (.derive extract) trivial (offered _))
  | untrack entry next => exact offered.elim
  | tree next => exact .of_eq regular rfl rfl rfl (Item.fits_next (offered _))
  | shut next => exact .of_eq regular rfl rfl rfl (Item.fits_then .shut trivial offered)
  | start next =>
    rw [Script.step]
    dsimp only
    split <;> exact .of_eq regular rfl rfl rfl (Item.fits_next (offered _))
  | inspect next => exact .of_eq regular rfl rfl rfl (Item.fits_next (offered _))
  | alter change next => exact .of_eq regular rfl rfl rfl (Item.fits_next offered)
  | note listener step reply next => exact .of_eq regular rfl rfl rfl (Item.fits_next offered)

theorem welcome_fits {v : World σ} {l : Listener σ} (offered : l.Offered n) (c id : Nat) :
    ∀ i ∈ welcome v c id l, i.Fits n w := by
  rw [welcome]
  split
  · exact List.forall_mem_singleton.mpr offered
  · exact List.forall_mem_nil _

/-- A step from a regular world leads to one, or it closes the configuration. -/
theorem step (plan : Plan σ) (regular : Regular n w) {item : Item σ} (fits : item.Fits n w) :
    (item.step plan w).2.config.closed = true ∨
      Goes n w (item.step plan w).1 (item.step plan w).2 := by
  cases item with
  | go script =>
    refine .inr ?_
    rcases fits with
      offered | ⟨c, entry, derived, here, owns, rfl⟩ | ⟨c, entry, here, closed, owns, rfl⟩
    · exact step_script plan regular offered
    · exact step_onClose plan regular (.inr ⟨entry, derived, here, owns, rfl⟩) trivial
    · exact .untracked regular closed owns (Item.fits_next trivial)
  | tell c id l value => exact .inr (.of_eq regular rfl rfl rfl (Item.fits_next (fits value)))
  | put c value =>
    refine .inr ?_
    rw [Item.step]
    split
    · exact .of_eq regular rfl rfl rfl (List.forall_mem_nil _)
    · split
      · exact .of_change regular (f := (·.defer value)) (fun _ => rfl) (fun _ => rfl)
          (regular.listeners c) rfl rfl (List.forall_mem_nil _)
      · exact .of_change regular (f := .mark) (fun _ => rfl) (fun _ => rfl)
          (regular.listeners c) rfl rfl (by simp [Item.Fits])
  | apply c value =>
    refine .inr ?_
    rw [Item.step]
    split
    · exact .of_eq regular rfl rfl rfl (List.forall_mem_nil _)
    · split
      · exact .of_eq regular rfl rfl rfl (by simp [Item.Fits])
      · refine .of_change regular (f := fun cell => { cell with value }) (fun _ => rfl)
          (fun _ => rfl) (regular.listeners c) rfl rfl fun i called => ?_
        rcases List.mem_append.mp called with called | last
        · obtain ⟨listener, listens, rfl⟩ := List.mem_map.mp called
          exact regular.listeners c listener ((w.cell c).order.mem_arrange.mp listens)
        · rw [List.mem_singleton.mp last]
          trivial
  | drain c =>
    refine .inr ?_
    rw [Item.step]
    split
    · exact .of_eq regular rfl rfl rfl (List.forall_mem_nil _)
    next value later _ =>
      exact .of_change regular (f := fun cell => { cell with deferred := later }) (fun _ => rfl)
        (fun _ => rfl) (regular.listeners c) rfl rfl (by simp [Item.Fits])
  | unmark c =>
    exact .inr (.of_change regular (f := .unmark) (fun _ => rfl) (fun _ => rfl)
      (regular.listeners c) rfl rfl (List.forall_mem_nil _))
  | greet c l =>
    refine .inr ?_
    have listeners := regular.register c fits
    rw [Item.step]
    split
    · exact .of_change regular (f := (·.register l)) (fun _ => rfl) (fun _ => rfl) listeners rfl rfl
        (welcome_fits fits c _)
    · refine .of_change regular (f := fun cell => cell.mark.register l) (fun _ => rfl)
        (fun _ => rfl) listeners ?_ rfl fun i called => ?_
      · exact List.modify_modify_eq ..
      · rcases List.mem_append.mp called with called | called
        · exact welcome_fits fits c _ i called
        · rcases List.mem_cons.mp called with rfl | called
          · trivial
          · rw [List.mem_singleton.mp called]
            trivial
  | close c =>
    refine .inr ?_
    rw [Item.step]
    split
    · exact .of_eq regular rfl rfl rfl (List.forall_mem_nil _)
    next opened =>
      have here : c < w.cells.length := World.lt_of_open (by simpa using opened)
      have shuts {new : List (Item σ)} {w' : World σ}
          (cells : w'.cells = (w.modifyCell c .shut).cells) (config : w'.config = w.config)
          (fits : w.Later w' → ∀ i ∈ new, i.Fits n w') :
          Goes n w new w' :=
        .of_modify regular (f := .shut) (fun _ _ => rfl) (List.forall_mem_nil _)
          (fun hook has => absurd has (Option.some_ne_none hook).symm) cells config fits
      dsimp only
      split
      next hook has =>
        refine shuts rfl rfl fun later => List.forall_mem_singleton.mpr ?_
        have closed := congrArg Cell.closed (World.cell_modifyCell_self w here .shut)
        rcases regular.hooks c hook has with ⟨_, offered⟩ | ⟨entry, _, owns, same⟩
        · exact .inl offered
        · exact .inr (.inr ⟨c, entry, Nat.lt_of_lt_of_le here later.cells, closed, owns.later later,
            same⟩)
      next => exact shuts rfl rfl fun _ => List.forall_mem_nil _
  | derive extract =>
    refine .inr ?_
    rw [Item.step]
    split
    · exact .of_eq regular rfl rfl rfl (List.forall_mem_nil _)
    · split
      · exact .of_eq regular rfl rfl rfl (List.forall_mem_nil _)
      next value _ =>
        have owns : (w.follow extract value).Owns w.cells.length w.config.nextId := by
          refine ⟨Nat.lt_succ_self _, fun t known same => ?_⟩
          rcases List.mem_append.mp known with known | new
          · exact absurd same (Nat.ne_of_lt (regular.derived t known).2.2)
          · rw [List.mem_singleton.mp new]
        have here : w.cells.length < (w.follow extract value).cells.length := by
          simp [World.follow, World.addCell, World.modifyConfig]
        exact .follow regular extract value fun _ => List.forall_mem_singleton.mpr
          (.inr (.inl ⟨_, _, regular.others, here, owns, rfl⟩))
  | shut =>
    rw [Item.step]
    split
    · exact .inr (.of_eq regular rfl rfl rfl (List.forall_mem_nil _))
    · exact .inl rfl
  | shutSources => exact fits.elim
  | endDispatch => exact .inr (.of_eq regular rfl rfl rfl (List.forall_mem_nil _))

variable {v : World σ} {plan : Plan σ} {a b : List (Item σ)}

/-- As long as the configuration is open, steps lead from a regular world to regular ones, and what
each of them keeps is kept all the way. -/
theorem preserves (regular : Regular n w) (fits : ∀ i ∈ a, i.Fits n w) (leads : Leads plan a w b v)
    (P : List (Item σ) → World σ → Prop)
    (kept : ∀ item rest u, Regular n u → item.Fits n u →
      Goes n u (item.step plan u).1 (item.step plan u).2 → P (item :: rest) u →
      P ((item.step plan u).1 ++ rest) (item.step plan u).2) (start : P a w) :
    v.config.closed = true ∨ Regular n v ∧ (∀ i ∈ b, i.Fits n v) ∧ P b v := by
  induction leads with
  | here => exact .inr ⟨regular, fits, start⟩
  | @step item rest w _ _ leads ih =>
    have here := fits item List.mem_cons_self
    rcases regular.step plan here with closed | goes
    · exact .inl (leads.aloof.closed closed)
    · refine ih goes.regular (fun i member => ?_) (kept item rest w regular here goes start)
      rcases List.mem_append.mp member with new | old
      · exact goes.fits i new
      · exact (fits i (List.mem_cons_of_mem _ old)).later goes.later

theorem leads (regular : Regular n w) (fits : ∀ i ∈ a, i.Fits n w) (leads : Leads plan a w b v) :
    v.config.closed = true ∨ Regular n v ∧ ∀ i ∈ b, i.Fits n v :=
  (regular.preserves fits leads (fun _ _ => True) (fun _ _ _ _ _ _ _ => trivial) trivial).imp_right
    fun ⟨regular, fits, _⟩ => ⟨regular, fits⟩

theorem congr (regular : Regular n w) (cells : v.cells = w.cells)
    (tracked : v.config.tracked = w.config.tracked) (nextId : v.config.nextId = w.config.nextId) :
    Regular n v :=
  (Goes.of_eq regular cells tracked nextId (List.forall_mem_nil _)).regular

theorem unwind (regular : Regular n w) (agenda : List (Item σ)) : Regular n (unwind agenda w) := by
  induction agenda generalizing w with
  | nil => exact regular
  | cons item rest ih =>
    refine ih ?_
    cases item with
    | unmark c =>
      exact (Goes.of_change regular (f := .unmark) (fun _ => rfl) (fun _ => rfl)
        (regular.listeners c) rfl rfl (List.forall_mem_nil _)).regular
    | endDispatch => exact regular.congr rfl rfl rfl
    | _ => exact regular

theorem beside (regular : Regular n w) (beside : Beside w v) : Regular n v :=
  regular.congr beside.cells beside.tracked beside.nextId

theorem swap (regular : Regular n w) (tree : Tree) : Regular n (w.swap tree) :=
  regular.congr rfl rfl rfl

end Regular

theorem dispatch_fits {n : Nat} {w : World σ} (plan : Plan σ)
    (updates : List (Nat × Option Value)) : ∀ i ∈ dispatch plan updates, i.Fits n w := by
  intro i member
  rcases List.mem_append.mp member with puts | last
  · obtain ⟨update, _, rfl⟩ := List.mem_map.mp puts
    trivial
  · rw [List.mem_singleton.mp last]
    trivial

/-! ### Sessions -/

namespace Session

variable {n : Nat} {s s' : Session σ}

/-- A configuration that nobody has used yet, in a world in which there are some cells already. -/
def freshBeside (plan : Plan σ) (fuel : Nat) (surroundings : σ)
    (others : List (Option Value × NotifyOrder)) : Session σ where
  plan
  fuel
  world := { surroundings, cells := others.map fun (value, order) => { value, order } }

theorem freshBeside_cell (plan : Plan σ) (fuel : Nat) (surroundings : σ)
    (others : List (Option Value × NotifyOrder)) (c : Nat) :
    (freshBeside plan fuel surroundings others).world.cell c = .gone ∨
      ∃ value order,
        (freshBeside plan fuel surroundings others).world.cell c = { value, order } := by
  simp only [World.cell, freshBeside, List.getD_eq_getElem?_getD, List.getElem?_map]
  cases others[c]? with
  | none => exact .inl rfl
  | some other => exact .inr ⟨_, _, rfl⟩

/-- A session in which all scripts are offered ones, between two moves. -/
structure Proper (n : Nat) (s : Session σ) : Prop where
  orderly : Orderly s
  latest : Latest s
  performs : s.Performs (Script.Offered n)
  idle : s.world.Idle
  regular : s.world.config.closed = true ∨ Regular n s.world

theorem Effect.closed {P : Script σ → Prop} (effect : Effect P s s')
    (closed : s.world.config.closed = true) : s'.world.config.closed = true := by
  cases effect with
  | beside beside => exact beside.closed.trans closed
  | ran performs leads unwinds =>
    exact unwinds.closed_of_unwind (leads.aloof.closed closed)
  | reloaded beside => exact beside.closed.trans closed
  | published fetched opened =>
    rw [fetched.closed, closed] at opened
    cases opened

theorem Effect.regular (effect : Effect (Script.Offered n) s s')
    (regular : s.world.config.closed = true ∨ Regular n s.world) :
    s'.world.config.closed = true ∨ Regular n s'.world := by
  rcases regular with closed | regular
  · exact .inl (effect.closed closed)
  · cases effect with
    | beside beside => exact .inr (regular.beside beside)
    | ran offered leads unwinds =>
      rcases regular.leads (Item.fits_next offered) leads with closed | ⟨regular, _⟩
      · exact .inl (unwinds.closed_of_unwind closed)
      · exact .inr ((regular.unwind _).beside unwinds)
    | reloaded beside => exact .inr (regular.beside beside)
    | published fetched opened other computes leads unwinds =>
      rcases ((regular.beside fetched).swap _).leads (dispatch_fits _ _) leads with
        closed | ⟨regular, _⟩
      · exact .inl (unwinds.closed_of_unwind closed)
      · exact .inr ((regular.unwind _).beside unwinds)

/-- What every change of a cell keeps is true of a cell whatever the moves are. -/
theorem Effect.keeps {P : Script σ → Prop} (effect : Effect P s s') {c : Nat}
    (here : c < s.world.cells.length) (Q : Cell σ → Prop)
    (kept : ∀ cell cell', Cell.Change cell cell' → Q cell → Q cell') (before : Q (s.world.cell c)) :
    c < s'.world.cells.length ∧ Q (s'.world.cell c) := by
  have led {a b : List (Item σ)} {u v w : World σ} (here : c < u.cells.length)
      (before : Q (u.cell c)) (leads : Leads s.plan a u b v) (unwinds : Beside (unwind b v) w) :
      c < w.cells.length ∧ Q (w.cell c) := by
    rw [unwinds.cells, unwind_length, unwinds.cell]
    exact ⟨Nat.lt_of_lt_of_le here leads.length,
      unwind_keeps b Q kept (leads.keeps here Q kept before)⟩
  cases effect with
  | beside beside | reloaded beside => exact ⟨beside.cells ▸ here, beside.cell c ▸ before⟩
  | ran performs leads unwinds => exact led here before leads unwinds
  | published fetched opened other computes leads unwinds =>
    exact led (fetched.cells ▸ here) (fetched.cell c ▸ before) leads unwinds

namespace Proper

theorem fresh (plan : Plan σ) (fuel : Nat) (surroundings : σ)
    (others : List (Option Value × NotifyOrder)) :
    Proper others.length (freshBeside plan fuel surroundings others) := by
  let w : World σ := (freshBeside plan fuel surroundings others).world
  have length : w.cells.length = others.length := List.length_map ..
  have nobody (c : Nat) : (w.cell c).listeners = [] ∧ (w.cell c).hook = none ∧
      (w.cell c).notifying = false := by
    rcases freshBeside_cell plan fuel surroundings others c with gone | ⟨value, order, same⟩
    · rw [gone]
      exact ⟨rfl, rfl, rfl⟩
    · rw [same]
      exact ⟨rfl, rfl, rfl⟩
  exact {
    orderly := {
      underWay := fun f => by simp [freshBeside]
      led := nofun
      leads := by rintro t f ⟨_, _, _, leads⟩; simp [freshBeside, task?] at leads
      single := by rintro t u f g ⟨_, _, _, leads⟩; simp [freshBeside, task?] at leads
      joined := by intro t purpose f follows; simp [freshBeside, task?] at follows }
    latest := nofun
    performs := List.forall_mem_nil _
    idle := ⟨fun c => (nobody c).2.2, rfl⟩
    regular := .inr {
      others := Nat.le_of_eq length.symm
      listeners := fun c entry listens => by
        rw [(nobody c).1] at listens
        cases listens
      hooks := fun c hook has => by
        rw [(nobody c).2.1] at has
        cases has
      followed := fun c derived opened => by
        have gone : w.cell c = .gone := World.cell_of_beyond (by rwa [length])
        rw [gone] at opened
        cases opened
      derived := nofun
      distinct := .nil } }

theorem onward (proper : Proper n s) {m : Move σ} (offered : m.Performs (Script.Offered n)) :
    Onward (Script.Offered n) s (s.step m) :=
  Session.onward proper.orderly proper.latest proper.performs offered

theorem step (proper : Proper n s) {m : Move σ} (offered : m.Performs (Script.Offered n)) :
    Proper n (s.step m) where
  orderly := proper.orderly.after [m]
  latest := kept_by_deeds (fun _ _ latest deed => latest.deed deed) proper.latest [m]
  performs := (proper.onward offered).performs
  idle := (proper.onward offered).effect.idle proper.idle
  regular := (proper.onward offered).effect.regular proper.regular

/-- A tree is only published by an open configuration. -/
theorem publishing (proper : Proper n s) (fetched : Beside s.world u)
    (opened : u.config.closed = false) : Regular n u := by
  refine (proper.regular.resolve_left fun closed => ?_).beside fetched
  rw [fetched.closed, closed] at opened
  cases opened

/-- What every move keeps is true when some moves were made. -/
theorem keeps (proper : Proper n s) (P : Session σ → Prop)
    (kept : ∀ s m, Proper n s → Onward (Script.Offered n) s (s.step m) → P s → P (s.step m))
    {moves : List (Move σ)} (offered : ∀ m ∈ moves, m.Performs (Script.Offered n)) (start : P s) :
    P (s.after moves) := by
  induction moves generalizing s with
  | nil => exact start
  | cons m rest ih =>
    have kind := offered m List.mem_cons_self
    exact ih (proper.step kind) (fun m' member => offered m' (List.mem_cons_of_mem _ member))
      (kept s m proper (proper.onward kind) start)

theorem after (proper : Proper n s) {moves : List (Move σ)}
    (offered : ∀ m ∈ moves, m.Performs (Script.Offered n)) : Proper n (s.after moves) := by
  induction moves generalizing s with
  | nil => exact proper
  | cons m rest ih =>
    exact ih (proper.step (offered m List.mem_cons_self))
      fun m' member => offered m' (List.mem_cons_of_mem _ member)

end Proper

end Session

end LayeredConfig.Live
