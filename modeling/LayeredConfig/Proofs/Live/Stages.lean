import LayeredConfig.Proofs.Live.Frozen
import LayeredConfig.Proofs.Live.Repairs
/-!
# Publishing in stages

Before a tree is published all values for it are computed. Then the derived cells get theirs, one
cell after the other in the order of their registration or in the reverse of it, and a cell has its
turn when all that came of the turn before is done. So at every moment there are two kinds of cells:
those whose turn has come hold their new values, except if they are closed, and the others are as
they were: `Staged`. A listener of a derived cell is called in the turn of its cell; the only other
call there can be is the one of a listener that was only just added.

The invariant is `Parted`. A step of what a turn brings with it keeps it with the same two parts
(`Parted.step`); the turn of a cell moves it from one part to the other (`Parted.apply`).
-/
namespace LayeredConfig.Live

open Story

variable {σ : Type} {plan : Plan σ} {n c : Nat} {item : Item σ}
  {a b left rest agenda done : List (Item σ)} {served waiting : List (Nat × Option Value)}
  {update : Nat × Option Value} {u v w w' : World σ}

/-! ### The order of registration -/

/-- Entries stand in the order in which they were made. -/
structure World.Rising (w : World σ) : Prop where
  order : w.config.tracked.Pairwise fun t t' => t.id < t'.id ∧ t.cell < t'.cell
  known : ∀ t ∈ w.config.tracked, t.id < w.config.nextId ∧ t.cell < w.cells.length

/-- Entries are forgotten, or the cell that was made last gets one. -/
theorem Item.step_tracked (plan : Plan σ) (w : World σ) (item : Item σ) :
    (item.step plan w).2.config.tracked.Sublist w.config.tracked ∧
        (item.step plan w).2.config.nextId = w.config.nextId ∨
      ∃ extract value, (item.step plan w).2 = w.follow extract value := by
  have same {w' : World σ} (config : w'.config = w.config) :
      w'.config.tracked.Sublist w.config.tracked ∧ w'.config.nextId = w.config.nextId := by
    rw [config]
    exact ⟨.refl _, rfl⟩
  cases item with
  | go script =>
    refine .inl ?_
    cases script with
    | untrack => exact ⟨List.filter_sublist, rfl⟩
    | onClose =>
      rw [Item.step, Script.step]
      split <;> exact same rfl
    | start next =>
      rw [Item.step, Script.step]
      dsimp only
      split <;> exact same rfl
    | _ => exact same rfl
  | put | apply =>
    refine .inl ?_
    rw [Item.step]
    split
    · exact same rfl
    · split <;> exact same rfl
  | drain | greet =>
    refine .inl ?_
    rw [Item.step]
    split <;> exact same rfl
  | close =>
    refine .inl ?_
    rw [Item.step]
    split
    · exact same rfl
    · dsimp only
      split <;> exact same rfl
  | derive extract =>
    rw [Item.step]
    split
    · exact .inl (same rfl)
    · split
      · exact .inl (same rfl)
      next value _ => exact .inr ⟨extract, value, rfl⟩
  | shut =>
    refine .inl ?_
    rw [Item.step]
    split
    · exact same rfl
    · exact ⟨List.nil_sublist _, rfl⟩
  | shutSources =>
    obtain ⟨_, _, _, after⟩ := closeSources_spec 0 plan.sources w
    rw [Item.step, after]
    exact .inl (same rfl)
  | tell | unmark => exact .inl (same rfl)
  | endDispatch => exact .inl ⟨.refl _, rfl⟩

namespace World.Rising

theorem fewer (rising : w.Rising) (tracked : v.config.tracked.Sublist w.config.tracked)
    (nextId : v.config.nextId = w.config.nextId) (cells : w.cells.length ≤ v.cells.length) :
    v.Rising where
  order := rising.order.sublist tracked
  known t among := by
    obtain ⟨id, cell⟩ := rising.known t (tracked.subset among)
    exact ⟨nextId ▸ id, Nat.lt_of_lt_of_le cell cells⟩

theorem follow (rising : w.Rising) (extract : Extractor) (value : Option Value) :
    (w.follow extract value).Rising := by
  have length : (w.follow extract value).cells.length = w.cells.length + 1 := by
    simp [World.follow, World.addCell, World.modifyConfig]
  have tracked : (w.follow extract value).config.tracked =
      w.config.tracked ++ [⟨w.config.nextId, w.cells.length, extract⟩] := rfl
  constructor <;> rw [tracked]
  · rw [List.pairwise_append]
    refine ⟨rising.order, List.pairwise_singleton _ _, fun t among last new => ?_⟩
    rw [List.mem_singleton.mp new]
    exact rising.known t among
  · intro t among
    rw [length]
    rcases List.mem_append.mp among with among | new
    · obtain ⟨id, cell⟩ := rising.known t among
      exact ⟨Nat.lt_succ_of_lt id, Nat.lt_succ_of_lt cell⟩
    · rw [List.mem_singleton.mp new]
      exact ⟨Nat.lt_succ_self _, Nat.lt_succ_self _⟩

theorem step (rising : w.Rising) (plan : Plan σ) (item : Item σ) :
    (item.step plan w).2.Rising := by
  rcases item.step_tracked plan w with ⟨tracked, nextId⟩ | ⟨extract, value, same⟩
  · exact rising.fewer tracked nextId (item.step_cells plan w)
  · rw [same]
    exact rising.follow extract value

theorem beside (rising : w.Rising) (beside : Beside w v) : v.Rising := by
  refine rising.fewer ?_ beside.nextId ?_
  · rw [beside.tracked]
  · rw [beside.cells]

end World.Rising

theorem Course.rising (course : Course plan a u done b v) (rising : u.Rising) : v.Rising :=
  course.preserves (fun _ _ w => w.Rising) (fun _ item _ _ _ rising => rising.step plan item)
    (fun _ agenda w rising => by
      obtain ⟨_, config⟩ := unwind_config agenda w
      refine rising.fewer ?_ ?_ ?_
      · rw [config]
      · rw [config]
      · rw [unwind_length])
    (fun _ _ _ beside rising => rising.beside beside) (fun _ _ _ rising => rising)
    (fun _ tree _ _ rising => rising.fewer (.refl _) rfl (Nat.le_refl _)) rising

/-! ### Cells before and after their turns -/

/-- The value of a cell is the same, and none was stored. -/
structure AsItWas (c : Nat) (u w : World σ) : Prop where
  value : (w.cell c).value = (u.cell c).value
  stores : stores c w.history.reverse = stores c u.history.reverse

/-- A cell holds the value that it was to get, unless it is closed. This value may have been stored,
once, and no other was. -/
structure Given (u w : World σ) (update : Nat × Option Value) : Prop where
  holds : (w.cell update.1).closed = true ∨ (w.cell update.1).Holds update.2
  once : stores update.1 w.history.reverse = stores update.1 u.history.reverse ∨
    stores update.1 w.history.reverse = stores update.1 u.history.reverse ++ [update.2]

theorem AsItWas.trans (first : AsItWas c u v) (second : AsItWas c v w) : AsItWas c u w :=
  ⟨second.value.trans first.value, second.stores.trans first.stores⟩

/-- What a cell was given it keeps as long as it gets nothing else. -/
theorem Given.later (given : Given u v update) (same : AsItWas update.1 v w)
    (closed : (v.cell update.1).closed = true → (w.cell update.1).closed = true) :
    Given u w update where
  holds := given.holds.imp closed fun holds => by rwa [Cell.Holds, same.value]
  once := by rw [same.stores]; exact given.once

/-- Work that is no update of a cell leaves it as it was. -/
theorem Item.Leaves.asItWas (leaves : item.Leaves c) (plan : Plan σ) (here : c < w.cells.length) :
    AsItWas c w (item.step plan w).2 := by
  have touch := touches plan here item
  constructor
  · refine touch.value.resolve_right ?_
    rintro ⟨_, rfl, _⟩
    exact leaves rfl
  · refine touch.stores_kept.resolve_right ?_
    rintro ⟨_, rfl, _⟩
    exact leaves rfl

/-! ### Calls -/

/-- If the work calls a listener of a derived cell, it is the turn of the cell, and the listener is
told what the cell was given. -/
def Item.InTurn (n : Nat) (served : List (Nat × Option Value)) : Item σ → Prop
  | .tell c _ _ value => n ≤ c → served.getLast? = some (c, value)
  | _ => True

/-- The work calls a listener that was only just added, in order to be called at once. -/
def Item.Greets (w : World σ) : Item σ → Prop
  | .tell c id _ _ => w.history.head? = some (.registered c id true)
  | _ => False

/-- Listeners of derived cells are called when it is the turn of the cell, but for a new one that is
greeted right away. -/
structure Calls (n : Nat) (served : List (Nat × Option Value)) (left : List (Item σ))
    (w : World σ) : Prop where
  first : ∀ i ∈ left.head?, i.InTurn n served ∨ i.Greets w
  later : ∀ i ∈ left.tail, i.InTurn n served

namespace Calls

theorem of_inTurn (all : ∀ i ∈ left, i.InTurn n served) : Calls n served left w :=
  ⟨fun i member => .inl (all i (List.mem_of_mem_head? member)),
    fun i member => all i (List.mem_of_mem_tail member)⟩

/-- All calls that a step brings with it are those of a round, if it does not greet anybody. -/
theorem of_other (plan : Plan σ) (plain : item.Plain n) (other : ∀ c l, item ≠ .greet c l)
    (round : ∀ c value, n ≤ c → item = .apply c value → served.getLast? = some (c, value)) :
    ∀ i ∈ (item.step plan w).1, i.InTurn n served := by
  intro i member
  have brings := plain.brings plan i member
  cases i with
  | tell c id l value =>
    intro derived
    rcases brings with same | ⟨same, _⟩
    · exact round c value derived same
    · exact absurd same (other c l)
  | _ => trivial

theorem step (calls : Calls n served (item :: rest) w) (plan : Plan σ) (plain : item.Plain n)
    (round : ∀ c value, n ≤ c → item = .apply c value → served.getLast? = some (c, value)) :
    Calls n served ((item.step plan w).1 ++ rest) (item.step plan w).2 := by
  have others : ∀ i ∈ rest, i.InTurn n served := calls.later
  by_cases greets : ∃ c l, item = .greet c l
  · obtain ⟨c, l, rfl⟩ := greets
    have after : ∃ extra, ((Item.greet c l).step plan w).1 =
          welcome w c (w.cell c).nextId l ++ extra ∧
        (∀ i ∈ extra, i.InTurn n served) ∧ ((Item.greet c l).step plan w).2.history.head? =
          some (.registered c (w.cell c).nextId true) := by
      rw [Item.step]
      split
      · exact ⟨[], (List.append_nil _).symm, List.forall_mem_nil _, rfl⟩
      · refine ⟨[.drain c, .unmark c], rfl, by simp [Item.InTurn], ?_⟩
        have same : ((w.modifyCell c .mark).cell c).nextId = (w.cell c).nextId :=
          World.modifyCell_keeps (f := .mark) Cell.nextId (fun _ => rfl) w c c
        rw [← same]
        rfl
    obtain ⟨extra, new, quiet, last⟩ := after
    have later : ∀ i ∈ extra ++ rest, i.InTurn n served :=
      List.forall_mem_append.mpr ⟨quiet, others⟩
    rw [new, welcome, List.append_assoc]
    split
    · exact ⟨fun i member => by cases member; exact .inr last, later⟩
    · exact of_inTurn later
  · refine of_inTurn (List.forall_mem_append.mpr ⟨of_other plan plain ?_ round, others⟩)
    exact fun c l same => greets ⟨c, l, same⟩

end Calls

/-! ### One step -/

/-- While `left` is to be done, the cells that were `served` hold what they were given, and those
that are `waiting` are as they were. -/
structure Parted (n : Nat) (u : World σ) (served waiting : List (Nat × Option Value))
    (left : List (Item σ)) (w : World σ) : Prop where
  plain : w.Plain n
  items : ∀ i ∈ left, i.Plain n
  unserved : ∀ c, n ≤ c → Unserved c left w
  derived : ∀ update ∈ served ++ waiting, n ≤ update.1 ∧ update.1 < w.cells.length
  given : ∀ update ∈ served, Given u w update
  waits : ∀ update ∈ waiting, AsItWas update.1 u w
  calls : Calls n served left w

namespace Parted

theorem tail (stage : Parted n u served waiting (item :: rest) w) :
    ∀ i ∈ rest, i.Plain n ∧ ∀ c, n ≤ c → i.Leaves c := fun i member =>
  ⟨stage.items i (List.mem_cons_of_mem _ member), fun c derived =>
    (stage.unserved c derived).leaves i (List.mem_cons_of_mem _ member)⟩

/-- What cells were given, and what they were like before, stays so when they are left alone. -/
theorem alone (stage : Parted n u served waiting left w) (w' : World σ)
    (same : ∀ update ∈ served ++ waiting, AsItWas update.1 w w')
    (closed : ∀ update ∈ served, (w.cell update.1).closed = true →
      (w'.cell update.1).closed = true) :
    (∀ update ∈ served, Given u w' update) ∧ ∀ update ∈ waiting, AsItWas update.1 u w' :=
  ⟨fun update among => (stage.given update among).later
      (same update (List.mem_append_left _ among)) (closed update among),
    fun update among => (stage.waits update among).trans
      (same update (List.mem_append_right _ among))⟩

theorem closed (stage : Parted n u served waiting left w) (plan : Plan σ) (item : Item σ) :
    ∀ update ∈ served, (w.cell update.1).closed = true →
      ((item.step plan w).2.cell update.1).closed = true := fun update among before =>
  ((touches plan (stage.derived update (List.mem_append_left _ among)).2 item).change
    (stage.derived update (List.mem_append_left _ among)).2).closed before

/-- What a turn brings with it changes nothing about who was served. -/
theorem step (stage : Parted n u served waiting (item :: rest) w) (plan : Plan σ) :
    Parted n u served waiting ((item.step plan w).1 ++ rest) (item.step plan w).2 := by
  have kind := stage.items item List.mem_cons_self
  have leaves (c : Nat) (derived : n ≤ c) : item.Leaves c :=
    (stage.unserved c derived).leaves item List.mem_cons_self
  obtain ⟨plain, new⟩ := stage.plain.step plan kind
  obtain ⟨given, waits⟩ := stage.alone (item.step plan w).2 (fun update among =>
    (leaves _ (stage.derived update among).1).asItWas plan (stage.derived update among).2)
    (stage.closed plan item)
  exact {
    plain
    items := List.forall_mem_append.mpr ⟨new, fun i member => (stage.tail i member).1⟩
    unserved := fun c derived => (stage.unserved c derived).step plan derived kind
    derived := fun update among => ⟨(stage.derived update among).1,
      Nat.lt_of_lt_of_le (stage.derived update among).2 (item.step_cells plan w)⟩
    given
    waits
    calls := stage.calls.step plan kind fun c value derived same => by
      subst same
      exact absurd rfl (leaves c derived) }

/-- An update of a cell that is closed changes nothing. -/
theorem pass (stage : Parted n u served (update :: waiting) [] w)
    (closed : (w.cell update.1).closed = true) :
    Parted n u (served ++ [update]) waiting [] w where
  plain := stage.plain
  items := stage.items
  unserved := stage.unserved
  derived := by
    rw [List.append_assoc]
    exact stage.derived
  given := List.forall_mem_append.mpr ⟨stage.given, List.forall_mem_singleton.mpr
    ⟨.inl closed, .inl (stage.waits update List.mem_cons_self).stores⟩⟩
  waits other among := stage.waits other (List.mem_cons_of_mem _ among)
  calls := .of_inTurn (List.forall_mem_nil _)

/-- The mark that an update begins with changes nothing about who was served. -/
theorem mark (stage : Parted n u served waiting [] w) (c : Nat) :
    Parted n u served waiting [] (w.modifyCell c .mark) := by
  have kept {α : Type} (p : Cell σ → α) (keeps : ∀ cell : Cell σ, p cell.mark = p cell) (d : Nat) :
      p ((w.modifyCell c .mark).cell d) = p (w.cell d) := World.modifyCell_keeps p keeps w c d
  obtain ⟨given, waits⟩ := stage.alone (w.modifyCell c .mark)
    (fun update _ => ⟨kept Cell.value (fun _ => rfl) _, rfl⟩)
    fun update _ closed => (kept Cell.closed (fun _ => rfl) _).trans closed
  exact {
    plain := stage.plain.change (fun _ => rfl) fun _ => rfl
    items := stage.items
    unserved := fun d derived => ⟨(stage.unserved d derived).leaves,
      (kept Cell.deferred (fun _ => rfl) d).trans (stage.unserved d derived).idle⟩
    derived := fun update among => by
      rw [World.modifyCell, List.length_modify]
      exact stage.derived update among
    given
    waits
    calls := .of_inTurn (List.forall_mem_nil _) }

/-- A cell gets its value. -/
theorem apply {value : Option Value} (stage : Parted n u served ((c, value) :: waiting) [] w)
    (once : ((served ++ (c, value) :: waiting).map Prod.fst).Nodup) (plan : Plan σ)
    (opened : (w.cell c).closed = false) :
    Parted n u (served ++ [(c, value)]) waiting
      (((Item.apply c value).step plan w).1 ++ [.unmark c])
      ((Item.apply c value).step plan w).2 := by
  have here := World.lt_of_open opened
  have derived := (stage.derived (c, value) (List.mem_append_right _ List.mem_cons_self)).1
  have waited := stage.waits (c, value) List.mem_cons_self
  obtain ⟨holds, unserved⟩ := Item.step_apply_holds plan opened
    (stage.unserved c derived).idle value
  have stored := (touches plan here (.apply c value)).stores_kept
  have kind : (Item.apply c value : Item σ).Plain n := trivial
  obtain ⟨plain, new⟩ := stage.plain.step plan kind
  rw [List.map_append, List.map_cons, List.nodup_append, List.nodup_cons] at once
  obtain ⟨-, ⟨notLater, -⟩, apart⟩ := once
  -- all other cells are left alone
  have others (d : Nat) (other : d ≠ c) (here : d < w.cells.length) :
      AsItWas d w ((Item.apply c value).step plan w).2 := by
    have leaves : (Item.apply c value : Item σ).Leaves d := other
    exact leaves.asItWas plan here
  have before : ∀ update ∈ served, update.1 ≠ c := fun update among =>
    apart _ (List.mem_map_of_mem among) c List.mem_cons_self
  have after : ∀ update ∈ waiting, update.1 ≠ c := fun update among same =>
    notLater (List.mem_map.mpr ⟨update, among, same⟩)
  exact {
    plain
    items := List.forall_mem_append.mpr ⟨new, List.forall_mem_singleton.mpr trivial⟩
    unserved := fun d derived => by
      by_cases same : d = c
      · subst same
        exact ⟨List.forall_mem_append.mpr ⟨unserved.leaves, List.forall_mem_singleton.mpr trivial⟩,
          unserved.idle⟩
      · have start : Unserved d [.apply c value, .unmark c] w :=
          ⟨List.forall_mem_cons.mpr ⟨same, List.forall_mem_singleton.mpr trivial⟩,
            (stage.unserved d derived).idle⟩
        exact start.step plan derived trivial
    derived := fun update among => by
      rw [List.append_assoc] at among
      obtain ⟨derived, here⟩ := stage.derived update among
      exact ⟨derived, Nat.lt_of_lt_of_le here (Item.step_cells plan w _)⟩
    given := List.forall_mem_append.mpr ⟨fun update among =>
      (stage.given update among).later (others _ (before update among)
        (stage.derived update (List.mem_append_left _ among)).2)
        (stage.closed plan _ update among), List.forall_mem_singleton.mpr ⟨.inr holds, by
          rcases stored with none | ⟨_, same, _, stored⟩
          · exact .inl (none.trans waited.stores)
          · cases same
            exact .inr (stored.trans (by rw [waited.stores]))⟩⟩
    waits := fun update among => (stage.waits update (List.mem_cons_of_mem _ among)).trans
      (others _ (after update among) (stage.derived update
        (List.mem_append_right _ (List.mem_cons_of_mem _ among))).2)
    calls := .of_inTurn (List.forall_mem_append.mpr
      ⟨Calls.of_other plan trivial nofun fun d told _ same => by
        cases same
        exact List.getLast?_concat, List.forall_mem_singleton.mpr trivial⟩) }

end Parted

/-! ### Publishing -/

/-- The work that is left when it is the turn of some updates. -/
def turns (waiting : List (Nat × Option Value)) : List (Item σ) := putAll waiting ++ [.endDispatch]

/-- The moments of the publishing of a tree. -/
inductive Moment (n : Nat) (u : World σ) (served : List (Nat × Option Value)) :
    List (Nat × Option Value) → List (Item σ) → World σ → Prop where
  -- What the last turn has brought with it is done, and then it is the turn of the next cell.
  | turn (waiting : List (Nat × Option Value)) (left : List (Item σ)) (w : World σ)
    (stage : Parted n u served waiting left w) : Moment n u served waiting (left ++ turns waiting) w
  -- A cell is about to get its value.
  | applying (c : Nat) (value : Option Value) (waiting : List (Nat × Option Value)) (w : World σ)
    (stage : Parted n u served ((c, value) :: waiting) [] w) (opened : (w.cell c).closed = false) :
    Moment n u served ((c, value) :: waiting) (.apply c value :: .unmark c :: turns waiting) w
  | ended (w : World σ) (stage : Parted n u served [] [] w) : Moment n u served [] [] w

namespace Moment

theorem stage (moment : Moment n u served waiting agenda w) :
    ∃ left, Parted n u served waiting left w := by
  cases moment with
  | turn _ left _ stage => exact ⟨left, stage⟩
  | applying _ _ _ _ stage | ended _ stage => exact ⟨[], stage⟩

theorem step (moment : Moment n u served waiting (item :: rest) w)
    (once : ((served ++ waiting).map Prod.fst).Nodup) (covers : Covers (item :: rest) w)
    (plan : Plan σ) :
    ∃ served' waiting', served' ++ waiting' = served ++ waiting ∧
      Moment n u served' waiting' ((item.step plan w).1 ++ rest) (item.step plan w).2 := by
  generalize agenda : item :: rest = whole at moment
  cases moment with
  | turn _ left _ stage =>
    cases left with
    | cons first left =>
      cases agenda
      refine ⟨served, waiting, rfl, ?_⟩
      have now := Moment.turn _ _ _ (stage.step plan)
      rwa [List.append_assoc] at now
    | nil =>
      cases waiting with
      | nil =>
        cases agenda
        exact ⟨served, [], rfl, .ended _ {
          plain := stage.plain.congr (fun _ => rfl) rfl
          items := stage.items
          unserved := fun c derived => ⟨List.forall_mem_nil _, (stage.unserved c derived).idle⟩
          derived := stage.derived
          given := fun update among => ⟨(stage.given update among).holds,
            (stage.given update among).once⟩
          waits := nofun
          calls := .of_inTurn (List.forall_mem_nil _) }⟩
      | cons update waiting =>
        obtain ⟨c, value⟩ := update
        cases agenda
        rw [Item.step]
        split
        next closed =>
          exact ⟨served ++ [(c, value)], waiting, List.append_assoc ..,
            .turn _ [] _ (stage.pass closed)⟩
        next opened =>
          have opened : (w.cell c).closed = false := by simpa using opened
          -- nobody is being told of the value of the cell, since its mark is taken back by now
          have unmarked : (w.cell c).notifying = false := by
            refine Bool.eq_false_iff.mpr fun marked => ?_
            have back := covers.cells c marked
            simp at back
          rw [if_neg (by simp [unmarked])]
          refine ⟨served, (c, value) :: waiting, rfl, .applying _ _ _ _ (stage.mark c) ?_⟩
          exact (World.modifyCell_keeps (f := .mark) Cell.closed (fun _ => rfl) w c c).trans opened
  | applying c value waiting _ stage opened =>
    cases agenda
    refine ⟨served ++ [(c, value)], waiting, List.append_assoc .., ?_⟩
    have now := Moment.turn _ _ _ (stage.apply once plan opened)
    rwa [List.append_assoc] at now
  | ended => cases agenda

end Moment

/-- As long as the configuration is open its open derived cells are tracked; when it is being closed
they are about to be closed. -/
def Enlisted (n : Nat) (agenda : List (Item σ)) (w : World σ) : Prop :=
  w.config.closed = false ∧ Regular n w ∧ (∀ i ∈ agenda, i.Fits n w) ∨
    w.config.closed = true ∧ ∀ c, n ≤ c → (w.cell c).closed = true ∨ .close c ∈ agenda

namespace Enlisted

theorem step (enlisted : Enlisted n (item :: rest) w) (plan : Plan σ) :
    Enlisted n ((item.step plan w).1 ++ rest) (item.step plan w).2 := by
  have stays (c : Nat) (closed : (w.cell c).closed = true) (shut : w.config.closed = true) :
      ((item.step plan w).2.cell c).closed = true := by
    rcases Nat.lt_or_ge c w.cells.length with here | beyond
    · exact ((touches plan here item).change here).closed closed
    · rcases item.step_beyond plan w beyond with gone | ⟨_, _, _, opened, _⟩
      · rw [gone]
        rfl
      · rw [shut] at opened
        cases opened
  rcases enlisted with ⟨opened, regular, fits⟩ | ⟨shut, closing⟩
  · by_cases shuts : item = .shut
    · -- all open derived cells are tracked, so that all of them are closed now
      subst shuts
      refine .inr ?_
      rw [Item.step, opened]
      refine ⟨rfl, fun c derived => ?_⟩
      cases closed : (w.cell c).closed with
      | true => exact .inl closed
      | false =>
        obtain ⟨t, known, rfl⟩ := regular.followed c derived closed
        exact .inr (List.mem_append_left _ (List.mem_append_left _
          (List.mem_map.mpr ⟨t, known, rfl⟩)))
    · have still := (Item.step_open plan w shuts).trans opened
      have goes := (regular.step plan (fits item List.mem_cons_self)).resolve_left fun closed => by
        rw [still] at closed
        cases closed
      refine .inl ⟨still, goes.regular, List.forall_mem_append.mpr ⟨goes.fits, fun i member => ?_⟩⟩
      exact (fits i (List.mem_cons_of_mem _ member)).later goes.later
  · refine .inr ⟨(item.step_aloof plan w).closed shut, fun c derived => ?_⟩
    rcases closing c derived with closed | due
    · exact .inl (stays c closed shut)
    · rcases List.mem_cons.mp due with rfl | due
      · refine .inl ?_
        cases closed : (w.cell c).closed with
        | true => exact stays c closed shut
        | false =>
          rw [Item.step_close plan closed]
          rfl
      · exact .inr (List.mem_append_right _ due)

/-- A derived cell that is open is still tracked, or it is about to be closed. -/
theorem tracked (enlisted : Enlisted n agenda w) (derived : n ≤ c)
    (opened : (w.cell c).closed = false) :
    (∃ t ∈ w.config.tracked, t.cell = c) ∨ .close c ∈ agenda := by
  rcases enlisted with ⟨_, regular, _⟩ | ⟨_, closing⟩
  · exact .inl (regular.followed c derived opened)
  · rcases closing c derived with closed | due
    · rw [opened] at closed
      cases closed
    · exact .inr due

end Enlisted

/-- How far the publishing of a tree has come that began when the world was `u`. -/
structure Staged (n : Nat) (u : World σ) (tree : Tree) (served waiting : List (Nat × Option Value))
    (agenda : List (Item σ)) (w : World σ) : Prop where
  current : w.config.current = some tree
  -- Cells whose turn has come hold their new values, and all others are as they were.
  given : ∀ update ∈ served, Given u w update
  waits : ∀ update ∈ waiting, AsItWas update.1 u w
  -- Cells that are open are tracked still, except while they are closed with the configuration.
  tracked : ∀ update ∈ served ++ waiting, (w.cell update.1).closed = false →
    (∃ t ∈ w.config.tracked, t.cell = update.1) ∨ .close update.1 ∈ agenda
  -- What the last turn has brought with it is done first. Then the others have their turns.
  ahead : (agenda = [] ∧ waiting = []) ∨
    (∃ left, agenda = left ++ turns waiting ∧ ∀ i ∈ left, ∀ c, n ≤ c → i.Leaves c) ∨
    ∃ c value later, waiting = (c, value) :: later ∧
      agenda = .apply c value :: .unmark c :: turns later
  -- When a listener of a derived cell is called it is the turn of the cell, or it greets a new one.
  calls : ∀ c id l value rest, agenda = .tell c id l value :: rest → n ≤ c →
    served.getLast? = some (c, value) ∨ w.history.head? = some (.registered c id true)

theorem Moment.staged {tree : Tree} (moment : Moment n u served waiting agenda w)
    (enlisted : Enlisted n agenda w) (current : w.config.current = some tree) :
    Staged n u tree served waiting agenda w := by
  obtain ⟨_, stage⟩ := moment.stage
  refine ⟨current, stage.given, stage.waits, fun update among =>
    enlisted.tracked (stage.derived update among).1, ?_, fun c id l value rest same derived => ?_⟩
  · cases moment with
    | turn _ left _ stage =>
      exact .inr (.inl ⟨left, rfl, fun i member c derived =>
        (stage.unserved c derived).leaves i member⟩)
    | applying c value later _ => exact .inr (.inr ⟨c, value, later, rfl, rfl⟩)
    | ended => exact .inl ⟨rfl, rfl⟩
  · cases moment with
    | turn waiting left _ stage =>
      cases left with
      | nil => cases waiting <;> cases same
      | cons first left =>
        cases same
        exact (stage.calls.first _ rfl).imp_left fun inTurn => inTurn derived
    | applying | ended => cases same

/-- A tree is published in stages, whatever listeners do on the way. -/
theorem Regular.staged {tree : Tree} {updates : List (Nat × Option Value)} (regular : Regular n u)
    (atRest : u.AtRest) (opened : u.config.closed = false)
    (computes : computeAll tree u.config.tracked = .ok updates)
    (leads : Leads plan (dispatch plan updates) (u.swap tree) agenda w) :
    ∃ served waiting, served ++ waiting = plan.order.arrange updates ∧
      Staged n u tree served waiting agenda w := by
  have swapped := regular.swap tree
  have once : ((plan.order.arrange updates).map Prod.fst).Nodup := by
    rw [plan.order.map_arrange, computeAll_cells computes]
    exact plan.order.nodup_arrange regular.distinct
  have start : Parted n u [] (plan.order.arrange updates) [] (u.swap tree) := {
    plain := swapped.plain
    items := List.forall_mem_nil _
    unserved := fun c _ => ⟨List.forall_mem_nil _, atRest.nothing c⟩
    derived := fun update among => by
      obtain ⟨t, known, same, _⟩ := (computeAll_spec computes).2 update
        (plan.order.mem_arrange.mp among)
      obtain ⟨derived, here, _⟩ := regular.derived t known
      exact same ▸ ⟨derived, here⟩
    given := List.forall_mem_nil _
    waits := fun update _ => ⟨rfl, stores_swap update.1 u tree⟩
    calls := .of_inTurn (List.forall_mem_nil _) }
  -- by induction on the steps, of which each finds some cells served and the others waiting
  have all := leads.preserves
    (fun agenda w => (∃ served waiting, served ++ waiting = plan.order.arrange updates ∧
      Moment n u served waiting agenda w) ∧ Enlisted n agenda w ∧ Covers agenda w)
    (fun item rest w ⟨⟨served, waiting, whole, moment⟩, enlisted, covers⟩ => by
      obtain ⟨served', waiting', same, moment'⟩ := moment.step (whole ▸ once) covers plan
      exact ⟨⟨served', waiting', same.trans whole, moment'⟩, enlisted.step plan, covers.step plan⟩)
    ⟨⟨[], _, rfl, .turn _ [] _ start⟩, .inl ⟨opened, swapped, dispatch_fits plan updates⟩,
      .swap atRest.idle plan tree updates⟩
  obtain ⟨⟨served, waiting, whole, moment⟩, enlisted, -⟩ := all
  exact ⟨served, waiting, whole, moment.staged enlisted leads.aloof.current⟩

/-- What comes of publishing a tree, once the values for it are known: the tree, when all cells have
had their turns, unless something is broken off on the way. -/
def Publishes (plan : Plan σ) (u : World σ) (tree : Tree) (updates : List (Nat × Option Value)) :
    Except Stop (Except ConfigError Tree) × World σ → Prop
  | (.ok answer, v) => answer = .ok tree ∧ Leads plan (dispatch plan updates) (u.swap tree) [] v
  | (.error _, v) => ∃ left w, Leads plan (dispatch plan updates) (u.swap tree) left w ∧
    v = unwind left w

theorem publishes {tree : Tree} {updates : List (Nat × Option Value)} (plan : Plan σ) (fuel : Nat)
    (opened : u.config.closed = false) (other : (u.config.current == some tree) = false)
    (computes : computeAll tree u.config.tracked = .ok updates) :
    Publishes plan u tree updates ((publish plan fuel tree).run.run u) := by
  have carried := dispatching_carries plan fuel updates
    ((u.modifyConfig ({ · with current := some tree })).log (.published tree))
  rw [run_publish plan fuel opened other computes, Act.run_bind]
  generalize (dispatching _).run.run _ = ran at carried
  rcases ran with ⟨stop | _, v⟩
  · obtain ⟨left, w, leads, rfl, _⟩ := carried
    exact ⟨left, w, leads, rfl⟩
  · exact ⟨rfl, carried⟩

/-- If there is no value for one of the entries, nothing is published and nothing changes. -/
theorem run_publish_of_error {tree : Tree} {e : ConfigError} (plan : Plan σ) (fuel : Nat)
    (opened : u.config.closed = false) (other : (u.config.current == some tree) = false)
    (fails : computeAll tree u.config.tracked = .error e) :
    (publish plan fuel tree).run.run u = (.ok (.error e), u) := by
  rw [publish, Act.run_bind_of_ok (Act.run_get u)]
  dsimp only
  rw [opened, if_neg Bool.false_ne_true, other, if_neg Bool.false_ne_true, fails]
  rfl

/-! ### Sessions -/

namespace Session

variable {P : Script σ → Prop} {s s' : Session σ}

/-- A refresh has fetched a tree that differs from the current one when the world is `u`. -/
structure Differs (s : Session σ) (tree : Tree) (u : World σ) : Prop where
  fetched : Beside s.world u
  opened : u.config.closed = false
  other : (u.config.current == some tree) = false

/-- If a move puts another tree in the place of the current one, it publishes that tree, to the end
or until it is broken off. -/
theorem Effect.differs (effect : Effect P s s')
    (published : trees s'.world.history ≠ trees s.world.history) :
    ∃ tree u updates left v, s.Differs tree u ∧ computeAll tree u.config.tracked = .ok updates ∧
      Leads s.plan (dispatch s.plan updates) (u.swap tree) left v ∧
      Beside (unwind left v) s'.world := by
  cases effect with
  | beside beside | reloaded beside => exact absurd beside.trees published
  | @ran _ left v _ leads unwinds =>
    refine absurd ?_ published
    rw [unwinds.trees, (unwind_aloof left v).trees, leads.aloof.trees]
  | published fetched opened other computes leads unwinds =>
    exact ⟨_, _, _, _, _, ⟨fetched, opened, other⟩, computes, leads, unwinds⟩

/-- Every tree is published in stages. All values for it are computed first, and if there is none
for one of the entries nothing changes at all. Then the cells get them in the order in which they
were registered, or in the reverse order, and whoever is told of one at any moment finds the tree in
its place, the cells before it served and the cells after it as they were. -/
theorem trees_are_published_in_stages (plan : Plan σ) (fuel : Nat) (surroundings : σ)
    (others : List (Option Value × NotifyOrder)) (moves : List (Move σ))
    (offered : ∀ m ∈ moves, m.Performs (Script.Offered others.length)) :
    let s := (freshBeside plan fuel surroundings others).after moves
    (∀ m, m.Performs (Script.Offered others.length) →
      trees (s.step m).world.history ≠ trees s.world.history →
      ∃ tree u updates left v, s.Differs tree u ∧ computeAll tree u.config.tracked = .ok updates ∧
        Leads s.plan (dispatch s.plan updates) (u.swap tree) left v ∧
        Beside (unwind left v) (s.step m).world) ∧
    ∀ tree u, s.Differs tree u →
      u.Rising ∧
      (∀ e, computeAll tree u.config.tracked = .error e →
        ∀ fuel, (publish s.plan fuel tree).run.run u = (.ok (.error e), u)) ∧
      ∀ updates, computeAll tree u.config.tracked = .ok updates →
        List.Forall₂ (fun t update => t.cell = update.1 ∧ t.extract tree = .ok update.2)
          u.config.tracked updates ∧
        (∀ fuel, Publishes s.plan u tree updates ((publish s.plan fuel tree).run.run u)) ∧
        ∀ agenda w, Leads s.plan (dispatch s.plan updates) (u.swap tree) agenda w →
          ∃ served waiting, served ++ waiting = s.plan.order.arrange updates ∧
            Staged others.length u tree served waiting agenda w := by
  intro s
  have fresh := Proper.fresh plan fuel surroundings others
  have proper : Proper others.length s := fresh.after offered
  have atRest : s.world.AtRest := atRest_after plan fuel surroundings others moves
  have rising : s.world.Rising := by
    obtain ⟨-, done, course⟩ := course_after fresh.orderly fresh.latest moves
    exact course.rising ⟨.nil, nofun⟩
  refine ⟨fun m kind published => (proper.onward kind).effect.differs published,
    fun tree u differs => ⟨rising.beside differs.fetched, fun e fails fuel => ?_,
      fun updates computes => ⟨computeAll_pairs computes, fun fuel => ?_,
        fun agenda w leads => ?_⟩⟩⟩
  · exact run_publish_of_error s.plan fuel differs.opened differs.other fails
  · exact publishes s.plan fuel differs.opened differs.other computes
  · exact (proper.publishing differs.fetched differs.opened).staged
      (atRest.beside differs.fetched) differs.opened computes leads

/-- Three cells hold the whole tree. Somebody who listens to the second one closes the first. -/
def threeCells : List (Move Unit) :=
  [.perform (.derive Extractor.whole fun _ => .derive Extractor.whole fun _ =>
    .derive Extractor.whole fun _ => .register 1 "closing" (fun _ => .close 0 (.done .nothing))
      fun _ => .done .nothing)]

/-- The configuration of the three cells, which tells of the last one first. -/
def lastFirst : Session Unit :=
  (freshBeside { query := ⟨"app", [], none, none⟩, order := .reverse } 20 () []).after threeCells

/-- When the listener of the second cell is called, the third cell has its new value already, and
the first one still has its old value. -/
theorem trees_are_published_in_stages_lastFirst :
    let value := some (Value.obj [("a", .int 1)])
    ∃ served waiting l rest w,
      Staged 0 lastFirst.world { root := [("a", .int 1)] } served waiting
        (.tell 1 0 l value :: rest) w ∧
      served ++ waiting = [(2, value), (1, value), (0, value)] ∧
      served.getLast? = some (1, value) ∧
      (w.cell 2).value = value ∧ (w.cell 1).value = value ∧ (w.cell 0).value = none := by
  intro value
  have offered : ∀ m ∈ threeCells, m.Performs (Script.Offered 0) :=
    List.forall_mem_singleton.mpr fun _ _ _ => ⟨fun _ => trivial, fun _ => trivial⟩
  obtain ⟨-, stages⟩ := trees_are_published_in_stages
    { query := ⟨"app", [], none, none⟩, order := .reverse } 20 () [] threeCells offered
  let tree : Tree := { root := [("a", .int 1)] }
  obtain ⟨-, -, published⟩ := stages tree lastFirst.world ⟨.refl _, rfl, rfl⟩
  obtain ⟨-, -, moments⟩ := published [(0, value), (1, value), (2, value)] rfl
  let tells : Item Unit := .tell 1 0 ⟨"closing", fun _ => .close 0 (.done .nothing)⟩ value
  let v := (((lastFirst.world.swap tree).modifyCell 2 .mark).modifyCell 2
    fun cell => { cell with value }).log (.stored 2 value)
  let w := (((v.modifyCell 2 .unmark).modifyCell 1 .mark).modifyCell 1
    fun cell => { cell with value }).log (.stored 1 value)
  have third : Leads lastFirst.plan (dispatch lastFirst.plan [(0, value), (1, value), (2, value)])
      (lastFirst.world.swap tree) (.drain 2 :: .unmark 2 :: turns [(1, value), (0, value)]) v :=
    .step (.step .here)
  have second : Leads lastFirst.plan (.drain 2 :: .unmark 2 :: turns [(1, value), (0, value)]) v
      (tells :: .drain 1 :: .unmark 1 :: turns [(0, value)]) w :=
    .step (.step (.step (.step .here)))
  obtain ⟨served, waiting, whole, staged⟩ := moments _ _ (third.trans second)
  -- the listener was there before, so it is the turn of its cell
  have turn := (staged.calls 1 0 _ value _ rfl (Nat.zero_le _)).resolve_right nofun
  exact ⟨served, waiting, _, _, w, staged, whole, turn, rfl, rfl, rfl⟩

end Session

end LayeredConfig.Live
