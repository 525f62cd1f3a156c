import LayeredConfig.Proofs.Live.Panics
import LayeredConfig.Proofs.Live.RealChanges
/-!
# Refreshes after a panic

If a listener panics while a tree is published, that tree is the current one already, but derived
cells whose turn had not come lag behind. A refresh that brings another tree makes up for it, since
all derived cells get their values then. A refresh that brings the same tree once more does not: a
tree that equals the current one is not published (`refresh_leaves_behind`).

That is the only way for derived cells to lag behind: `refresh_repairs`. Nobody but the
configuration puts values into them (`Unserved`), so they hold what their rules give for the current
tree at every moment between moves, once that tree was published to the end. They need not hold what
other rules than the usual ones would give for a tree that merely equals it.
-/
namespace LayeredConfig.Live

variable {σ : Type} {plan : Plan σ} {n k c : Nat} {item : Item σ} {a b agenda rest : List (Item σ)}
  {t : Tracked} {u v w w' : World σ}

/-! ### Cells that get no updates -/

/-- The work is no update of the cell. -/
def Item.Leaves (c : Nat) : Item σ → Prop
  | .put d _ | .apply d _ => c ≠ d
  | _ => True

theorem Item.Leaves.spares (leaves : item.Leaves c) : ∃ id, item.Spares c id := by
  cases item with
  | put | apply => exact ⟨0, leaves⟩
  | tell d other l value => exact ⟨other + 1, fun _ => Nat.ne_of_lt (Nat.lt_succ_self other)⟩
  | _ => exact ⟨0, trivial⟩

/-- No update of the cell is still to be made. -/
structure Unserved (c : Nat) (agenda : List (Item σ)) (w : World σ) : Prop where
  leaves : ∀ i ∈ agenda, i.Leaves c
  idle : (w.cell c).deferred = []

namespace Unserved

theorem value (unserved : Unserved c (item :: rest) w) (plan : Plan σ)
    (here : c < w.cells.length) : ((item.step plan w).2.cell c).value = (w.cell c).value := by
  refine (touches plan here item).value.resolve_right ?_
  rintro ⟨_, rfl, _⟩
  exact unserved.leaves _ List.mem_cons_self rfl

/-- Of a derived cell no update is asked for. -/
theorem step (unserved : Unserved c (item :: rest) w) (plan : Plan σ) (derived : n ≤ c)
    (plain : item.Plain n) :
    Unserved c ((item.step plan w).1 ++ rest) (item.step plan w).2 := by
  have leaves := unserved.leaves item List.mem_cons_self
  constructor
  · intro i member
    rcases List.mem_append.mp member with new | old
    · have brings := plain.brings plan i new
      cases i with
      | put d value => exact Nat.ne_of_gt (Nat.lt_of_lt_of_le brings derived)
      | apply d value =>
        rcases brings with rfl | ⟨rfl, waits⟩
        · exact leaves
        · rintro rfl
          exact waits unserved.idle
      | _ => trivial
    · exact unserved.leaves i (List.mem_cons_of_mem _ old)
  · rcases Nat.lt_or_ge c w.cells.length with here | beyond
    · obtain ⟨_, spares⟩ := leaves.spares
      exact (touches plan here item).deferred_of_spares spares unserved.idle
    · rcases item.step_beyond plan w beyond with gone | ⟨_, _, _, _, _, made⟩
      · rw [gone]
        rfl
      · rw [made]

end Unserved

/-- A cell that gets no updates keeps its value. -/
theorem Regular.unserved (regular : Regular n w) (fits : ∀ i ∈ a, i.Fits n w)
    (leads : Leads plan a w b v) (derived : n ≤ c) (here : c < w.cells.length)
    (unserved : Unserved c a w) :
    v.config.closed = true ∨ Regular n v ∧ Unserved c b v ∧
      (v.cell c).value = (w.cell c).value := by
  have all := regular.preserves fits leads
    (fun a v => c < v.cells.length ∧ Unserved c a v ∧ (v.cell c).value = (w.cell c).value)
    (fun _ _ _ _ fits goes ⟨here, unserved, same⟩ =>
      ⟨Nat.lt_of_lt_of_le here goes.later.cells, unserved.step plan derived fits.plain,
        (unserved.value plan here).trans same⟩) ⟨here, unserved, rfl⟩
  exact all.imp_right fun ⟨regular, _, _, unserved, same⟩ => ⟨regular, unserved, same⟩

/-! ### Cells that follow the tree -/

/-- The cell of an entry holds what its rule gives for the current tree. -/
def World.Follows (w : World σ) (t : Tracked) : Prop :=
  ∃ value, seed t.extract w.config.current = .ok value ∧ (w.cell t.cell).Holds value

theorem Cell.Holds.interchangeable {cell : Cell σ} {value : Option Value}
    (holds : cell.Holds value) : Interchangeable cell.value value := by
  rcases holds with same | same
  · rw [same]
    exact .refl _
  · exact .of_beq same

/-- Every entry whose cell is open has a cell that follows the tree. -/
def World.Followed (w : World σ) : Prop :=
  ∀ t ∈ w.config.tracked, (w.cell t.cell).closed = false → w.Follows t

theorem World.Follows.congr (follows : w.Follows t)
    (current : v.config.current = w.config.current)
    (value : (v.cell t.cell).value = (w.cell t.cell).value) : v.Follows t := by
  obtain ⟨held, gives, holds⟩ := follows
  refine ⟨held, current ▸ gives, ?_⟩
  rwa [Cell.Holds, value]

theorem World.Followed.beside (followed : w.Followed) (beside : Beside w v) : v.Followed := by
  intro t known opened
  rw [beside.tracked] at known
  rw [beside.cell] at opened
  exact (followed t known opened).congr beside.current (by rw [beside.cell])

theorem World.Followed.unwind (followed : w.Followed) (agenda : List (Item σ)) :
    (unwind agenda w).Followed := by
  intro t known opened
  obtain ⟨_, config⟩ := unwind_config agenda w
  rw [config] at known
  have same : ((Live.unwind agenda w).cell t.cell).closed = (w.cell t.cell).closed ∧
      ((Live.unwind agenda w).cell t.cell).value = (w.cell t.cell).value := by
    rcases unwind_cell agenda w t.cell with same | same <;> rw [same] <;> exact ⟨rfl, rfl⟩
  rw [same.1] at opened
  exact (followed t known opened).congr (by rw [config]) same.2

/-- Followed cells hold what their rules give for the current tree. -/
theorem World.Followed.holds {tree : Tree} (followed : w.Followed)
    (current : w.config.current = some tree) :
    ∀ t ∈ w.config.tracked, (w.cell t.cell).closed = false →
      ∃ value, t.extract tree = .ok value ∧ (w.cell t.cell).Holds value := by
  intro t known opened
  obtain ⟨value, gives, holds⟩ := followed t known opened
  rw [current] at gives
  exact ⟨value, gives, holds⟩

/-- They also hold what their rules give for a tree that equals the current one, up to what equality
of values leaves open. -/
theorem World.Followed.holds_of_beq {tree : Tree} (followed : w.Followed)
    (same : (w.config.current == some tree) = true) :
    ∀ t ∈ w.config.tracked, (w.cell t.cell).closed = false → t.extract.Usual →
      ∃ value, t.extract tree = .ok value ∧ Interchangeable value (w.cell t.cell).value := by
  intro t known opened usual
  cases current : w.config.current with
  | none =>
    rw [current] at same
    cases same
  | some held =>
    rw [current] at same
    obtain ⟨value, gives, holds⟩ := followed.holds current t known opened
    obtain ⟨value', gives', alike⟩ := usual.respects same gives
    exact ⟨value', gives', alike.symm.trans holds.interchangeable.symm⟩

/-- Of cells from number `k` on, nobody but the configuration has anything to do with the values,
and those that were made so far follow the tree. -/
structure Settled (k : Nat) (agenda : List (Item σ)) (w : World σ) : Prop where
  unserved : ∀ c, k ≤ c → Unserved c agenda w
  follows : ∀ t ∈ w.config.tracked, k ≤ t.cell → (w.cell t.cell).closed = false → w.Follows t

theorem Settled.step (settled : Settled k (item :: rest) w) (plan : Plan σ) (derived : n ≤ k)
    (regular : Regular n w) (fits : item.Fits n w)
    (goes : Goes n w (item.step plan w).1 (item.step plan w).2) :
    Settled k ((item.step plan w).1 ++ rest) (item.step plan w).2 where
  unserved c beyond :=
    (settled.unserved c beyond).step plan (Nat.le_trans derived beyond) fits.plain
  follows t known beyond opened := by
    rcases goes.later.tracked t known with old | ⟨_, new⟩
    · have here := (regular.derived t old).2.1
      have before : (w.cell t.cell).closed = false := by
        cases closed : (w.cell t.cell).closed with
        | false => rfl
        | true =>
          rw [goes.later.closed t.cell here closed] at opened
          cases opened
      exact (settled.follows t old beyond before).congr (item.step_aloof plan w).current
        ((settled.unserved t.cell beyond).value plan here)
    · -- the cell was only just made, and so it has its first value
      rcases item.step_length plan w with same | ⟨extract, value, _, _, gives, does⟩
      · have there := (goes.regular.derived t known).2.1
        rw [same] at there
        exact absurd there (Nat.not_lt_of_le new)
      · rw [does] at known ⊢
        rcases List.mem_append.mp known with old | last
        · exact absurd (regular.derived t old).2.1 (Nat.not_lt_of_le new)
        · rw [List.mem_singleton.mp last]
          refine ⟨value, gives, .inl ?_⟩
          rw [World.follow, World.cell_modifyConfig, World.cell_addCell, if_pos rfl]

theorem Regular.settled (regular : Regular n w) (fits : ∀ i ∈ a, i.Fits n w)
    (leads : Leads plan a w b v) (derived : n ≤ k) (settled : Settled k a w) :
    v.config.closed = true ∨ Settled k b v :=
  (regular.preserves fits leads (Settled k) (fun _ _ _ regular fits goes settled =>
    settled.step plan derived regular fits goes) settled).imp_right fun ⟨_, _, settled⟩ => settled

/-- What a script does, as far as it gets, leaves derived cells in step with the tree. -/
theorem Regular.followed_script (regular : Regular n w) (atRest : w.AtRest) {script : Script σ}
    (offered : script.Offered n) (leads : Leads plan [.go script] w b v) (followed : w.Followed) :
    v.config.closed = true ∨ v.Followed := by
  have start : Settled n [.go script] w :=
    ⟨fun c _ => ⟨List.forall_mem_singleton.mpr trivial, atRest.nothing c⟩,
      fun t known _ => followed t known⟩
  have fits := Item.fits_next (w := w) offered
  rcases regular.leads fits leads with closed | ⟨regular', _⟩
  · exact .inl closed
  · exact (regular.settled fits leads (Nat.le_refl n) start).imp_right fun settled t known =>
      settled.follows t known (regular'.derived t known).1

/-! ### Publishing a tree -/

/-- An update that is applied to an open cell has its value stored, and then nothing of it is left
to be done but calls. -/
theorem Item.step_apply_holds (plan : Plan σ) (opened : (w.cell c).closed = false)
    (idle : (w.cell c).deferred = []) (value : Option Value) :
    (((Item.apply c value).step plan w).2.cell c).Holds value ∧
      Unserved c ((Item.apply c value).step plan w).1 ((Item.apply c value).step plan w).2 := by
  have stored (f : Cell σ → Cell σ) : (w.modifyCell c f).cell c = f (w.cell c) :=
    World.cell_modifyCell_self w (World.lt_of_open opened) f
  rw [Item.step, if_neg (by simp [opened])]
  split
  next same => exact ⟨.inr same, List.forall_mem_singleton.mpr trivial, idle⟩
  next =>
    refine ⟨.inl ?_, fun i member => ?_, ?_⟩
    · rw [World.cell_log, stored]
    · rcases List.mem_append.mp member with told | last
      · obtain ⟨listener, _, rfl⟩ := List.mem_map.mp told
        trivial
      · rw [List.mem_singleton.mp last]
        trivial
    · rw [World.cell_log, stored]
      exact idle

/-- An update of a derived cell whose listeners are not being called has its value stored, and
nothing else is stored until everything that follows from it is done. -/
theorem Regular.put_holds {value : Option Value} (regular : Regular n w) (derived : n ≤ c)
    (opened : (w.cell c).closed = false) (unmarked : (w.cell c).notifying = false)
    (idle : (w.cell c).deferred = []) (leads : Leads plan [.put c value] w [] v) :
    v.config.closed = true ∨ (v.cell c).Holds value ∧ (v.cell c).deferred = [] := by
  have marked : (w.modifyCell c .mark).cell c = (w.cell c).mark :=
    World.cell_modifyCell_self w (World.lt_of_open opened) _
  have puts : (Item.put c value).step plan w =
      ([.apply c value, .unmark c], w.modifyCell c .mark) := by
    rw [Item.step, if_neg (by simp [opened]), if_neg (by simp [unmarked])]
  have opened' : ((w.modifyCell c .mark).cell c).closed = false := by rw [marked]; exact opened
  obtain ⟨holds, unserved⟩ := Item.step_apply_holds plan opened' (by rw [marked]; exact idle) value
  have here := Nat.lt_of_lt_of_le (World.lt_of_open opened')
    (Item.step_cells plan (w.modifyCell c .mark) (.apply c value))
  -- two steps lead to the moment at which the value is there
  have two {b : List (Item σ)} {v : World σ}
      (later : Leads plan (((Item.apply c value).step plan (w.modifyCell c .mark)).1 ++ [.unmark c])
        ((Item.apply c value).step plan (w.modifyCell c .mark)).2 b v) :
      Leads plan [.put c value] w b v := by
    refine .step ?_
    rw [puts]
    exact .step later
  have after : Leads plan (((Item.apply c value).step plan (w.modifyCell c .mark)).1 ++ [.unmark c])
      ((Item.apply c value).step plan (w.modifyCell c .mark)).2 [] v := by
    cases leads with
    | step leads =>
      rw [puts] at leads
      cases leads with
      | step leads => exact leads
  generalize (Item.apply c value).step plan (w.modifyCell c .mark) = applied at *
  have fits : ∀ i ∈ [Item.put c value], i.Fits n w := List.forall_mem_singleton.mpr trivial
  rcases regular.leads fits (two .here) with closed | ⟨regular', fits'⟩
  · exact .inl (after.aloof.closed closed)
  have unserved' : Unserved c (applied.1 ++ [.unmark c]) applied.2 :=
    ⟨List.forall_mem_append.mpr ⟨unserved.leaves, List.forall_mem_singleton.mpr trivial⟩,
      unserved.idle⟩
  refine (regular'.unserved fits' after derived here unserved').imp_right ?_
  rintro ⟨_, unserved, same⟩
  refine ⟨?_, unserved.idle⟩
  rwa [Cell.Holds, same]

/-- A tree is published to its end. Cells that are open then hold what their rules give for it. -/
theorem Regular.dispatch_holds {tree : Tree} {updates : List (Nat × Option Value)}
    (regular : Regular n w) (atRest : w.AtRest) (known : t ∈ w.config.tracked)
    (computes : computeAll tree w.config.tracked = .ok updates)
    (leads : Leads plan (dispatch plan updates) (w.swap tree) [] v) :
    ∃ value, t.extract tree = .ok value ∧
      (v.config.closed = true ∨ (v.cell t.cell).closed = true ∨ (v.cell t.cell).Holds value) := by
  obtain ⟨value, before, after, gives, all, notBefore, notAfter⟩ :=
    regular.one_update known computes plan.order
  refine ⟨value, gives, ?_⟩
  obtain ⟨derived, here, _⟩ := regular.derived t known
  generalize t.cell = c at notBefore notAfter derived here all ⊢
  obtain ⟨x, y, first, unmarked, second, third⟩ := leads.turn atRest.idle all
  have later := (second.append _).trans third
  have leaves {updates : List (Nat × Option Value)} (others : ∀ update ∈ updates, c ≠ update.1) :
      ∀ i ∈ putAll (σ := σ) updates, i.Leaves c := by
    intro i member
    obtain ⟨update, among, rfl⟩ := List.mem_map.mp member
    exact others update among
  -- other cells come first
  have start : Unserved c (putAll before) (w.swap tree) := ⟨leaves notBefore, atRest.nothing c⟩
  rcases (regular.swap tree).unserved (putAll_fits before) first derived here start with
    closed | ⟨regular', unserved, _⟩
  · exact .inl (later.aloof.closed closed)
  have here' : c < x.cells.length := Nat.lt_of_lt_of_le here first.length
  cases opened : (x.cell c).closed with
  | true =>
    exact .inr (.inl (later.keeps here' (·.closed = true) (fun _ _ change => change.closed) opened))
  | false =>
    have fits : ∀ i ∈ [Item.put c value], i.Fits n x := List.forall_mem_singleton.mpr trivial
    rcases regular'.put_holds derived opened unmarked unserved.idle second with
      closed | ⟨holds, idle⟩
    · exact .inl (third.aloof.closed closed)
    rcases regular'.leads fits second with closed | ⟨regular'', _⟩
    · exact .inl (third.aloof.closed closed)
    -- and then others again
    have fits' : ∀ i ∈ putAll after ++ [.endDispatch], i.Fits n y :=
      List.forall_mem_append.mpr ⟨putAll_fits after, List.forall_mem_singleton.mpr trivial⟩
    have rest : Unserved c (putAll after ++ [.endDispatch]) y :=
      ⟨List.forall_mem_append.mpr ⟨leaves notAfter, List.forall_mem_singleton.mpr trivial⟩, idle⟩
    refine (regular''.unserved fits' third derived (Nat.lt_of_lt_of_le here' second.length)
      rest).imp_right fun ⟨_, _, same⟩ => .inr ?_
    rwa [Cell.Holds, same]

/-- Once a tree was published to its end derived cells are in step with it. -/
theorem Regular.followed_dispatch {tree : Tree} {updates : List (Nat × Option Value)}
    (regular : Regular n w) (atRest : w.AtRest)
    (computes : computeAll tree w.config.tracked = .ok updates)
    (leads : Leads plan (dispatch plan updates) (w.swap tree) [] v) :
    v.config.closed = true ∨ v.Followed := by
  have swapped : Regular n (w.swap tree) := regular.swap tree
  have all := swapped.preserves (dispatch_fits plan updates) leads
    (fun _ v => (w.swap tree).Later v) (fun _ _ _ _ _ goes later => later.trans goes.later)
    (.refl _)
  -- cells that were made meanwhile, if there could be any, would have been made from the tree
  have start : Settled w.cells.length (dispatch plan updates) (w.swap tree) := by
    refine ⟨fun c beyond => ⟨fun i member => ?_, atRest.nothing c⟩, fun t known beyond => ?_⟩
    · rcases List.mem_append.mp member with puts | last
      · obtain ⟨update, due, rfl⟩ := List.mem_map.mp puts
        obtain ⟨t, known, same, _⟩ := (computeAll_spec computes).2 update
          (plan.order.mem_arrange.mp due)
        have old := (regular.derived t known).2.1
        exact Nat.ne_of_gt (Nat.lt_of_lt_of_le (same ▸ old) beyond)
      · rw [List.mem_singleton.mp last]
        trivial
    · exact absurd (regular.derived t known).2.1 (Nat.not_lt_of_le beyond)
  rcases all with closed | ⟨_, _, later⟩
  · exact .inl closed
  rcases swapped.settled (dispatch_fits plan updates) leads regular.others start with
    closed | settled
  · exact .inl closed
  cases closed : v.config.closed with
  | true => exact .inl rfl
  | false =>
    refine .inr fun t known opened => ?_
    rcases later.tracked t known with old | ⟨_, new⟩
    · obtain ⟨value, gives, holds⟩ := regular.dispatch_holds atRest old computes leads
      rw [closed, opened] at holds
      simp only [Bool.false_eq_true, false_or] at holds
      refine ⟨value, ?_, holds⟩
      rw [leads.aloof.current]
      exact gives
    · exact settled.follows t known new opened

/-! ### A configuration that is closed -/

/-- Nothing is tracked once the configuration is closed. -/
def World.Released (w : World σ) : Prop := w.config.closed = true → w.config.tracked = []

namespace World.Released

theorem step (released : w.Released) (plan : Plan σ) (item : Item σ) :
    (item.step plan w).2.Released := by
  intro closed
  by_cases shut : item = .shut
  · subst shut
    rw [Item.step] at closed ⊢
    split
    next already => exact released already
    next => rfl
  · rw [Item.step_open plan w shut] at closed
    by_cases sources : item = .shutSources
    · subst sources
      rw [Item.step, closeSources_after]
      exact released closed
    · exact ((Item.step_sources plan w sources).2 closed).1 (released closed)

theorem leads (released : w.Released) (leads : Leads plan a w b v) : v.Released :=
  leads.preserves (fun _ v => v.Released) (fun item _ _ released => released.step plan item)
    released

theorem beside (released : w.Released) (beside : Beside w v) : v.Released := by
  intro closed
  rw [beside.tracked]
  exact released (beside.closed ▸ closed)

theorem unwind (released : w.Released) (agenda : List (Item σ)) : (unwind agenda w).Released := by
  obtain ⟨_, config⟩ := unwind_config agenda w
  rw [Released, config]
  exact released

/-- No entry is left that could lag behind. -/
theorem followed (released : w.Released) (closed : w.config.closed = true) : w.Followed := by
  intro t known
  rw [released closed] at known
  cases known

end World.Released

/-! ### Sessions -/

namespace Session

variable {P : Script σ → Prop} {s s' : Session σ} {moves : List (Move σ)} {m : Move σ}

theorem Effect.released (effect : Effect P s s') (released : s.world.Released) :
    s'.world.Released := by
  cases effect with
  | beside beside | reloaded beside => exact released.beside beside
  | ran performs leads unwinds => exact ((released.leads leads).unwind _).beside unwinds
  | @published tree _ _ u _ fetched opened other computes leads unwinds =>
    have before : u.Released := released.beside fetched
    have swapped : (u.swap tree).Released := before
    exact ((swapped.leads leads).unwind _).beside unwinds

/-- Derived cells are in step with a tree that was published to the end. -/
theorem Proper.followed_published {tree : Tree} {updates : List (Nat × Option Value)}
    (proper : Proper n s) (atRest : s.world.AtRest) (fetched : Beside s.world u)
    (opened : u.config.closed = false) (computes : computeAll tree u.config.tracked = .ok updates)
    (leads : Leads s.plan (dispatch s.plan updates) (u.swap tree) [] v) (ends : Beside v w)
    (released : w.Released) : w.Followed := by
  have regular := proper.publishing fetched opened
  rcases regular.followed_dispatch (atRest.beside fetched) computes leads with closed | followed
  · exact released.followed (ends.closed.trans closed)
  · exact followed.beside ends

/-- A move leaves derived cells in step with the tree if they are, unless it publishes one and is
broken off; if it is not they are in step afterwards in any case. -/
theorem Effect.followed (effect : Effect (Script.Offered n) s s') (proper : Proper n s)
    (atRest : s.world.AtRest) (released : s'.world.Released) :
    BreaksOff s s' ∨ s'.world.Followed ∨
      trees s'.world.history = trees s.world.history ∧ ¬s.world.Followed := by
  have still (trees : trees s'.world.history = trees s.world.history)
      (kept : s.world.Followed → s'.world.Followed) : BreaksOff s s' ∨ s'.world.Followed ∨
        Live.trees s'.world.history = Live.trees s.world.history ∧ ¬s.world.Followed := by
    by_cases followed : s.world.Followed
    · exact .inr (.inl (kept followed))
    · exact .inr (.inr ⟨trees, followed⟩)
  cases effect with
  | beside beside | reloaded beside =>
    exact still beside.trees fun followed => followed.beside beside
  | @ran script left v offered leads unwinds =>
    refine still ?_ fun followed => ?_
    · rw [unwinds.trees, (unwind_aloof left v).trees, leads.aloof.trees]
    · rcases proper.regular with closed | regular
      · exact released.followed (unwinds.closed_of_unwind (leads.aloof.closed closed))
      · rcases regular.followed_script atRest offered leads followed with closed | followed
        · exact released.followed (unwinds.closed_of_unwind closed)
        · exact (followed.unwind left).beside unwinds
  | @published tree updates left u v fetched opened other computes leads unwinds loads =>
    rcases loads with ⟨rfl, -⟩ | loads
    · exact .inr (.inl (proper.followed_published atRest fetched opened computes leads unwinds
        released))
    · refine .inl ⟨?_, loads⟩
      rw [trees_of_published fetched leads unwinds]
      exact List.cons_ne_self _ _

/-- The tree that is the current one after some moves was published by a move that was broken
off. -/
def LeftBehind (s : Session σ) (moves : List (Move σ)) : Prop :=
  ∃ a m b, moves = a ++ m :: b ∧ BreaksOff (s.after a) ((s.after a).step m) ∧
    trees (s.after moves).world.history = trees ((s.after a).step m).world.history

theorem after_concat (s : Session σ) (moves : List (Move σ)) (m : Move σ) :
    s.after (moves ++ [m]) = (s.after moves).step m :=
  List.foldl_concat ..

/-- Nothing is published by a move that changes nothing about the trees. -/
theorem LeftBehind.concat (leftBehind : s.LeftBehind moves)
    (trees : trees ((s.after moves).step m).world.history = trees (s.after moves).world.history) :
    s.LeftBehind (moves ++ [m]) := by
  obtain ⟨a, m', b, rfl, breaks, last⟩ := leftBehind
  refine ⟨a, m', b ++ [m], by simp, breaks, ?_⟩
  rw [after_concat, trees, last]

/-- As long as no tree was left behind, derived cells are in step with the current one. -/
theorem followed_after (proper : Proper n s) (atRest : s.world.AtRest)
    (released : s.world.Released) (followed : s.world.Followed)
    (offered : ∀ m ∈ moves, m.Performs (Script.Offered n)) :
    s.LeftBehind moves ∨ (s.after moves).world.Followed := by
  -- by induction on the moves, of which the last one is looked at
  induction moves using List.reverseRecOn with
  | nil => exact .inr followed
  | append_singleton moves m ih =>
    have offered' : ∀ m ∈ moves, m.Performs (Script.Offered n) :=
      fun m' member => offered m' (List.mem_append_left _ member)
    have kind := offered m (List.mem_append_right _ (List.mem_singleton_self m))
    have all := proper.keeps (fun s => s.world.AtRest ∧ s.world.Released)
      (fun _ _ _ onward ⟨atRest, released⟩ =>
        ⟨onward.effect.atRest atRest, onward.effect.released released⟩) offered' ⟨atRest, released⟩
    have effect := ((proper.after offered').onward kind).effect
    rw [after_concat]
    rcases effect.followed (proper.after offered') all.1 (effect.released all.2) with
      breaks | followed | ⟨trees, lags⟩
    · exact .inl ⟨moves, m, [], rfl, breaks, by rw [after_concat]⟩
    · exact .inr followed
    · exact .inl (((ih offered').resolve_right lags).concat trees)

/-- A refresh that has brought a tree either found an equal one, and then it changed nothing, or it
has published the tree to the end. -/
theorem Effect.brought {tree : Tree} (effect : Effect P s s')
    (brings : s'.loads = s.loads ++ [tree]) :
    Beside s.world s'.world ∧ (s.world.config.current == some tree) = true ∨
      (s.world.config.current == some tree) = false ∧ ∃ updates u v, Beside s.world u ∧
        u.config.closed = false ∧ computeAll tree u.config.tracked = .ok updates ∧
        Leads s.plan (dispatch s.plan updates) (u.swap tree) [] v ∧ Beside v s'.world := by
  have nothing {loads : List Tree} (same : loads = s.loads) (brings : loads = s.loads ++ [tree]) :
      False := by
    rw [same] at brings
    simp at brings
  have that {loads : List Tree} {other : Tree} (brought : loads = s.loads ++ [other])
      (brings : loads = s.loads ++ [tree]) : other = tree := by
    rw [brought] at brings
    simpa using brings
  cases effect with
  | beside beside loads => exact (nothing loads brings).elim
  | ran performs leads unwinds loads => exact (nothing loads brings).elim
  | reloaded beside same loads =>
    obtain rfl := that loads brings
    exact .inl ⟨beside, same⟩
  | @published _ updates left u v fetched opened other computes leads unwinds loads =>
    rcases loads with ⟨rfl, loads⟩ | loads
    · obtain rfl := that loads brings
      exact .inr ⟨fetched.current ▸ other, updates, u, v, fetched, opened, computes, leads, unwinds⟩
    · exact (nothing loads brings).elim

/-- When a refresh has brought a tree that differs from the current one, derived cells hold what
their rules give for it, whatever listeners have broken off before. A refresh that has brought a
tree equal to the current one has changed nothing. Derived cells then hold what their rules give for
the current tree, except if that was published by a move that was broken off. The usual rules cannot
tell the tree that was brought from the current one, so by them cells are in step with either; with
another rule a cell follows the current one of the two. -/
theorem refresh_repairs (plan : Plan σ) (fuel : Nat) (surroundings : σ)
    (others : List (Option Value × NotifyOrder)) (earlier : List (Move σ)) (m : Move σ)
    (offered : ∀ m' ∈ earlier ++ [m], m'.Performs (Script.Offered others.length)) (tree : Tree) :
    let start := freshBeside plan fuel surroundings others
    let s := start.after earlier
    let s' := s.step m
    s'.loads = s.loads ++ [tree] →
    ((s.world.config.current == some tree) = false →
      ∀ t ∈ s'.world.config.tracked, (s'.world.cell t.cell).closed = false →
        ∃ value, t.extract tree = .ok value ∧ (s'.world.cell t.cell).Holds value) ∧
    ((s.world.config.current == some tree) = true → Beside s.world s'.world ∧
      (¬start.LeftBehind earlier → s'.world.Followed ∧
        ∀ t ∈ s'.world.config.tracked, (s'.world.cell t.cell).closed = false →
          t.extract.Usual → ∃ value, t.extract tree = .ok value ∧
            Interchangeable value (s'.world.cell t.cell).value)) := by
  intro start s s' brings
  have offered' : ∀ m' ∈ earlier, m'.Performs (Script.Offered others.length) :=
    fun m' member => offered m' (List.mem_append_left _ member)
  have kind := offered m (List.mem_append_right _ (List.mem_singleton_self m))
  have fresh := Proper.fresh plan fuel surroundings others
  have proper : Proper others.length s := fresh.after offered'
  have atRest : s.world.AtRest := atRest_after plan fuel surroundings others earlier
  have released : s.world.Released := fresh.keeps (fun s => s.world.Released)
    (fun _ _ _ onward released => onward.effect.released released) offered' nofun
  have effect : Effect (Script.Offered others.length) s s' := (proper.onward kind).effect
  have released' := effect.released released
  rcases effect.brought brings with ⟨beside, same⟩ | ⟨other, updates, u, v, published⟩
  · -- nothing has changed, so cells are in step if they were before
    refine ⟨fun other => ?_, fun _ => ⟨beside, fun complete => ?_⟩⟩
    · rw [same] at other
      cases other
    · have followed : s'.world.Followed := by
        rcases followed_after fresh (atRest_after plan fuel surroundings others []) nofun nofun
          offered' with leftBehind | followed
        · exact absurd leftBehind complete
        · exact followed.beside beside
      exact ⟨followed, followed.holds_of_beq (beside.current ▸ same)⟩
  · -- the tree was published to the end, whatever cells were like before
    obtain ⟨fetched, opened, computes, leads, ends⟩ := published
    refine ⟨fun _ => ?_, fun same => ?_⟩
    · have followed : s'.world.Followed :=
        proper.followed_published atRest fetched opened computes leads ends released'
      have current : s'.world.config.current = some tree :=
        Beside.current_of_unwind (b := []) leads ends
      exact followed.holds current
    · rw [other] at same
      cases same

/-- Two cells hold the whole tree. Somebody who listens to the first one panics as long as the
source has been asked only once. -/
def touchy : List (Move Nat) :=
  [.perform (.derive Extractor.whole fun _ => .derive Extractor.whole fun _ =>
    .register 0 "touchy"
      (fun _ => .inspect fun asked => if asked = 1 then .panic else .done .nothing)
      fun _ => .done .nothing)]

/-- A refresh is broken off, and another one fails. -/
def twoRefreshes : List (Move Nat) :=
  [.spawn 0 .refresh, .turn 0, .spawn 0 .refresh, .turn 1, .spawn 0 .refresh]

def touched : Session Nat :=
  freshBeside { query := ⟨"app", [], none, none⟩, sources := [fickleSource] } 20 0 []

/-- The next refresh brings the same tree as the one that was broken off. It ends well, but the
second cell still has nothing of that tree. -/
theorem refresh_leaves_behind :
    let s := touched.after (touchy ++ twoRefreshes)
    let s' := s.step (.turn 2)
    s'.loads = s.loads ++ [.empty] ∧ s'.outcome? 2 = some (.replied (refreshReply (.ok .empty))) ∧
      ∃ t ∈ s'.world.config.tracked, (s'.world.cell t.cell).closed = false ∧
        ∃ value, t.extract .empty = .ok value ∧ ¬(s'.world.cell t.cell).Holds value := by
  refine ⟨rfl, rfl, ⟨1, 1, Extractor.whole⟩, List.mem_cons_of_mem _ List.mem_cons_self, rfl,
    some (.obj []), rfl, ?_⟩
  rintro (wrong | wrong)
  · cases wrong
  · cases wrong

/-- The refresh after that brings another tree, and both cells get it. -/
theorem refresh_repairs_touched :
    let s := touched.after (touchy ++ twoRefreshes ++ [.turn 2, .spawn 0 .refresh])
    let s' := s.step (.turn 3)
    (∀ t ∈ s'.world.config.tracked, (s'.world.cell t.cell).closed = false →
      ∃ value, t.extract { root := [("a", .int 1)] } = .ok value ∧
        (s'.world.cell t.cell).Holds value) ∧
      s'.world.config.tracked.map Tracked.cell = [0, 1] ∧
      (s.world.cell 1).value = none ∧ (s'.world.cell 1).value = some (.obj [("a", .int 1)]) := by
  intro s s'
  have offered : ∀ m ∈ touchy ++ twoRefreshes ++ [.turn 2, .spawn 0 .refresh] ++ [.turn 3],
      m.Performs (Script.Offered 0) := by
    simp only [touchy, twoRefreshes, List.cons_append, List.nil_append, List.forall_mem_cons]
    refine ⟨fun _ _ => ⟨fun _ asked => ?_, fun _ => trivial⟩, .refresh, trivial, .refresh, trivial,
      .refresh, trivial, .refresh, trivial, nofun⟩
    dsimp only
    split <;> trivial
  have repairs := refresh_repairs { query := ⟨"app", [], none, none⟩, sources := [fickleSource] }
    20 0 [] (touchy ++ twoRefreshes ++ [.turn 2, .spawn 0 .refresh]) (.turn 3) offered
    { root := [("a", .int 1)] } rfl
  exact ⟨repairs.1 rfl, rfl, rfl, rfl⟩

end Session

end LayeredConfig.Live
