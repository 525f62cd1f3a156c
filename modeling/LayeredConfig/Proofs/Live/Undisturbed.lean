import LayeredConfig.Proofs.Live.Plain
import LayeredConfig.Proofs.Live.Queue
import Mathlib.Data.List.Nodup
/-!
# Listeners that are left in peace

A cell that follows the tree gets a value when it is made and whenever a tree is published, and at
no other time. Whatever else is done, be it by listeners of other cells that are told of the same
tree, leaves its value alone and tells its listeners nothing, except that new ones may be greeted:
`Undisturbed`, which every step keeps. When it does get a value, that is the only update that is
served.
-/
namespace LayeredConfig.Live

variable {σ : Type} {plan : Plan σ} {n c id : Nat} {item : Item σ} {agenda rest : List (Item σ)}
  {u v w : World σ}

open Story

/-! ### Single steps -/

/-- The work is no update of the cell, and no call of the listener. -/
def Item.Spares (c id : Nat) : Item σ → Prop
  | .put d _ | .apply d _ => c ≠ d
  | .tell d other _ _ => c = d → other ≠ id
  | _ => True

theorem told_append (a b : List Event) : told c id (a ++ b) = told c id a ++ told c id b := by
  rw [told, calls_append, heard_append, told, told]

/-- Events that are no call of a listener tell it nothing. -/
theorem told_of_quiet (events : List Event) (quiet : ∀ e ∈ events, told c id [e] = [])
    (history : List Event) : told c id (events ++ history).reverse = told c id history.reverse := by
  induction events with
  | nil => rfl
  | cons e events ih =>
    have later := ih fun x member => quiet x (List.mem_cons_of_mem _ member)
    rw [List.cons_append, List.reverse_cons, told_append, later, quiet e List.mem_cons_self,
      List.append_nil]

/-- A listener is told something only by a call. -/
theorem Item.step_told (plan : Plan σ) (w : World σ) (spares : item.Spares c id) :
    told c id (item.step plan w).2.history.reverse = told c id w.history.reverse := by
  have log {v : World σ} {e : Event} (history : v.history = e :: w.history)
      (quiet : told c id [e] = []) : told c id v.history.reverse = told c id w.history.reverse := by
    rw [history]
    exact told_of_quiet [e] (List.forall_mem_singleton.mpr quiet) _
  cases item with
  | go script =>
    cases script with
    | register | deregister | note => exact log rfl rfl
    | onClose =>
      rw [Item.step, Script.step]
      split
      · exact log rfl rfl
      · rfl
    | start =>
      rw [Item.step, Script.step]
      dsimp only
      split <;> rfl
    | _ => rfl
  | tell d other l value =>
    refine log rfl ?_
    by_cases here : c = d
    · have others : other ≠ id := spares here
      simp [told, calls, Event.called?, here, heard, others]
    · simp [told, calls, Event.called?, here, heard]
  | put =>
    rw [Item.step]
    split
    · rfl
    · split
      · exact log rfl rfl
      · rfl
  | apply =>
    rw [Item.step]
    split
    · rfl
    · split
      · rfl
      · exact log rfl rfl
  | drain | derive =>
    rw [Item.step]
    split
    · rfl
    · first | rfl | (split <;> rfl)
  | greet =>
    rw [Item.step]
    split <;> exact log rfl rfl
  | close d =>
    rw [Item.step]
    split
    · rfl
    · dsimp only
      split
      · exact told_of_quiet [.hookRan d, .cellClosed d]
          (by simp [told, calls, Event.called?, heard]) _
      · exact log rfl rfl
  | shut =>
    rw [Item.step]
    split
    · rfl
    · exact log rfl rfl
  | shutSources =>
    obtain ⟨events, surroundings, closes, after⟩ := closeSources_spec 0 plan.sources w
    rw [Item.step, after]
    refine told_of_quiet events (fun e member => ?_) _
    obtain ⟨i, rfl⟩ := closes e member
    rfl
  | unmark | endDispatch => rfl

theorem Item.Fits.brings (plan : Plan σ) (fits : item.Fits n w) :
    ∀ i ∈ (item.step plan w).1, item.Brings n w i :=
  fits.plain.brings plan

/-- What waits for a cell is nothing as long as it is not updated. -/
theorem Touch.deferred_of_spares {new : List (Item σ)} (touch : Touch c w item new v)
    (spares : item.Spares c id) (idle : (w.cell c).deferred = []) : (v.cell c).deferred = [] := by
  have kept {f : Cell σ → Cell σ} (keeps : ∀ cell, (f cell).deferred = cell.deferred) :
      ((w.modifyCell c f).cell c).deferred = [] :=
    (World.modifyCell_keeps Cell.deferred keeps w c c).trans idle
  cases touch with
  | aside off calm same =>
    obtain ⟨hook, same⟩ := same
    rw [same]
    exact idle
  | told | dropped | kept | drained => exact idle
  | deferred | begun | stored => exact absurd rfl spares
  | turned value later waiting =>
    rw [waiting] at idle
    cases idle
  | unmarked =>
    rcases w.cell_modifyCell c .unmark c with same | ⟨_, _, now⟩
    · rw [same]
      exact idle
    · rw [now]
      rfl
  | registered script next l | greetedAmid l => exact kept (f := (·.register l)) fun _ => rfl
  | deregistered script next other => exact kept (f := (·.deregister other)) fun _ => rfl
  | greeted l =>
    have registered : (((w.modifyCell c .mark).modifyCell c (·.register l)).cell c).deferred =
        ((w.modifyCell c .mark).cell c).deferred :=
      World.modifyCell_keeps (f := (·.register l)) Cell.deferred (fun _ => rfl) _ c c
    exact registered.trans (kept (f := .mark) fun _ => rfl)
  | closed calm opened same =>
    rw [same]
    rfl

/-! ### Runs -/

/-- Since the world was `w` the cell has kept its value, and the listener was told nothing. -/
structure Undisturbed (c id : Nat) (w : World σ) (agenda : List (Item σ)) (v : World σ) : Prop where
  value : (v.cell c).value = (w.cell c).value
  told : told c id v.history.reverse = told c id w.history.reverse
  idle : (v.cell c).deferred = []
  spares : ∀ i ∈ agenda, i.Spares c id
  -- The listener is there already, or there is nothing that it could be greeted with.
  known : (v.cell c).value = none ∧ v.config.current = none ∨ id < (v.cell c).nextId

namespace Undisturbed

/-- A cell is as it was. -/
theorem start (idle : (w.cell c).deferred = []) (spares : ∀ i ∈ agenda, i.Spares c id)
    (known : (w.cell c).value = none ∧ w.config.current = none ∨ id < (w.cell c).nextId) :
    Undisturbed c id w agenda w :=
  ⟨rfl, rfl, idle, spares, known⟩

theorem step (plan : Plan σ) (undisturbed : Undisturbed c id u (item :: rest) w)
    (derived : n ≤ c) (fits : item.Fits n w) :
    Undisturbed c id u ((item.step plan w).1 ++ rest) (item.step plan w).2 := by
  have spares := undisturbed.spares item List.mem_cons_self
  have told := (Item.step_told plan w spares).trans undisturbed.told
  have agenda : ∀ i ∈ (item.step plan w).1 ++ rest, i.Spares c id := by
    intro i member
    rcases List.mem_append.mp member with new | old
    · have brings := fits.brings plan i new
      cases i with
      | put d value => exact Nat.ne_of_gt (Nat.lt_of_lt_of_le brings derived)
      | apply d value =>
        rcases brings with rfl | ⟨rfl, waits⟩
        · exact spares
        · rintro rfl
          exact waits undisturbed.idle
      | tell d other l value =>
        rintro rfl
        rcases brings with rfl | ⟨rfl, rfl, held⟩
        · exact absurd rfl spares
        · rcases undisturbed.known with ⟨none, _⟩ | known
          · exact absurd none held
          · exact Nat.ne_of_gt known
      | _ => trivial
    · exact undisturbed.spares i (List.mem_cons_of_mem _ old)
  have current := (item.step_aloof plan w).current
  rcases Nat.lt_or_ge c w.cells.length with here | beyond
  · have touch := touches plan here item
    have value : ((item.step plan w).2.cell c).value = (w.cell c).value := by
      refine touch.value.resolve_right ?_
      rintro ⟨_, rfl, _⟩
      exact spares rfl
    refine ⟨value.trans undisturbed.value, told, touch.deferred_of_spares spares undisturbed.idle,
      agenda, ?_⟩
    rw [value, current]
    exact undisturbed.known.imp_right fun known =>
      Nat.lt_of_lt_of_le known (touch.change here).nextId
  · -- a cell that is made now is seeded without a tree, since nobody can know a listener of it
    have gone := World.cell_of_beyond beyond
    obtain ⟨empty, unloaded⟩ := undisturbed.known.resolve_right fun known => by
      rw [gone] at known
      cases known
    have now : ((item.step plan w).2.cell c).value = none ∧
        ((item.step plan w).2.cell c).deferred = [] := by
      rcases item.step_beyond plan w beyond with still | ⟨extract, value, _, _, gives, made⟩
      · rw [still]
        exact ⟨rfl, rfl⟩
      · rw [unloaded, seed] at gives
        cases gives
        rw [made]
        exact ⟨rfl, rfl⟩
    exact ⟨now.1.trans (empty.symm.trans undisturbed.value), told, now.2, agenda,
      .inl ⟨now.1, current.trans unloaded⟩⟩

end Undisturbed

theorem Regular.undisturbed {a b : List (Item σ)} (regular : Regular n w)
    (fits : ∀ i ∈ a, i.Fits n w) (leads : Leads plan a w b v) (derived : n ≤ c)
    (undisturbed : Undisturbed c id u a w) :
    v.config.closed = true ∨ Regular n v ∧ Undisturbed c id u b v :=
  (regular.preserves fits leads (Undisturbed c id u)
    (fun _ _ _ _ fits _ undisturbed => undisturbed.step plan derived fits)
    undisturbed).imp_right fun ⟨regular, _, undisturbed⟩ => ⟨regular, undisturbed⟩

/-! ### The update of a derived cell -/

/-- Of a cell that follows the tree no update is asked for. -/
theorem Regular.unasked {a b : List (Item σ)} {asked : List (Option Value)} (regular : Regular n w)
    (fits : ∀ i ∈ a, i.Fits n w) (asks : Asks plan c a w asked b v) (derived : n ≤ c)
    (quiet : ∀ i ∈ a, i.asks c = []) : v.config.closed = true ∨ asked = [] := by
  induction asks with
  | here => exact .inr rfl
  | @step item rest _ w _ _ asks ih =>
    have here := fits item List.mem_cons_self
    rcases regular.step plan here with closed | goes
    · exact .inl (asks.leads.aloof.closed closed)
    · rw [quiet item List.mem_cons_self, List.nil_append]
      refine ih goes.regular (fun i member => ?_) fun i member => ?_
      · rcases List.mem_append.mp member with new | old
        · exact goes.fits i new
        · exact (fits i (List.mem_cons_of_mem _ old)).later goes.later
      · rcases List.mem_append.mp member with new | old
        · have brings := here.brings plan i new
          cases i with
          | put d value => exact if_neg (Nat.ne_of_gt (Nat.lt_of_lt_of_le brings derived))
          | _ => rfl
        · exact quiet i (List.mem_cons_of_mem _ old)

/-- The cell is closed, or it has a listener no longer that it had once. -/
def Cell.Lost (id : Nat) (cell : Cell σ) : Prop :=
  cell.closed = true ∨ id < cell.nextId ∧ id ∉ cell.listeners.map Prod.fst

/-- Who is lost does not come back. -/
theorem Cell.Change.lost {cell cell' : Cell σ} (change : Cell.Change cell cell')
    (lost : cell.Lost id) : cell'.Lost id := by
  rcases lost with closed | without
  · exact .inl (change.closed closed)
  · exact .inr (change.without without)

theorem Leads.known {a b : List (Item σ)} (leads : Leads plan a w b v) (here : c < w.cells.length)
    (known : id < (w.cell c).nextId) : id < (v.cell c).nextId :=
  leads.keeps here (fun cell => id < cell.nextId) (fun _ _ change => change.known) known

theorem Leads.lost {a b : List (Item σ)} (leads : Leads plan a w b v) (here : c < w.cells.length)
    (lost : (w.cell c).Lost id) : (v.cell c).Lost id :=
  leads.keeps here (·.Lost id) (fun _ _ change => change.lost) lost

/-- Who has been a listener is one still, or is lost. -/
theorem Leads.lost_or_listens {a b : List (Item σ)} (leads : Leads plan a w b v)
    (here : c < w.cells.length) (known : id < (w.cell c).nextId) :
    (v.cell c).Lost id ∨ id ∈ (v.cell c).listeners.map Prod.fst := by
  by_cases listens : id ∈ (v.cell c).listeners.map Prod.fst
  · exact .inr listens
  · exact .inl (.inr ⟨leads.known here known, listens⟩)

/-- What a listener has been told since the world was `w`, when the cell was updated once. -/
structure Heard (c id : Nat) (value : Option Value) (w v : World σ) : Prop where
  told : told c id v.history.reverse =
    told c id w.history.reverse ++ changes (w.cell c).value [value]
  value : (v.cell c).value = (changes (w.cell c).value [value]).getLastD (w.cell c).value
  idle : (v.cell c).deferred = []

/-- An update of a cell that follows the tree is the only one that is served. -/
theorem Regular.put_heard {value : Option Value} (regular : Regular n w) (derived : n ≤ c)
    (here : c < w.cells.length) (sound : (w.cell c).Sound)
    (unmarked : (w.cell c).notifying = false) (listens : id ∈ (w.cell c).listeners.map Prod.fst)
    (leads : Leads plan [.put c value] w [] v) :
    v.config.closed = true ∨ (v.cell c).Lost id ∨ Heard c id value w v := by
  cases closed : (w.cell c).closed with
  | true => exact .inr (.inl (leads.lost here (.inl closed)))
  | false =>
    rcases leads.lost_or_listens here (sound.known id listens) with lost | still
    · exact .inr (.inl lost)
    cases leads with
    | step leads =>
      rw [List.append_nil] at leads
      have fits : (Item.put c value : Item σ).Fits n w := trivial
      have here' := Nat.lt_of_lt_of_le here (Item.step_cells plan w (.put c value))
      have underway : Underway c (w.cell c).value ((w.cell c).listeners.map Prod.fst) [value] []
          w.history ((Item.put c value).step plan w).1 ((Item.put c value).step plan w).2 :=
        .of_put sound closed unmarked value
      obtain ⟨asked, asks⟩ := leads.asks c
      rcases regular.step plan fits with shut | goes
      · exact .inl (leads.aloof.closed shut)
      · have quiet : ∀ i ∈ ((Item.put c value).step plan w).1, i.asks c = [] := by
          rw [Item.step, if_neg (by simp [closed]), if_neg (by simp [unmarked])]
          simp [Item.asks]
        rcases goes.regular.unasked goes.fits asks derived quiet with shut | rfl
        · exact .inl shut
        · rcases asks.underway here' underway with shut | ⟨_, _, serving⟩ | ⟨_, story, served⟩
          · exact .inr (.inl (.inl shut))
          · exact absurd rfl serving.busy.ne_nil
          · -- no other update was served
            obtain ⟨done, inLine, stored⟩ := served.line.queue
            rw [served.asked, served.idle, List.append_nil, List.append_nil, List.append_nil]
              at inLine
            have heard := served.line.heard id listens (served.line.listening ▸ still)
            rw [List.append_nil, stored, ← inLine] at heard
            refine .inr (.inr ⟨?_, ?_, served.idle⟩)
            · rw [served.history, List.reverse_append, List.reverse_reverse, told_append]
              exact congrArg _ heard
            · rw [served.line.value, valueAfter, stored, ← inLine]

/-! ### Publishing a tree -/

/-- Cells get values in the order of their entries. -/
theorem computeAll_cells {tree : Tree} {tracked : List Tracked}
    {updates : List (Nat × Option Value)} (computes : computeAll tree tracked = .ok updates) :
    updates.map Prod.fst = tracked.map Tracked.cell := by
  have pairs := computeAll_pairs computes
  clear computes
  induction pairs with
  | nil => rfl
  | cons pair _ ih => rw [List.map_cons, List.map_cons, pair.1, ih]

/-- The updates for a tree, in the order in which they are made, have one for a cell that follows
the tree; it is for the value that the rule of the cell gives. -/
theorem Regular.one_update {tree : Tree} {updates : List (Nat × Option Value)} {t : Tracked}
    (regular : Regular n w) (known : t ∈ w.config.tracked)
    (computes : computeAll tree w.config.tracked = .ok updates) (order : NotifyOrder) :
    ∃ value before after, t.extract tree = .ok value ∧
      order.arrange updates = before ++ (t.cell, value) :: after ∧
      (∀ update ∈ before, t.cell ≠ update.1) ∧ ∀ update ∈ after, t.cell ≠ update.1 := by
  obtain ⟨complete, correct⟩ := computeAll_spec computes
  obtain ⟨value, due⟩ := complete t known
  obtain ⟨t', known', same, gives⟩ := correct _ due
  have unique : t' = t := List.inj_on_of_nodup_map regular.distinct known' known same
  have once : ((order.arrange updates).map Prod.fst).Nodup := by
    rw [order.map_arrange, computeAll_cells computes]
    exact order.nodup_arrange regular.distinct
  obtain ⟨before, after, all⟩ := List.append_of_mem (order.mem_arrange.mpr due)
  rw [all, List.map_append, List.map_cons, List.nodup_append] at once
  obtain ⟨_, rest, apart⟩ := once
  refine ⟨value, before, after, unique ▸ gives, all, fun update member same => ?_,
    fun update member same => ?_⟩
  · exact apart _ (List.mem_map_of_mem member) t.cell List.mem_cons_self same.symm
  · exact (List.nodup_cons.mp rest).1 (List.mem_map.mpr ⟨update, member, same.symm⟩)

theorem putAll_fits (updates : List (Nat × Option Value)) :
    ∀ i ∈ putAll updates, i.Fits n w := by
  intro i member
  obtain ⟨update, _, rfl⟩ := List.mem_map.mp member
  trivial

theorem putAll_spares {updates : List (Nat × Option Value)}
    (others : ∀ update ∈ updates, c ≠ update.1) :
    ∀ i ∈ putAll (σ := σ) updates, i.Spares c id := by
  intro i member
  obtain ⟨update, among, rfl⟩ := List.mem_map.mp member
  exact others update among

/-- While a tree is published to its end there comes the turn of each update. When it comes nobody
is being told of the value of its cell. -/
theorem Leads.turn {tree : Tree} {updates before after : List (Nat × Option Value)}
    {value : Option Value} (idle : w.Idle)
    (leads : Leads plan (dispatch plan updates) (w.swap tree) [] v)
    (all : plan.order.arrange updates = before ++ (c, value) :: after) :
    ∃ x y, Leads plan (putAll before) (w.swap tree) [] x ∧ (x.cell c).notifying = false ∧
      Leads plan [.put c value] x [] y ∧ Leads plan (putAll after ++ [.endDispatch]) y [] v := by
  have agenda : dispatch plan updates =
      putAll before ++ ([.put c value] ++ (putAll after ++ [.endDispatch])) := by
    rw [dispatch, all, putAll, List.map_append, List.map_cons, List.append_assoc]
    rfl
  have covers := Covers.swap idle plan tree updates
  rw [agenda] at leads covers
  rcases leads.split with ⟨left, _, wrong⟩ | ⟨x, first, leads⟩
  · simp at wrong
  rcases leads.split with ⟨left, _, wrong⟩ | ⟨y, second, third⟩
  · simp at wrong
  refine ⟨x, y, first, ?_, second, third⟩
  refine Bool.eq_false_iff.mpr fun marked => ?_
  have back := (covers.leads (first.append _)).cells c marked
  simp [putAll] at back

/-- A tree is published to its end. A listener that is not lost by then was told of the value of its
cell if that changed, and of nothing else. -/
theorem Regular.dispatch_heard {tree : Tree} {updates : List (Nat × Option Value)} {t : Tracked}
    (regular : Regular n w) (idle : w.Idle) (known : t ∈ w.config.tracked)
    (sound : (w.cell t.cell).Sound) (listens : id ∈ (w.cell t.cell).listeners.map Prod.fst)
    (computes : computeAll tree w.config.tracked = .ok updates)
    (leads : Leads plan (dispatch plan updates) (w.swap tree) [] v) :
    ∃ value, t.extract tree = .ok value ∧
      (v.config.closed = true ∨ (v.cell t.cell).Lost id ∨ Heard t.cell id value w v) := by
  obtain ⟨value, before, after, gives, all, notBefore, notAfter⟩ :=
    regular.one_update known computes plan.order
  refine ⟨value, gives, ?_⟩
  obtain ⟨derived, here, _⟩ := regular.derived t known
  generalize t.cell = c at sound listens notBefore notAfter derived here all ⊢
  obtain ⟨x, y, first, unmarked, second, third⟩ := leads.turn idle all
  have later := (second.append _).trans third
  -- at first other cells are updated
  have start : Undisturbed c id (w.swap tree) (putAll before) (w.swap tree) :=
    .start (sound.idle (idle.unmarked c)) (putAll_spares notBefore)
      (.inr (sound.known id listens))
  rcases (regular.swap tree).undisturbed (putAll_fits before) first derived start with
    closed | ⟨regular', undisturbed⟩
  · exact .inl (later.aloof.closed closed)
  have here' : c < x.cells.length := Nat.lt_of_lt_of_le here first.length
  have sound' : (x.cell c).Sound :=
    first.keeps here Cell.Sound (fun _ _ change => change.sound) sound
  have known : id < (x.cell c).nextId := first.known here (sound.known id listens)
  rcases first.lost_or_listens here (sound.known id listens) with lost | still
  · exact .inr (.inl (later.lost here' lost))
  -- then it is the turn of the cell, and after that others are updated again
  have fits : ∀ i ∈ [Item.put c value], i.Fits n x := List.forall_mem_singleton.mpr trivial
  rcases regular'.put_heard derived here' sound' unmarked still second with closed | lost | heard
  · exact .inl (third.aloof.closed closed)
  · exact .inr (.inl (third.lost (Nat.lt_of_lt_of_le here' second.length) lost))
  rcases regular'.leads fits second with closed | ⟨regular'', _⟩
  · exact .inl (third.aloof.closed closed)
  have start' : Undisturbed c id y (putAll after ++ [.endDispatch]) y := by
    refine .start heard.idle (List.forall_mem_append.mpr ⟨putAll_spares notAfter, ?_⟩)
      (.inr (second.known here' known))
    exact List.forall_mem_singleton.mpr trivial
  have fits' : ∀ i ∈ putAll after ++ [.endDispatch], i.Fits n y :=
    List.forall_mem_append.mpr ⟨putAll_fits after, List.forall_mem_singleton.mpr trivial⟩
  rcases regular''.undisturbed fits' third derived start' with closed | ⟨_, undisturbed'⟩
  · exact .inl closed
  · have swapped : told c id (w.swap tree).history.reverse = told c id w.history.reverse :=
      told_of_quiet [.published tree] (List.forall_mem_singleton.mpr rfl) w.history
    refine .inr (.inr ⟨?_, ?_, undisturbed'.idle⟩)
    · rw [undisturbed'.told, heard.told, undisturbed.told, undisturbed.value, swapped]
      rfl
    · rw [undisturbed'.value, heard.value, undisturbed.value]
      rfl

/-! ### Who keeps on listening -/

/-- All cells are sound wherever steps lead. -/
theorem Leads.sound {a b : List (Item σ)} (leads : Leads plan a w b v)
    (sound : ∀ c, (w.cell c).Sound) : ∀ c, (v.cell c).Sound := by
  refine leads.preserves (fun _ u => ∀ c, (u.cell c).Sound) (fun item _ u sound c => ?_) sound
  rcases Nat.lt_or_ge c u.cells.length with here | beyond
  · exact ((touches plan here item).change here).sound (sound c)
  · rcases item.step_beyond plan u beyond with gone | ⟨_, value, _, _, _, made⟩
    · rw [gone, ← World.cell_of_beyond beyond]
      exact sound c
    · rw [made]
      exact .new value

/-- An entry stays as long as its cell is open. -/
theorem Regular.still_tracked {a b : List (Item σ)} (regular : Regular n w)
    (fits : ∀ i ∈ a, i.Fits n w) (leads : Leads plan a w b v) {t : Tracked}
    (known : t ∈ w.config.tracked) :
    v.config.closed = true ∨ (v.cell t.cell).closed = true ∨ t ∈ v.config.tracked := by
  obtain ⟨derived, here, _⟩ := regular.derived t known
  have all := regular.preserves fits leads
    (fun _ u => t.cell < u.cells.length ∧ ((u.cell t.cell).closed = true ∨ t ∈ u.config.tracked))
    (fun item rest u regular _ goes ⟨here, still⟩ => by
      refine ⟨Nat.lt_of_lt_of_le here goes.later.cells, ?_⟩
      cases closed : ((item.step plan u).2.cell t.cell).closed with
      | true => exact .inl rfl
      | false =>
        have known : t ∈ u.config.tracked := still.resolve_left fun before => by
          rw [goes.later.closed t.cell here before] at closed
          cases closed
        -- the open cell has an entry, and that is an old one
        obtain ⟨t', known', same⟩ := goes.regular.followed t.cell derived closed
        rcases goes.later.tracked t' known' with old | ⟨_, new⟩
        · have unique : t' = t := List.inj_on_of_nodup_map regular.distinct old known same
          exact .inr (unique ▸ known')
        · exact absurd (same ▸ new) (Nat.not_le_of_lt here)) ⟨here, .inr known⟩
  exact all.imp_right fun ⟨_, _, _, still⟩ => still

/-- Somebody listens to the cell of an entry. -/
structure World.Attended (t : Tracked) (id : Nat) (w : World σ) : Prop where
  tracked : t ∈ w.config.tracked
  listens : id ∈ (w.cell t.cell).listeners.map Prod.fst

theorem World.Attended.beside {t : Tracked} (attended : w.Attended t id) (beside : Beside w v) :
    v.Attended t id :=
  ⟨beside.tracked ▸ attended.tracked, beside.cell t.cell ▸ attended.listens⟩

/-- Who listens to the cell of an entry still does so when things have come to an end or were broken
off, unless the listener is lost. -/
theorem Regular.attended {a b : List (Item σ)} (regular : Regular n w) (fits : ∀ i ∈ a, i.Fits n w)
    (leads : Leads plan a w b v) {t : Tracked} (sound : (w.cell t.cell).Sound)
    (attended : w.Attended t id) (unwinds : Beside (Live.unwind b v) u) :
    u.config.closed = true ∨ (u.cell t.cell).Lost id ∨ u.Attended t id := by
  have here := (regular.derived t attended.tracked).2.1
  rcases regular.still_tracked fits leads attended.tracked with closed | still
  · exact .inl (unwinds.closed_of_unwind closed)
  · refine .inr ?_
    have kept (P : Cell σ → Prop) (kept : ∀ cell cell', Cell.Change cell cell' → P cell → P cell')
        (before : P (v.cell t.cell)) : P (u.cell t.cell) := by
      rw [unwinds.cell]
      exact unwind_keeps b P kept before
    rcases still with closed | still
    · exact .inl (kept (·.Lost id) (fun _ _ change => change.lost) (.inl closed))
    · by_cases listens : id ∈ (u.cell t.cell).listeners.map Prod.fst
      · obtain ⟨_, unwound⟩ := unwind_config b v
        refine .inr ⟨?_, listens⟩
        rw [unwinds.tracked, unwound]
        exact still
      · exact .inl (.inr ⟨kept (fun cell => id < cell.nextId) (fun _ _ change => change.known)
          (leads.known here (sound.known id attended.listens)), listens⟩)

end LayeredConfig.Live
