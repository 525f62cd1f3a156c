import LayeredConfig.Proofs.Live.Tame
import Mathlib.Data.List.Forall2
/-!
# Derived cells and the tree

In a world that is in step with its tree every derived cell holds what its rule computes from the
tree. Tame scripts keep it so, because they leave tree and values alone and seed what they add.
Publishing another tree keeps it so as well: while the updates are made, each derived cell either
holds its new value or still has its update to come.
-/
namespace LayeredConfig.Live

variable {σ : Type} {w v : World σ} {plan : Plan σ}

/-- The cell holds a value, or one that is equal to it. -/
def Cell.Holds (cell : Cell σ) (value : Option Value) : Prop :=
  cell.value = value ∨ (cell.value == value) = true

/-- Nothing is under way, and the derived cells hold what their rules compute from the tree. -/
structure InStep (w : World σ) : Prop where
  tidy : Tidy w
  idle : w.config.dispatching = false
  quiet : ∀ c, (w.cell c).notifying = false
  follows : ∀ t ∈ w.config.tracked, ∃ value,
    seed t.extract w.config.current = .ok value ∧ (w.cell t.cell).Holds value

namespace InStep

/-- What tame scripts do leaves derived cells in step with the tree. -/
theorem of_calm (inStep : InStep w) (tidy : Tidy v) (calm : Calm w v) : InStep v where
  tidy
  idle := calm.dispatching.trans inStep.idle
  quiet c := (calm.notifying c).trans (inStep.quiet c)
  follows t known := by
    rw [calm.current]
    rcases calm.tracked t known with known | ⟨_, _, _, seeded⟩
    · obtain ⟨value, gives, holds⟩ := inStep.follows t known
      have here : t.cell < w.cells.length := World.lt_of_open (inStep.tidy.opened t known)
      refine ⟨value, gives, ?_⟩
      rwa [Cell.Holds, calm.value _ here]
    · exact ⟨_, seeded, .inl rfl⟩

/-- Neither the cells changed nor the part of the configuration that they follow. -/
theorem of_eq (inStep : InStep w) (cells : v.cells = w.cells)
    (current : v.config.current = w.config.current)
    (tracked : v.config.tracked = w.config.tracked) (nextId : v.config.nextId = w.config.nextId)
    (dispatching : v.config.dispatching = w.config.dispatching) : InStep v := by
  have cell (c : Nat) : v.cell c = w.cell c := by rw [World.cell, cells, ← World.cell]
  refine ⟨inStep.tidy.of_eq cells tracked nextId, dispatching.trans inStep.idle, fun c => ?_, ?_⟩
  · rw [cell]
    exact inStep.quiet c
  · rw [tracked, current]
    intro t known
    rw [cell]
    exact inStep.follows t known

theorem fresh (surroundings : σ) : InStep ({ surroundings } : World σ) where
  tidy := ⟨nofun, fun _ => rfl, nofun, nofun, nofun, nofun, nofun⟩
  idle := rfl
  quiet _ := rfl
  follows := nofun

end InStep

/-! ### One update -/

namespace World

/-- The world once a value was put into a cell, if the cell is open and the value is new. -/
def put (w : World σ) (c : Nat) (value : Option Value) : World σ :=
  if (w.cell c).closed then w
  else if (w.cell c).value == value then w
  else (w.modifyCell c fun cell => { cell with value }).log (.stored c value)

theorem put_of_closed {c : Nat} (closed : (w.cell c).closed = true) (value : Option Value) :
    w.put c value = w :=
  if_pos closed

theorem config_put (w : World σ) (c : Nat) (value : Option Value) :
    (w.put c value).config = w.config := by
  rw [put]
  split
  · rfl
  · split <;> rfl

theorem length_put (w : World σ) (c : Nat) (value : Option Value) :
    (w.put c value).cells.length = w.cells.length := by
  rw [put]
  split
  · rfl
  · split
    · rfl
    · exact List.length_modify ..

theorem cell_put_of_ne (w : World σ) {c d : Nat} (ne : c ≠ d) (value : Option Value) :
    (w.put c value).cell d = w.cell d := by
  rw [put]
  split
  · rfl
  · split
    · rfl
    · exact cell_modifyCell_of_ne w ne _

theorem notifying_put (w : World σ) (c d : Nat) (value : Option Value) :
    ((w.put c value).cell d).notifying = (w.cell d).notifying := by
  rw [put]
  split
  · rfl
  · split
    · rfl
    · exact modifyCell_keeps (f := fun cell => { cell with value }) Cell.notifying
        (fun _ => rfl) w c d

/-- The cell then holds the value. -/
theorem holds_put {c : Nat} (opened : (w.cell c).closed = false) (value : Option Value) :
    ((w.put c value).cell c).Holds value := by
  rw [put, if_neg (by simp [opened])]
  split
  next same => exact .inr same
  next =>
    rw [cell_log, cell_modifyCell_self w (lt_of_open opened)]
    exact .inl rfl

end World

/-- An update of a cell puts the value there, and all that comes after is calm. -/
theorem update_settles (plan : Plan σ) (tidy : Tidy w) {c : Nat}
    (unmarked : (w.cell c).notifying = false) (value : Option Value) :
    Settles (fun n => update plan n c value) w fun _ v => Tidy v ∧ Calm (w.put c value) v := by
  refine .succ (fun n => by rw [update]) (.after (Act.run_readCell c w) ?_)
  cases closed : (w.cell c).closed with
  | true =>
    rw [World.put_of_closed closed]
    exact .done ⟨tidy, .refl w⟩
  | false =>
    rw [unmarked]
    -- what follows once it is known who is to be called
    have told {u : World σ} {listeners : List (Nat × Listener σ)} {changed : Bool} (tidy : Tidy u)
        (tame : ∀ entry ∈ listeners, entry.2.Tame)
        (calm : Calm ((w.put c value).modifyCell c .mark) u) :
        Settles (fun n => do
            callAll plan n c listeners value
            let _ ← deliver plan n c (← nextDeferred c)
            return some changed) u
          fun _ v => Tidy (v.modifyCell c .unmark) ∧
            Calm (w.put c value) (v.modifyCell c .unmark) := by
      have settling : ∀ entry ∈ listeners, entry.2.Settling plan := fun entry member value =>
        settling_of_tame plan (tame entry member value)
      refine (callAll_settles settling tidy c value).bind fun _ v settled => ?_
      obtain ⟨tidy', calm'⟩ := settled
      have unmarked' : ((w.put c value).cell c).notifying = false := by
        rw [World.notifying_put, unmarked]
      exact drain_settles tidy' c rfl ⟨tidy'.unmark c, (calm.trans calm').between unmarked'⟩
    have marked : (w.modifyCell c .mark).cell c = (w.cell c).mark :=
      World.cell_modifyCell_self w (World.lt_of_open closed) .mark
    have delivers : Settles (fun n => deliver plan n c (some value)) (w.modifyCell c .mark)
        fun _ v => Tidy (v.modifyCell c .unmark) ∧
          Calm (w.put c value) (v.modifyCell c .unmark) := by
      refine .succ (fun n => by rw [deliver]) ?_
      have stores := Act.run_store c value (w.modifyCell c .mark)
      rw [marked, Cell.mark, closed] at stores
      by_cases same : ((w.cell c).value == value) = true
      · have kept : w.put c value = w := by rw [World.put, if_neg (by simp [closed]), if_pos same]
        simp only [same, Bool.false_eq_true, if_false, if_true] at stores
        refine .after stores (told (tidy.mark c) (List.forall_mem_nil _) ?_)
        rw [kept]
        exact .refl _
      · have changed : w.put c value =
            (w.modifyCell c fun cell => { cell with value }).log (.stored c value) := by
          rw [World.put, if_neg (by simp [closed]), if_neg same]
        simp only [same, Bool.false_eq_true, if_false] at stores
        refine .after stores (told ?_ (fun entry member => ?_) ?_)
        · exact (tidy.mark c).of_modify (f := fun cell => { cell with value }) (fun _ => rfl)
            (fun _ => rfl) ((tidy.mark c).tame c) ((tidy.mark c).nothingWaits c) rfl rfl
        · exact tidy.tame c entry (((w.cell c).order).mem_arrange.mp member)
        · rw [changed]
          refine .of_eq ?_ rfl
          -- it does not matter whether the mark or the value comes first
          simp only [World.modifyCell, World.log, List.modify_modify_eq]
          rfl
    exact (Settles.between delivers).bind fun _ v holds => .done holds

/-! ### All updates -/

/-- A tree is being published and some updates are still to be made: each of them is right, and
derived cells for which there is none left hold their new values. -/
structure Publishing (tree : Tree) (left : List (Nat × Option Value)) (w : World σ) : Prop where
  tidy : Tidy w
  current : w.config.current = some tree
  dispatching : w.config.dispatching = true
  quiet : ∀ c, (w.cell c).notifying = false
  right : ∀ update ∈ left, ∀ t ∈ w.config.tracked, t.cell = update.1 → t.extract tree = .ok update.2
  made : ∀ t ∈ w.config.tracked, (∃ value, (t.cell, value) ∈ left) ∨
    ∃ value, t.extract tree = .ok value ∧ (w.cell t.cell).Holds value

namespace Publishing

variable {tree : Tree} {left : List (Nat × Option Value)}

/-- One update is made. No entry is added meanwhile, but some may be removed. -/
theorem next {c : Nat} {value : Option Value} (publishing : Publishing tree ((c, value) :: left) w)
    (tidy : Tidy v) (calm : Calm (w.put c value) v) : Publishing tree left v := by
  -- while the configuration is marked as publishing no derived cell is made
  have known : ∀ t ∈ v.config.tracked, t ∈ w.config.tracked := fun t known => by
    rcases calm.tracked t known with known | ⟨idle, _⟩
    · rwa [World.config_put] at known
    · rw [World.config_put, publishing.dispatching] at idle
      cases idle
  refine ⟨tidy, ?_, ?_, fun d => ?_, fun update member t member' => ?_, fun t member => ?_⟩
  · rw [calm.current, World.config_put, publishing.current]
  · rw [calm.dispatching, World.config_put, publishing.dispatching]
  · rw [calm.notifying, World.notifying_put, publishing.quiet]
  · exact publishing.right update (List.mem_cons_of_mem _ member) t (known t member')
  · have before : t ∈ w.config.tracked := known t member
    have opened : (w.cell t.cell).closed = false := publishing.tidy.opened t before
    have sameValue : (v.cell t.cell).value = ((w.put c value).cell t.cell).value :=
      calm.value _ (by rw [World.length_put]; exact World.lt_of_open opened)
    -- the value is either the one that was put there just now, or it is as it was
    by_cases same : t.cell = c
    · subst same
      have gives := publishing.right (t.cell, value) List.mem_cons_self t before rfl
      refine .inr ⟨value, gives, ?_⟩
      rw [Cell.Holds, sameValue]
      exact World.holds_put opened value
    · rw [World.cell_put_of_ne w (Ne.symm same)] at sameValue
      rcases publishing.made t before with ⟨value', due⟩ | ⟨value', gives, holds⟩
      · rcases List.mem_cons.mp due with first | later
        · exact absurd (congrArg Prod.fst first) same
        · exact .inl ⟨value', later⟩
      · refine .inr ⟨value', gives, ?_⟩
        rwa [Cell.Holds, sameValue]

/-- All updates are made. -/
theorem inStep (publishing : Publishing tree [] w) :
    InStep (w.modifyConfig ({ · with dispatching := false })) where
  tidy := publishing.tidy.of_eq rfl rfl rfl
  idle := rfl
  quiet := publishing.quiet
  follows t known := by
    rcases publishing.made t known with ⟨_, left⟩ | ⟨value, gives, holds⟩
    · cases left
    · refine ⟨value, ?_, holds⟩
      change seed t.extract w.config.current = _
      rw [publishing.current]
      exact gives

theorem settles (plan : Plan σ) (publishing : Publishing tree left w) :
    Settles (fun n => updateAll plan n left) w fun _ v => Publishing tree [] v := by
  induction left generalizing w with
  | nil => exact .done publishing
  | cons update left ih =>
    obtain ⟨c, value⟩ := update
    have updates := update_settles plan publishing.tidy (publishing.quiet c) value
    refine updates.bind fun _ v settled => ?_
    exact ih (publishing.next settled.1 settled.2)

end Publishing

/-- Values are computed in the order of the entries, for each entry the one that its rule gives. -/
theorem computeAll_pairs {tree : Tree} {tracked : List Tracked}
    {updates : List (Nat × Option Value)} (computes : computeAll tree tracked = .ok updates) :
    List.Forall₂ (fun t update => t.cell = update.1 ∧ t.extract tree = .ok update.2)
      tracked updates := by
  induction tracked generalizing updates with
  | nil =>
    cases computes
    exact .nil
  | cons first rest ih =>
    rw [computeAll] at computes
    cases gives : first.extract tree with
    | error e =>
      rw [gives] at computes
      cases computes
    | ok value =>
      rw [gives] at computes
      cases others : computeAll tree rest with
      | error e =>
        rw [others] at computes
        cases computes
      | ok updates' =>
        rw [others] at computes
        cases computes
        exact .cons ⟨rfl, gives⟩ (ih others)

/-- The values that are computed belong to entries, and each entry has one. -/
theorem computeAll_spec {tree : Tree} {tracked : List Tracked}
    {updates : List (Nat × Option Value)} (computes : computeAll tree tracked = .ok updates) :
    (∀ t ∈ tracked, ∃ value, (t.cell, value) ∈ updates) ∧
      ∀ update ∈ updates, ∃ t ∈ tracked, t.cell = update.1 ∧ t.extract tree = .ok update.2 := by
  have pairs := computeAll_pairs computes
  clear computes
  induction pairs with
  | nil => exact ⟨nofun, nofun⟩
  | @cons first update rest updates pair _ ih =>
    obtain ⟨complete, correct⟩ := ih
    refine ⟨fun t member => ?_, fun update member => ?_⟩
    · rcases List.mem_cons.mp member with rfl | member
      · exact ⟨update.2, pair.1 ▸ List.mem_cons_self⟩
      · obtain ⟨value, due⟩ := complete t member
        exact ⟨value, List.mem_cons_of_mem _ due⟩
    · rcases List.mem_cons.mp member with rfl | member
      · exact ⟨first, List.mem_cons_self, pair⟩
      · obtain ⟨t, among, gives⟩ := correct update member
        exact ⟨t, List.mem_cons_of_mem _ among, gives⟩

/-- No two entries are for the same cell. -/
theorem Tidy.entry_unique (tidy : Tidy w) {t u : Tracked} (known : t ∈ w.config.tracked)
    (known' : u ∈ w.config.tracked) (same : t.cell = u.cell) : t = u := by
  have hook := tidy.hooked t known
  rw [same, tidy.hooked u known'] at hook
  have ids : u.id = t.id := by simpa [forget] using hook
  exact tidy.unique t known u known' ids.symm

theorem publish_settles (inStep : InStep w) (tree : Tree) :
    Settles (fun n => publish plan n tree) w fun _ v => InStep v := by
  refine .after (Act.run_get w) ?_
  dsimp only
  cases w.config.closed with
  | true => exact .done inStep
  | false =>
    cases w.config.current == some tree with
    | true => exact .done inStep
    | false =>
      cases computes : computeAll tree w.config.tracked with
      | error e => exact .done inStep
      | ok updates =>
        obtain ⟨complete, correct⟩ := computeAll_spec computes
        refine .after (Act.run_modify _ w) (.after (Act.run_record _ _) ?_)
        let swapped : World σ :=
          (w.modifyConfig ({ · with current := some tree })).log (.published tree)
        let began : World σ := swapped.modifyConfig ({ · with dispatching := true })
        have publishing : Publishing tree (plan.order.arrange updates) began := by
          refine ⟨inStep.tidy.of_eq rfl rfl rfl, rfl, rfl, inStep.quiet,
            fun update due t known same => ?_, fun t known => ?_⟩
          · -- an update was computed for some entry of the cell, and that has only one
            obtain ⟨u, known', same', gives⟩ := correct update (plan.order.mem_arrange.mp due)
            rwa [inStep.tidy.entry_unique known known' (same.trans same'.symm)]
          · obtain ⟨value, due⟩ := complete t known
            exact .inl ⟨value, plan.order.mem_arrange.mpr due⟩
        have updated := publishing.settles plan
        have dispatched : Settles
            (fun n => dispatching (updateAll plan n (plan.order.arrange updates))) swapped
            fun _ v => InStep v :=
          .between (updated.imp fun _ _ done => done.inStep)
        exact dispatched.bind fun _ v done => .done done

/-- However a fetch ended, its conclusion leaves derived cells in step with the tree. -/
theorem conclude_settles (plan : Plan σ) (inStep : InStep w) (fetched : Except ConfigError Tree) :
    Settles (fun n => conclude plan n fetched) w fun _ v => InStep v := by
  have ended {v : World σ} (inStep : InStep v) (result : Except ConfigError Tree) :
      InStep (v.modifyConfig (·.ended v.now result)) := by
    refine inStep.of_eq rfl ?_ ?_ ?_ ?_
    all_goals
      rw [World.modifyConfig]
      cases result with
      | ok tree => rfl
      | error e => cases e <;> rfl
  cases fetched with
  | error e =>
    exact .after (a := .error e) rfl (.after (Act.run_modify _ w) (.done (ended inStep _)))
  | ok tree =>
    refine (publish_settles inStep tree).bind fun result v inStep' => ?_
    exact .after (Act.run_modify _ v) (.done (ended inStep' result))

/-- A tame script leaves derived cells in step with the tree. -/
theorem run_settles (plan : Plan σ) (inStep : InStep w) {script : Script σ} (tame : script.Tame) :
    Settles (fun n => run plan n script) w fun _ v => InStep v :=
  (settling_of_tame plan tame w inStep.tidy).imp fun _ _ settled =>
    inStep.of_calm settled.1 settled.2

end LayeredConfig.Live
