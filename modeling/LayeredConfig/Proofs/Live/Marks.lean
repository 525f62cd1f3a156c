import LayeredConfig.Proofs.Live.Change
import LayeredConfig.Proofs.Live.Effects
/-!
# Marks are taken back

A cell is marked while its listeners are called, and the configuration while a tree is published.
Whoever sets a mark has put the work that takes it back on the agenda (`Covers`), and that work is
done even if everything else is broken off. Between the moves of a session there are no marks.
-/
namespace LayeredConfig.Live

variable {σ : Type} {plan : Plan σ} {c : Nat} {item : Item σ} {agenda new rest : List (Item σ)}
  {v w w' : World σ}

/-- A cell that was not there is still not there, or it was made to follow the tree. -/
theorem Item.step_beyond (plan : Plan σ) (w : World σ) (item : Item σ)
    (beyond : w.cells.length ≤ c) :
    (item.step plan w).2.cell c = .gone ∨ ∃ extract value, item = .derive extract ∧
      w.config.closed = false ∧ seed extract w.config.current = .ok value ∧
      (item.step plan w).2.cell c = { value } := by
  rcases item.step_length plan w with same | ⟨extract, value, is, opened, gives, does⟩
  · exact .inl (World.cell_of_beyond (by rwa [same]))
  · have cell : (item.step plan w).2.cell c =
        if c = w.cells.length then { value } else w.cell c := by
      rw [does]
      exact World.cell_addCell w { value } c
    rw [cell]
    split
    · exact .inr ⟨extract, value, is, opened, gives, rfl⟩
    · exact .inl (World.cell_of_beyond beyond)

theorem World.notifying_unmark (w : World σ) (c : Nat) :
    ((w.modifyCell c .unmark).cell c).notifying = false := by
  rcases Nat.lt_or_ge c w.cells.length with here | beyond
  · rw [cell_modifyCell_self w here]
    rfl
  · have length : (w.modifyCell c .unmark).cells.length = w.cells.length := List.length_modify ..
    rw [cell_of_beyond (by rwa [length])]
    rfl

/-- Nobody is being told anything, and no tree is being published. -/
structure World.Idle (w : World σ) : Prop where
  unmarked : ∀ c, (w.cell c).notifying = false
  undispatched : w.config.dispatching = false

/-- Every mark will be taken back. -/
structure Covers (agenda : List (Item σ)) (w : World σ) : Prop where
  cells : ∀ c, (w.cell c).notifying = true → .unmark c ∈ agenda
  config : w.config.dispatching = true → .endDispatch ∈ agenda

theorem World.Idle.covers (idle : w.Idle) (agenda : List (Item σ)) : Covers agenda w where
  cells c marked := by
    rw [idle.unmarked] at marked
    cases marked
  config marked := by
    rw [idle.undispatched] at marked
    cases marked

/-- A cell that is marked was marked before, or the mark will be taken back. -/
theorem Touch.marks (touch : Touch c w item new w') (marked : (w'.cell c).notifying = true) :
    .unmark c ∈ new ∨ (w.cell c).notifying = true ∧ item ≠ .unmark c := by
  have kept {f : Cell σ → Cell σ} (keeps : ∀ cell, (f cell).notifying = cell.notifying)
      (marked : ((w.modifyCell c f).cell c).notifying = true) : (w.cell c).notifying = true := by
    rwa [World.modifyCell_keeps Cell.notifying keeps] at marked
  cases touch with
  | aside off calm same =>
    obtain ⟨hook, same⟩ := same
    rw [same] at marked
    refine .inr ⟨marked, ?_⟩
    rintro rfl
    simp [Item.about] at off
  | told | dropped | kept | drained => exact .inr ⟨marked, by simp⟩
  | begun => exact .inl (by simp)
  | greeted => exact .inl (by simp)
  | deferred value => exact .inr ⟨kept (f := (·.defer value)) (fun _ => rfl) marked, by simp⟩
  | stored value =>
    exact .inr ⟨kept (f := fun cell => { cell with value }) (fun _ => rfl) marked, by simp⟩
  | turned value later =>
    exact .inr
      ⟨kept (f := fun cell => { cell with deferred := later }) (fun _ => rfl) marked, by simp⟩
  | unmarked =>
    rw [World.notifying_unmark] at marked
    cases marked
  | registered script next l | greetedAmid l =>
    exact .inr ⟨kept (f := (·.register l)) (fun _ => rfl) marked, by simp⟩
  | deregistered script next id =>
    exact .inr ⟨kept (f := (·.deregister id)) (fun _ => rfl) marked, by simp⟩
  | closed calm opened same =>
    rw [same] at marked
    exact .inr ⟨marked, by simp⟩

namespace Covers

theorem step (plan : Plan σ) (covers : Covers (item :: rest) w) :
    Covers ((item.step plan w).1 ++ rest) (item.step plan w).2 := by
  constructor
  · intro c marked
    by_cases here : c < w.cells.length
    · rcases (touches plan here item).marks marked with among | ⟨before, other⟩
      · exact List.mem_append_left _ among
      · exact List.mem_append_right _
          ((List.mem_cons.mp (covers.cells c before)).resolve_left (Ne.symm other))
    · -- a cell that is new has no mark
      rcases item.step_beyond plan w (Nat.le_of_not_lt here) with gone | ⟨_, _, _, _, _, made⟩
      · rw [gone] at marked
        cases marked
      · rw [made] at marked
        cases marked
  · intro marked
    have before := covers.config ((item.step_aloof plan w).dispatching marked)
    refine List.mem_append_right _ ((List.mem_cons.mp before).resolve_left ?_)
    rintro rfl
    cases marked

theorem leads {a b : List (Item σ)} (covers : Covers a w) (leads : Leads plan a w b v) :
    Covers b v :=
  leads.preserves Covers (fun _ _ _ covers => covers.step plan) covers

/-- Once everything is broken off there are no marks. -/
theorem unwind (covers : Covers agenda w) : (unwind agenda w).Idle := by
  induction agenda generalizing w with
  | nil =>
    refine ⟨fun c => Bool.eq_false_iff.mpr fun marked => ?_, Bool.eq_false_iff.mpr fun marked => ?_⟩
    · cases covers.cells c marked
    · cases covers.config marked
  | cons item rest ih =>
    have still (other : item.undo w = w) (cell : ∀ c, item ≠ .unmark c)
        (config : item ≠ .endDispatch) :
        Covers rest (item.undo w) := by
      rw [other]
      exact ⟨fun c marked => (List.mem_cons.mp (covers.cells c marked)).resolve_left (cell c).symm,
        fun marked => (List.mem_cons.mp (covers.config marked)).resolve_left config.symm⟩
    refine ih ?_
    cases item with
    | unmark c =>
      refine ⟨fun d marked => ?_, fun marked => ?_⟩
      · have marked : ((w.modifyCell c .unmark).cell d).notifying = true := marked
        by_cases same : c = d
        · subst same
          rw [World.notifying_unmark] at marked
          cases marked
        · rw [World.cell_modifyCell_of_ne w same] at marked
          exact (List.mem_cons.mp (covers.cells d marked)).resolve_left
            fun is => same (Item.unmark.inj is).symm
      · exact (List.mem_cons.mp (covers.config marked)).resolve_left nofun
    | endDispatch =>
      exact ⟨fun d marked => (List.mem_cons.mp (covers.cells d marked)).resolve_left nofun, nofun⟩
    | _ => exact still rfl (fun _ => nofun) nofun

/-- A tree is about to be published. -/
theorem swap (idle : w.Idle) (plan : Plan σ) (tree : Tree) (updates : List (Nat × Option Value)) :
    Covers (dispatch plan updates) (w.swap tree) where
  cells c marked := by
    have marked : (w.cell c).notifying = true := marked
    rw [idle.unmarked] at marked
    cases marked
  config _ := List.mem_append_right _ (List.mem_singleton_self _)

end Covers

theorem Beside.idle (beside : Beside w v) (idle : w.Idle) : v.Idle where
  unmarked c := by rw [beside.cell]; exact idle.unmarked c
  undispatched := beside.dispatching.trans idle.undispatched

/-- Between moves there are no marks. -/
theorem Session.Effect.idle {P : Script σ → Prop} {s s' : Session σ} (effect : Effect P s s')
    (idle : s.world.Idle) : s'.world.Idle := by
  cases effect with
  | beside beside => exact beside.idle idle
  | ran performs leads unwinds => exact unwinds.idle ((idle.covers _).leads leads).unwind
  | reloaded beside => exact beside.idle idle
  | published fetched opened other computes leads unwinds =>
    exact unwinds.idle ((Covers.swap (fetched.idle idle) _ _ _).leads leads).unwind

end LayeredConfig.Live
