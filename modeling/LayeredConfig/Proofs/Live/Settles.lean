import LayeredConfig.Proofs.Live.Simulation
/-!
# Runs that come to their end

`Settles` says of a run that it comes to its end, provided that it gets enough fuel, and that it
then always ends in the same way. It is put together along the parts of a run, so that no proof
further on has to speak about amounts of fuel.
-/
namespace LayeredConfig.Live

variable {σ : Type} {α β : Type}

/-- With enough fuel a run always ends in the same way, of which `Q` holds. -/
def Settles (act : Nat → Act σ α) (w : World σ) (Q : α → World σ → Prop) : Prop :=
  ∃ least a w', Q a w' ∧ ∀ fuel, least ≤ fuel → (act fuel).run.run w = (.ok a, w')

namespace Settles

variable {act : Nat → Act σ α} {w v : World σ} {P Q : α → World σ → Prop}

/-- What needs no fuel. -/
theorem const {x : Act σ α} {a : α} (ends : x.run.run w = (.ok a, v)) (holds : Q a v) :
    Settles (fun _ => x) w Q :=
  ⟨0, a, v, holds, fun _ _ => ends⟩

theorem done {a : α} (holds : Q a w) : Settles (fun _ => (pure a : Act σ α)) w Q :=
  const rfl holds

theorem imp (settles : Settles act w P) (implies : ∀ a v, P a v → Q a v) : Settles act w Q := by
  obtain ⟨least, a, v, holds, ends⟩ := settles
  exact ⟨least, a, v, implies a v holds, ends⟩

theorem bind {next : α → Nat → Act σ β} {R : β → World σ → Prop} (first : Settles act w Q)
    (second : ∀ a v, Q a v → Settles (next a) v R) :
    Settles (fun n => act n >>= fun a => next a n) w R := by
  obtain ⟨least, a, v, holds, ends⟩ := first
  obtain ⟨least', b, u, holds', ends'⟩ := second a v holds
  refine ⟨max least least', b, u, holds', fun fuel enough => ?_⟩
  have enoughNow : least ≤ fuel := Nat.le_trans (Nat.le_max_left _ _) enough
  have enoughThen : least' ≤ fuel := Nat.le_trans (Nat.le_max_right _ _) enough
  rw [Act.run_bind_of_ok (ends fuel enoughNow)]
  exact ends' fuel enoughThen

/-- Something that needs no fuel comes first. -/
theorem after {x : Act σ α} {a : α} {next : α → Nat → Act σ β} {R : β → World σ → Prop}
    (ends : x.run.run w = (.ok a, v)) (second : Settles (next a) v R) :
    Settles (fun n => x >>= fun a => next a n) w R := by
  have first : Settles (fun _ => x) w fun b u => b = a ∧ u = v := const ends ⟨rfl, rfl⟩
  refine first.bind fun b u same => ?_
  obtain ⟨rfl, rfl⟩ := same
  exact second

/-- A run that spends one unit of fuel on itself. -/
theorem succ {body : Nat → Act σ α} (unfolds : ∀ n, act (n + 1) = body n)
    (settles : Settles body w Q) : Settles act w Q := by
  obtain ⟨least, a, v, holds, ends⟩ := settles
  refine ⟨least + 1, a, v, holds, fun fuel enough => ?_⟩
  obtain ⟨n, rfl⟩ := Nat.exists_eq_add_of_le' enough
  rw [← Nat.add_assoc, unfolds]
  exact ends _ (Nat.le_add_left _ _)

/-- A run between two changes of the world. -/
theorem between {before after : World σ → World σ}
    (settles : Settles act (before w) fun a v => Q a (after v)) :
    Settles (fun n => Live.between before after (act n)) w Q := by
  obtain ⟨least, a, v, holds, ends⟩ := settles
  refine ⟨least, a, after v, holds, fun fuel enough => ?_⟩
  rw [run_between, ends fuel enough]

end Settles

end LayeredConfig.Live
