import LayeredConfig.Proofs.Live.Panics
/-!
# The course of things

In a move of a session one piece of work brings up others, until all is done or until everything is
broken off; then the next move begins. `Course` puts this together: it leads from one moment to any
later one, in the same move or in another, and says which pieces of work are done on the way. So
what single steps keep, and being broken off as well, is true at all moments of every session
(`Course.preserves`, `Session.course_after`).
-/
namespace LayeredConfig.Live

variable {σ : Type}

/-- How things go on from one moment to another, and what is done on the way. -/
inductive Course (plan : Plan σ) :
    List (Item σ) → World σ → List (Item σ) → List (Item σ) → World σ → Prop where
  | here {agenda w} : Course plan agenda w [] agenda w
  -- The first piece of work is done.
  | step {item rest w done agenda' w'} :
    Course plan ((item.step plan w).1 ++ rest) (item.step plan w).2 done agenda' w' →
    Course plan (item :: rest) w (item :: done) agenda' w'
  -- Everything is broken off.
  | broken {agenda w done agenda' w'} : Course plan [] (unwind agenda w) done agenda' w' →
    Course plan agenda w done agenda' w'
  -- Something happens that has nothing to do with the cells.
  | beside {w v done agenda' w'} (beside : Beside w v) :
    Course plan [] v done agenda' w' → Course plan [] w done agenda' w'
  -- A script begins.
  | script {w done agenda' w'} (script : Script σ) :
    Course plan [.go script] w done agenda' w' → Course plan [] w done agenda' w'
  -- A tree is published.
  | publish {tree updates w done agenda' w'} (opened : w.config.closed = false)
    (other : (w.config.current == some tree) = false)
    (computes : computeAll tree w.config.tracked = .ok updates) :
    Course plan (dispatch plan updates) (w.swap tree) done agenda' w' →
    Course plan [] w done agenda' w'

variable {plan : Plan σ} {c : Nat} {a b agenda done done' : List (Item σ)} {u v w : World σ}

namespace Course

theorem trans (first : Course plan a u done b v) (second : Course plan b v done' agenda w) :
    Course plan a u (done ++ done') agenda w := by
  induction first with
  | here => exact second
  | step _ ih => exact .step (ih second)
  | broken _ ih => exact .broken (ih second)
  | beside beside _ ih => exact .beside beside (ih second)
  | script script _ ih => exact .script script (ih second)
  | publish opened other computes _ ih => exact .publish opened other computes (ih second)

/-- What everything that can happen keeps is true all the way. -/
theorem preserves (course : Course plan a u done b v)
    (P : List (Item σ) → List (Item σ) → World σ → Prop)
    (step : ∀ done item rest w, Course plan a u done (item :: rest) w → P done (item :: rest) w →
      P (done ++ [item]) ((item.step plan w).1 ++ rest) (item.step plan w).2)
    (broken : ∀ done agenda w, P done agenda w → P done [] (unwind agenda w))
    (beside : ∀ done w v, Beside w v → P done [] w → P done [] v)
    (script : ∀ done script w, P done [] w → P done [.go script] w)
    (publish : ∀ done tree updates w, P done [] w → P done (dispatch plan updates) (w.swap tree))
    (start : P [] a u) : P done b v := by
  -- what was done until now is put in front of what is done from now on
  have onward {a' u' done' b' v'} (course : Course plan a' u' done' b' v') :
      ∀ before, Course plan a u before a' u' → P before a' u' → P (before ++ done') b' v' := by
    induction course with
    | here =>
      intro before _ holds
      rw [List.append_nil]
      exact holds
    | @step item rest w done _ _ _ ih =>
      intro before reached holds
      rw [List.append_cons]
      exact ih _ (reached.trans (.step .here)) (step before item rest w reached holds)
    | broken _ ih =>
      intro before reached holds
      have now := reached.trans (.broken .here)
      rw [List.append_nil] at now
      exact ih before now (broken before _ _ holds)
    | beside aside _ ih =>
      intro before reached holds
      have now := reached.trans (.beside aside .here)
      rw [List.append_nil] at now
      exact ih before now (beside before _ _ aside holds)
    | script run _ ih =>
      intro before reached holds
      have now := reached.trans (.script run .here)
      rw [List.append_nil] at now
      exact ih before now (script before run _ holds)
    | publish opened other computes _ ih =>
      intro before reached holds
      have now := reached.trans (.publish opened other computes .here)
      rw [List.append_nil] at now
      exact ih before now (publish before _ _ _ holds)
  exact onward course [] .here start

/-- There are never fewer cells. -/
theorem length (course : Course plan a u done b v) : u.cells.length ≤ v.cells.length :=
  course.preserves (fun _ _ w => u.cells.length ≤ w.cells.length)
    (fun _ item _ w _ before => Nat.le_trans before (Item.step_cells plan w item))
    (fun _ agenda w before => by rw [unwind_length]; exact before)
    (fun _ _ _ beside before => by rw [beside.cells]; exact before)
    (fun _ _ _ before => before) (fun _ _ _ _ before => before) (Nat.le_refl _)

/-- What every change of a cell keeps is true of it from then on. -/
theorem keeps (course : Course plan a u done b v) (here : c < u.cells.length) (P : Cell σ → Prop)
    (kept : ∀ cell cell', Cell.Change cell cell' → P cell → P cell') (start : P (u.cell c)) :
    P (v.cell c) := by
  have all := course.preserves (fun _ _ w => c < w.cells.length ∧ P (w.cell c))
    (fun _ item _ w _ ⟨here, holds⟩ => ⟨Nat.lt_of_lt_of_le here (Item.step_cells plan w item),
      kept _ _ ((touches plan here item).change here) holds⟩)
    (fun _ agenda w ⟨here, holds⟩ => ⟨by rw [unwind_length]; exact here,
      unwind_keeps agenda P kept holds⟩)
    (fun _ _ _ beside ⟨here, holds⟩ => ⟨by rw [beside.cells]; exact here, by
      rw [beside.cell]; exact holds⟩)
    (fun _ _ _ before => before) (fun _ _ _ _ before => before) ⟨here, start⟩
  exact all.2

/-- Marks and rounds are in order at every moment. -/
theorem underlaid (course : Course plan a u done b v) (start : Underlaid a u) : Underlaid b v :=
  course.preserves (fun _ => Underlaid)
    (fun _ item rest w _ before => before.leads (.one plan item rest w))
    (fun _ agenda w before => before.unwind.underlaid (fun _ => rfl) (before.unwind.idle.covers _)
      fun _ => List.forall_mem_nil _)
    (fun _ w v beside before => by
      have atRest : w.AtRest := before.unwind
      have atRest : v.AtRest := atRest.beside beside
      exact atRest.underlaid (fun _ => rfl) (atRest.idle.covers _) fun _ => List.forall_mem_nil _)
    (fun _ script w before => by
      have atRest : w.AtRest := before.unwind
      exact atRest.underlaid (fun _ => rfl) (atRest.idle.covers _) fun _ =>
        List.forall_mem_singleton.mpr rfl)
    (fun _ tree updates w before => by
      have atRest : w.AtRest := before.unwind
      exact atRest.publishing plan tree updates) start

end Course

/-- Steps are the course that things take while nothing is broken off. -/
theorem Leads.course (leads : Leads plan a u b v) : ∃ done, Course plan a u done b v := by
  induction leads with
  | here => exact ⟨[], .here⟩
  | step _ ih =>
    obtain ⟨done, course⟩ := ih
    exact ⟨_, .step course⟩

namespace Session

variable {P : Script σ → Prop} {s s' : Session σ} {m : Move σ}

/-- The beginning of a move is part of the course of things. -/
theorem Begins.course (begins : s.Begins P a u) (goesOn : Course s.plan a u done b v) :
    Course s.plan [] s.world done b v := by
  cases begins with
  | script => exact .script _ goesOn
  | publishing fetched opened other computes =>
    exact .beside fetched (.publish opened other computes goesOn)

/-- A move is part of the course of things. -/
theorem Effect.course (effect : Effect P s s') :
    ∃ done, Course s.plan [] s.world done [] s'.world := by
  rcases effect.begins with beside | ⟨a, u, left, v, begins, leads, unwinds⟩
  · exact ⟨[], .beside beside .here⟩
  · obtain ⟨done, course⟩ := leads.course
    exact ⟨_, begins.course (course.trans (.broken (.beside unwinds .here)))⟩

/-- The moments of a move are moments in the course of things. -/
theorem Passes.course (passes : s.Passes P m agenda w) :
    (∃ done, Course s.plan [] s.world done agenda w) ∧
      ∃ done, Course s.plan agenda w done [] (s.step m).world := by
  obtain ⟨a, u, begins, before⟩ := passes.before
  obtain ⟨left, v, after, unwinds⟩ := passes.after
  obtain ⟨done, course⟩ := before.course
  obtain ⟨done', course'⟩ := after.course
  exact ⟨⟨_, begins.course course⟩, _, course'.trans (.broken (.beside unwinds .here))⟩

/-- Moves are the course that the world of a session takes. -/
theorem course_after (orderly : Orderly s) (latest : Latest s) (moves : List (Move σ)) :
    (s.after moves).plan = s.plan ∧
      ∃ done, Course s.plan [] s.world done [] (s.after moves).world := by
  refine kept_by_moves
    (Q := fun s' => s'.plan = s.plan ∧ ∃ done, Course s.plan [] s.world done [] s'.world)
    (fun s' m _ ⟨same, done, course⟩ onward => ⟨onward.plan.trans same, ?_⟩)
    orderly latest ⟨rfl, [], .here⟩ moves
  obtain ⟨done', later⟩ := onward.effect.course
  rw [same] at later
  exact ⟨_, course.trans later⟩

/-- Every moment of a session, and all that comes after it, belongs to the course of things. -/
structure Charted (s : Session σ) : Prop where
  between : ∀ moves, ∃ done, Course s.plan [] s.world done [] (s.after moves).world
  amid : ∀ moves m agenda w, (s.after moves).Passes (fun _ => True) m agenda w →
    (∃ done, Course s.plan [] s.world done agenda w) ∧
      ∀ later, ∃ done, Course s.plan agenda w done [] (((s.after moves).step m).after later).world

theorem charted (plan : Plan σ) (fuel : Nat) (surroundings : σ)
    (others : List (Option Value × NotifyOrder)) :
    (freshBeside plan fuel surroundings others).Charted := by
  have fresh := Proper.fresh plan fuel surroundings others
  refine ⟨fun moves => (course_after fresh.orderly fresh.latest moves).2,
    fun moves m agenda w passes => ?_⟩
  have orderly := fresh.orderly.after moves
  have latest : Latest ((freshBeside plan fuel surroundings others).after moves) :=
    kept_by_deeds (fun _ _ latest deed => latest.deed deed) fresh.latest moves
  obtain ⟨same, done, before⟩ := course_after fresh.orderly fresh.latest moves
  obtain ⟨⟨done', reached⟩, done'', ends⟩ := passes.course
  rw [same] at reached ends
  refine ⟨⟨_, before.trans reached⟩, fun later => ?_⟩
  have onward := Session.onward orderly latest (performs_any _) m.performs_any
  obtain ⟨_, _, after⟩ := course_after (orderly.after [m])
    (kept_by_deeds (fun _ _ latest deed => latest.deed deed) latest [m]) later
  have same' : (((freshBeside plan fuel surroundings others).after moves).step m).plan = plan :=
    onward.plan.trans same
  exact ⟨_, ends.trans (same' ▸ after)⟩

end Session

end LayeredConfig.Live
