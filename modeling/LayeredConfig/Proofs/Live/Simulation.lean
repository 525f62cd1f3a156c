import LayeredConfig.Proofs.Live.Agenda
/-!
# Runs as steps through an agenda

What running a script does to a world is what steps through an agenda do: a run that comes to its
end is an agenda that is done with, and a run that is broken off is an agenda that was unwound at
some point, which for a panic is the point where a script panics. The main statement is `carries`;
it speaks of all parts of a run at once, since they call each other.
-/
namespace LayeredConfig.Live

variable {σ : Type} {α β : Type}

/-! ### What single actions do -/

namespace Act

theorem run_bind (x : Act σ α) (f : α → Act σ β) (w : World σ) :
    (x >>= f).run.run w = match x.run.run w with
      | (.ok a, w') => (f a).run.run w'
      | (.error stop, w') => (.error stop, w') := by
  change (match x.run.run w with | (r, w') => (ExceptT.bindCont f r).run w') = _
  rcases x.run.run w with ⟨_ | _, w'⟩ <;> rfl

theorem run_bind_of_ok {x : Act σ α} {w w' : World σ} {a : α} (h : x.run.run w = (.ok a, w'))
    (f : α → Act σ β) : (x >>= f).run.run w = (f a).run.run w' := by
  rw [run_bind, h]

theorem ok_of_bind {x : Act σ α} {f : α → Act σ β} {w w' : World σ} {b : β}
    (h : (x >>= f).run.run w = (.ok b, w')) :
    ∃ a v, x.run.run w = (.ok a, v) ∧ (f a).run.run v = (.ok b, w') := by
  rw [run_bind] at h
  rcases ran : x.run.run w with ⟨stop | a, v⟩
  · rw [ran] at h
    cases h
  · rw [ran] at h
    exact ⟨a, v, rfl, h⟩

theorem run_readCell (c : Nat) (w : World σ) :
    (readCell c : Act σ (Cell σ)).run.run w = (.ok (w.cell c), w) := rfl

theorem run_changeCell (c : Nat) (f : Cell σ → Cell σ) (w : World σ) :
    (changeCell c f).run.run w = (.ok (), w.modifyCell c f) := rfl

theorem run_record (e : Event) (w : World σ) :
    (record e : Act σ Unit).run.run w = (.ok (), w.log e) := rfl

theorem run_modify (f : World σ → World σ) (w : World σ) :
    (modify f : Act σ PUnit).run.run w = (.ok ⟨⟩, f w) := rfl

theorem run_get (w : World σ) : (get : Act σ (World σ)).run.run w = (.ok w, w) := rfl

theorem run_register (c : Nat) (l : Listener σ) (atOnce : Bool) (w : World σ) :
    (register c l atOnce).run.run w = (.ok (w.cell c).nextId, w.listen c l atOnce) := rfl

theorem run_store (c : Nat) (value : Option Value) (w : World σ) :
    (store c value).run.run w =
      if (w.cell c).closed then (.ok none, w)
      else if (w.cell c).value == value then (.ok (some (false, [])), w)
      else (.ok (some (true, (w.cell c).order.arrange (w.cell c).listeners)),
        (w.modifyCell c fun cell => { cell with value }).log (.stored c value)) := by
  rw [store, run_bind_of_ok (run_readCell c w)]
  split
  · rfl
  · split <;> rfl

theorem run_nextDeferred (c : Nat) (w : World σ) :
    (nextDeferred c : Act σ _).run.run w =
      match (w.cell c).deferred with
      | [] => (.ok none, w)
      | value :: rest =>
        (.ok (some value), w.modifyCell c fun cell => { cell with deferred := rest }) := by
  rw [nextDeferred, run_bind_of_ok (run_readCell c w)]
  cases (w.cell c).deferred <;> rfl

theorem run_track (extract : Extractor) (value : Option Value) (w : World σ) :
    (track extract value).run.run w =
      (.ok (w.cells.length, w.config.nextId), w.follow extract value) := rfl

/-- Closing sources always comes to its end. -/
theorem run_closeSources (index : Nat) (sources : List (Source σ)) (w : World σ) :
    (closeSources index sources).run.run w =
      (.ok (), ((closeSources index sources).run.run w).2) := by
  induction sources generalizing index w with
  | nil => rfl
  | cons source rest ih => exact ih (index + 1) _

end Act

/-! ### Runs and agendas -/

/-- Steps through an agenda give what a run gave: they come to an end with it, or they come to a
point at which unwinding gives the same world. -/
def Carries (plan : Plan σ) (agenda : List (Item σ)) (w : World σ) :
    Except Stop α × World σ → Prop
  | (.ok _, w') => Leads plan agenda w [] w'
  | (.error stop, w') => ∃ left v, Leads plan agenda w left v ∧ unwind left v = w' ∧
      (stop = .panicked → left.head? = some (.go .panic))

namespace Carries

variable {plan : Plan σ} {a b : List (Item σ)} {v w : World σ}

theorem of_leads {r : Except Stop α × World σ} (leads : Leads plan a v b w)
    (carries : Carries plan b w r) : Carries plan a v r := by
  rcases r with ⟨stop | _, w'⟩
  · obtain ⟨left, u, rest, undone, panics⟩ := carries
    exact ⟨left, u, leads.trans rest, undone, panics⟩
  · exact leads.trans carries

/-- What every step keeps, and breaking off too, is kept by a run. -/
theorem preserves {r : Except Stop α × World σ} (carries : Carries plan a w r)
    (P : World σ → Prop) (step : ∀ item v, P v → P (Item.step plan v item).2)
    (undone : ∀ item v, P v → P (Item.undo v item)) (holds : P w) : P r.2 := by
  rcases r with ⟨stop | _, w'⟩
  · -- the marks that are still on the agenda are taken back
    obtain ⟨left, v, leads, rfl, -⟩ := carries
    exact unwind_preserves P undone left
      (leads.preserves (fun _ => P) (fun item _ v => step item v) holds)
  · exact Leads.preserves carries (fun _ => P) (fun item _ v => step item v) holds

/-- Doing the first piece of work. -/
theorem step {item : Item σ} {new : List (Item σ)} {r : Except Stop α × World σ}
    (does : item.step plan v = (new, w)) (carries : Carries plan new w r) :
    Carries plan [item] v r := by
  refine of_leads (Leads.step ?_) carries
  rw [does, List.append_nil]
  exact .here

/-- A run that ran out of fuel before it began. -/
theorem exhausted (free : unwind a w = w) :
    Carries plan a w ((.error .exhausted, w) : Except Stop α × World σ) :=
  ⟨a, w, .here, free, nofun⟩

/-- One run after another. The second agenda must not hold marks to take back, since they would be
taken back although the second run never began. -/
theorem bind {x : Act σ α} {f : α → Act σ β} (first : Carries plan a v (x.run.run w))
    (next : ∀ r w', x.run.run w = (.ok r, w') → Carries plan b w' ((f r).run.run w'))
    (free : ∀ u, unwind b u = u) : Carries plan (a ++ b) v ((x >>= f).run.run w) := by
  rw [Act.run_bind]
  rcases ran : x.run.run w with ⟨stop | r, w'⟩
  · -- the first run was broken off, and the work of the second one was never begun
    rw [ran] at first
    obtain ⟨left, u, leads, undone, panics⟩ := first
    refine ⟨left ++ b, u, leads.append b, ?_, fun panicked => ?_⟩
    · rw [unwind_append, free, undone]
    · rw [List.head?_append, panics panicked, Option.some_or]
  · rw [ran] at first
    exact of_leads (first.append b) (next r w' ran)

/-- One run, of which nothing but an answer is made. -/
theorem answer {x : Act σ α} {f : α → Act σ β} (first : Carries plan a v (x.run.run w))
    (pure : ∀ r u, ∃ s, (f r).run.run u = (.ok s, u)) :
    Carries plan a v ((x >>= f).run.run w) := by
  rw [← List.append_nil a]
  refine bind first (fun r w' _ => ?_) fun _ => rfl
  obtain ⟨s, gives⟩ := pure r w'
  rw [gives]
  exact .here

/-- A run between two changes; the second one stands on the agenda as a mark to take back. -/
theorem between {before after : World σ → World σ} {act : Act σ α} {guard : Item σ}
    (first : Carries plan a v (act.run.run (before w)))
    (does : ∀ u, guard.step plan u = ([], after u)) (undoes : ∀ u, guard.undo u = after u) :
    Carries plan (a ++ [guard]) v ((Live.between before after act).run.run w) := by
  rw [run_between]
  rcases ran : act.run.run (before w) with ⟨stop | r, w'⟩
  · -- the mark is taken back although the run was broken off
    rw [ran] at first
    obtain ⟨left, u, leads, undone, panics⟩ := first
    refine ⟨left ++ [guard], u, leads.append _, ?_, fun panicked => ?_⟩
    · rw [unwind_append, undone]
      exact undoes w'
    · rw [List.head?_append, panics panicked, Option.some_or]
  · rw [ran] at first
    refine of_leads (first.append [guard]) (Leads.step ?_)
    rw [does]
    exact .here

end Carries

/-! ### The answers of runs that come to their end -/

section Answers

variable {plan : Plan σ} {fuel : Nat} {w w' : World σ} {c : Nat}

theorem deliver_answer {value : Option Value} {answer : Option Bool}
    (ran : (deliver plan fuel c (some value)).run.run w = (.ok answer, w'))
    (opened : (w.cell c).closed = false) : answer = some !((w.cell c).value == value) := by
  cases fuel with
  | zero => rw [deliver] at ran; cases ran
  | succ fuel =>
    rw [deliver] at ran
    obtain ⟨stored, v, store, ran⟩ := Act.ok_of_bind ran
    rw [Act.run_store, opened, if_neg Bool.false_ne_true] at store
    cases same : (w.cell c).value == value with
    | true =>
      rw [same, if_pos rfl] at store
      cases store
      obtain ⟨_, _, _, ran⟩ := Act.ok_of_bind ran
      obtain ⟨_, _, _, ran⟩ := Act.ok_of_bind ran
      obtain ⟨_, _, _, ran⟩ := Act.ok_of_bind ran
      cases ran
      rfl
    | false =>
      rw [same, if_neg Bool.false_ne_true] at store
      cases store
      obtain ⟨_, _, _, ran⟩ := Act.ok_of_bind ran
      obtain ⟨_, _, _, ran⟩ := Act.ok_of_bind ran
      obtain ⟨_, _, _, ran⟩ := Act.ok_of_bind ran
      cases ran
      rfl

theorem update_answer {value : Option Value} {answer : Except ConfigError Bool}
    (ran : (update plan fuel c value).run.run w = (.ok answer, w')) :
    answer = w.updateReply c value := by
  cases fuel with
  | zero => rw [update] at ran; cases ran
  | succ fuel =>
    rw [update, Act.run_bind_of_ok (Act.run_readCell c w)] at ran
    rw [World.updateReply]
    split at ran
    next closed =>
      rw [if_pos closed]
      cases ran
      rfl
    next opened =>
      rw [if_neg opened]
      split at ran
      next marked =>
        rw [if_pos marked]
        cases ran
        rfl
      next unmarked =>
        rw [if_neg unmarked]
        obtain ⟨changed, v, delivered, ran⟩ := Act.ok_of_bind ran
        rw [notifying, run_between] at delivered
        -- the mark changes neither the value nor whether the cell is closed
        have opened' : ((w.modifyCell c .mark).cell c).closed = false := by
          rw [World.modifyCell_keeps (f := .mark) Cell.closed fun _ => rfl]
          simpa using opened
        have answers := deliver_answer (Prod.ext (Prod.mk.inj delivered).1 rfl) opened'
        rw [World.modifyCell_keeps (f := .mark) Cell.value fun _ => rfl] at answers
        subst answers
        cases ran
        rfl

theorem registerAndCall_answer {l : Listener σ} {id : Nat}
    (ran : (registerAndCall plan fuel c l).run.run w = (.ok id, w')) :
    id = (w.cell c).nextId := by
  cases fuel with
  | zero => rw [registerAndCall] at ran; cases ran
  | succ fuel =>
    rw [registerAndCall, Act.run_bind_of_ok (Act.run_readCell c w)] at ran
    split at ran
    · rw [Act.run_bind_of_ok (Act.run_register c l true w)] at ran
      obtain ⟨_, _, _, last⟩ := Act.ok_of_bind ran
      cases last
      rfl
    · rw [notifying, run_between, Act.run_bind_of_ok (Act.run_register c l true _),
        World.modifyCell_keeps (f := .mark) Cell.nextId fun _ => rfl] at ran
      obtain ⟨_, _, _, told⟩ := Act.ok_of_bind (Prod.ext (Prod.mk.inj ran).1 rfl)
      obtain ⟨_, _, _, drained⟩ := Act.ok_of_bind told
      obtain ⟨_, _, _, last⟩ := Act.ok_of_bind drained
      cases last
      rfl

/-- Where no derived cell is made nothing changes. -/
theorem derive_spec {extract : Extractor} {answer : Except ConfigError Nat}
    (ran : (derive plan fuel extract).run.run w = (.ok answer, w')) :
    answer = w.deriveReply extract ∧ ∀ e, answer = .error e → w' = w := by
  cases fuel with
  | zero => rw [derive] at ran; cases ran
  | succ fuel =>
    rw [derive, Act.run_bind_of_ok (Act.run_get w)] at ran
    dsimp only at ran
    rw [World.deriveReply]
    split at ran
    next dispatching =>
      rw [if_pos dispatching]
      cases ran
      exact ⟨rfl, fun _ _ => rfl⟩
    next idle =>
      rw [if_neg idle]
      split at ran
      next closed =>
        rw [if_pos closed]
        cases ran
        exact ⟨rfl, fun _ _ => rfl⟩
      next opened =>
        rw [if_neg opened]
        split at ran
        next e fails =>
          rw [fails]
          cases ran
          exact ⟨rfl, fun _ _ => rfl⟩
        next value gives =>
          rw [gives]
          rw [Act.run_bind_of_ok (Act.run_track extract value w)] at ran
          obtain ⟨_, _, _, last⟩ := Act.ok_of_bind ran
          cases last
          exact ⟨rfl, nofun⟩

end Answers

/-! ### Every part of a run -/

/-- With some fuel, each part of a run is what steps through its agenda do. -/
structure Carried (plan : Plan σ) (fuel : Nat) : Prop where
  run : ∀ w script, Carries plan [.go script] w ((run plan fuel script).run.run w)
  call : ∀ w c id l value,
    Carries plan [.tell c id l value] w ((call plan fuel c id l value).run.run w)
  callAll : ∀ w c listeners value,
    Carries plan (tellAll c value listeners) w ((callAll plan fuel c listeners value).run.run w)
  deliver : ∀ w c (next : Option (Option Value)),
    Carries plan (next.toList.map (.apply c)) w ((deliver plan fuel c next).run.run w)
  update : ∀ w c value, Carries plan [.put c value] w ((update plan fuel c value).run.run w)
  callIfPresent : ∀ w c id l,
    Carries plan (welcome w c id l) w ((callIfPresent plan fuel c id l).run.run w)
  registerAndCall : ∀ w c l,
    Carries plan [.greet c l] w ((registerAndCall plan fuel c l).run.run w)
  closeCell : ∀ w c, Carries plan [.close c] w ((closeCell plan fuel c).run.run w)
  closeCells : ∀ w cells,
    Carries plan (cells.map .close) w ((closeCells plan fuel cells).run.run w)
  derive : ∀ w extract, Carries plan [.derive extract] w ((derive plan fuel extract).run.run w)
  shut : ∀ w, Carries plan [.shut] w ((shut plan fuel).run.run w)

/-- Work that holds no mark is not unwound to anything. -/
theorem unwind_map {ι : Type} (f : ι → Item σ) (free : ∀ i w, (f i).undo w = w) (is : List ι)
    (w : World σ) : unwind (is.map f) w = w := by
  induction is with
  | nil => rfl
  | cons i is ih =>
    rw [List.map_cons, unwind, List.foldl_cons, free]
    exact ih

theorem unwind_welcome (v w : World σ) (c id : Nat) (l : Listener σ) :
    unwind (welcome v c id l) w = w := by
  rw [welcome]
  split <;> rfl

section Parts

variable {plan : Plan σ} {fuel : Nat}

theorem carried_zero : Carried plan 0 where
  run w script := by rw [run]; exact .exhausted rfl
  call w c id l value := by rw [call]; exact .exhausted rfl
  callAll w c listeners value := by
    rw [callAll]
    exact .exhausted (unwind_map _ (fun _ _ => rfl) _ _)
  deliver w c next := by
    rw [deliver]
    exact .exhausted (unwind_map _ (fun _ _ => rfl) _ _)
  update w c value := by rw [update]; exact .exhausted rfl
  callIfPresent w c id l := by rw [callIfPresent]; exact .exhausted (unwind_welcome _ _ _ _ _)
  registerAndCall w c l := by rw [registerAndCall]; exact .exhausted rfl
  closeCell w c := by rw [closeCell]; exact .exhausted rfl
  closeCells w cells := by
    rw [closeCells]
    exact .exhausted (unwind_map _ (fun _ _ => rfl) _ _)
  derive w extract := by rw [derive]; exact .exhausted rfl
  shut w := by rw [shut]; exact .exhausted rfl

/-- A script goes on after a piece of work, whose answer can be foretold. -/
theorem Carried.thenRun (ih : Carried plan fuel) {w : World σ} {item : Item σ} {x : Act σ α}
    {next : α → Script σ} {after : Script σ} (work : Carries plan [item] w (x.run.run w))
    (foretold : ∀ a w', x.run.run w = (.ok a, w') → next a = after) :
    Carries plan [item, .go after] w
      ((x >>= fun a => Live.run plan fuel (next a)).run.run w) := by
  refine Carries.bind (a := [item]) work (fun a w' ran => ?_) fun _ => rfl
  rw [foretold a w' ran]
  exact ih.run w' after

theorem Carried.run_succ (ih : Carried plan fuel) (w : World σ) (script : Script σ) :
    Carries plan [.go script] w ((Live.run plan (fuel + 1) script).run.run w) := by
  cases script with
  | done reply => rw [Live.run]; exact .step rfl Leads.here
  | panic => rw [Live.run]; exact ⟨[.go .panic], w, .here, rfl, fun _ => rfl⟩
  | update c value next =>
    rw [Live.run]
    exact .step rfl (ih.thenRun (ih.update w c value) fun _ _ ran =>
      congrArg next (update_answer ran))
  | register c name react next => rw [Live.run]; exact .step rfl (ih.run _ _)
  | registerAndCall c name react next =>
    rw [Live.run]
    exact .step rfl (ih.thenRun (ih.registerAndCall w c _) fun _ _ ran =>
      congrArg next (registerAndCall_answer ran))
  | deregister c listener next => rw [Live.run]; exact .step rfl (ih.run _ _)
  | close c next =>
    rw [Live.run]
    exact .step rfl (ih.thenRun (ih.closeCell w c) fun _ _ _ => rfl)
  | onClose c hook next =>
    rw [Live.run, Act.run_bind_of_ok (Act.run_readCell c w)]
    split
    next closed =>
      refine .step (if_pos closed) ?_
      exact ih.thenRun (ih.run _ hook) fun _ _ _ => rfl
    next opened =>
      refine .step (if_neg opened) ?_
      exact ih.run _ _
  | look c next => rw [Live.run]; exact .step rfl (ih.run _ _)
  | derive extract next =>
    rw [Live.run]
    exact .step rfl (ih.thenRun (ih.derive w extract) fun _ _ ran =>
      congrArg next (derive_spec ran).1)
  | untrack entry next => rw [Live.run]; exact .step rfl (ih.run _ _)
  | tree next => rw [Live.run]; exact .step rfl (ih.run _ _)
  | shut next =>
    rw [Live.run]
    exact .step rfl (ih.thenRun (ih.shut w) fun _ _ _ => rfl)
  | start next =>
    rw [Live.run]
    dsimp only
    split
    next periodic => exact .step (by rw [Item.step, Script.step, if_pos periodic]) (ih.run _ _)
    next once => exact .step (by rw [Item.step, Script.step, if_neg once]) (ih.run _ _)
  | inspect next => rw [Live.run]; exact .step rfl (ih.run _ _)
  | alter change next => rw [Live.run]; exact .step rfl (ih.run _ _)
  | note listener step reply next => rw [Live.run]; exact .step rfl (ih.run _ _)

theorem Carried.call_succ (ih : Carried plan fuel) (w : World σ) (c id : Nat) (l : Listener σ)
    (value : Option Value) :
    Carries plan [.tell c id l value] w ((Live.call plan (fuel + 1) c id l value).run.run w) := by
  rw [Live.call, Act.run_bind_of_ok (Act.run_record _ w)]
  refine .step rfl ?_
  exact .answer (ih.run _ _) fun _ _ => ⟨_, rfl⟩

theorem Carried.callAll_succ (ih : Carried plan fuel) (w : World σ) (c : Nat)
    (listeners : List (Nat × Listener σ)) (value : Option Value) :
    Carries plan (tellAll c value listeners) w
      ((Live.callAll plan (fuel + 1) c listeners value).run.run w) := by
  cases listeners with
  | nil => rw [Live.callAll]; exact Leads.here
  | cons first rest =>
    rw [Live.callAll]
    exact Carries.bind (a := [.tell c first.1 first.2 value]) (ih.call w c first.1 first.2 value)
      (fun _ w' _ => ih.callAll w' c rest value) fun v => unwind_map _ (fun _ _ => rfl) rest v

/-- The first update that was put off is delivered, if there is one. -/
theorem Carried.drain (ih : Carried plan fuel) (w : World σ) (c : Nat)
    {f : Option Bool → Act σ α} (pure : ∀ r u, ∃ s, (f r).run.run u = (.ok s, u)) :
    Carries plan [.drain c] w
      ((nextDeferred c >>= fun next => Live.deliver plan fuel c next >>= f).run.run w) := by
  rw [Act.run_bind, Act.run_nextDeferred]
  cases waiting : (w.cell c).deferred with
  | nil =>
    refine .step (by rw [Item.step, waiting]) ?_
    exact .answer (ih.deliver w c none) pure
  | cons value rest =>
    refine .step (by rw [Item.step, waiting]) ?_
    exact .answer (ih.deliver _ c (some value)) pure

theorem Carried.deliver_succ (ih : Carried plan fuel) (w : World σ) (c : Nat)
    (next : Option (Option Value)) :
    Carries plan (next.toList.map (.apply c)) w
      ((Live.deliver plan (fuel + 1) c next).run.run w) := by
  cases next with
  | none => rw [Live.deliver]; exact Leads.here
  | some value =>
    rw [Live.deliver, Act.run_bind, Act.run_store]
    -- what follows once it is known who is to be called
    have told (v : World σ) (listeners : List (Nat × Listener σ)) (changed : Bool) :
        Carries plan (tellAll c value listeners ++ [.drain c]) v
          ((do
            Live.callAll plan fuel c listeners value
            let _ ← Live.deliver plan fuel c (← nextDeferred c)
            return some changed : Act σ (Option Bool)).run.run v) :=
      Carries.bind (ih.callAll v c listeners value)
        (fun _ w' _ => ih.drain w' c fun _ _ => ⟨_, rfl⟩) fun _ => rfl
    by_cases closed : (w.cell c).closed
    · rw [if_pos closed]
      exact .step (if_pos closed) Leads.here
    · rw [if_neg closed]
      by_cases same : (w.cell c).value == value
      · rw [if_pos same]
        exact .step (by rw [Item.step, if_neg closed, if_pos same]; rfl) (told w [] false)
      · rw [if_neg same]
        exact .step (by rw [Item.step, if_neg closed, if_neg same]) (told _ _ true)

theorem Carried.update_succ (ih : Carried plan fuel) (w : World σ) (c : Nat)
    (value : Option Value) :
    Carries plan [.put c value] w ((Live.update plan (fuel + 1) c value).run.run w) := by
  rw [Live.update, Act.run_bind_of_ok (Act.run_readCell c w)]
  split
  next closed => exact .step (if_pos closed) Leads.here
  next opened =>
    split
    next marked =>
      exact .step (by rw [Item.step, if_neg opened, if_pos marked]) Leads.here
    next unmarked =>
      refine .step (by rw [Item.step, if_neg opened, if_neg unmarked]) ?_
      refine .answer ?_ fun _ _ => ⟨_, rfl⟩
      exact .between (ih.deliver _ c (some value)) (fun _ => rfl) fun _ => rfl

theorem Carried.callIfPresent_succ (ih : Carried plan fuel) (w : World σ) (c id : Nat)
    (l : Listener σ) :
    Carries plan (welcome w c id l) w ((Live.callIfPresent plan (fuel + 1) c id l).run.run w) := by
  rw [Live.callIfPresent, Act.run_bind_of_ok (Act.run_readCell c w), welcome]
  cases (w.cell c).value with
  | none => exact Leads.here
  | some value => exact ih.call w c id l (some value)

/-- Whether a new listener is called at once is decided before it is added. -/
theorem welcome_listen (w : World σ) (c id : Nat) (l : Listener σ) (atOnce : Bool) :
    welcome (w.listen c l atOnce) c id l = welcome w c id l := by
  rw [welcome, World.listen, World.cell_log,
    World.modifyCell_keeps (f := (·.register l)) Cell.value fun _ => rfl, welcome]

theorem Carried.registerAndCall_succ (ih : Carried plan fuel) (w : World σ) (c : Nat)
    (l : Listener σ) :
    Carries plan [.greet c l] w ((Live.registerAndCall plan (fuel + 1) c l).run.run w) := by
  rw [Live.registerAndCall, Act.run_bind_of_ok (Act.run_readCell c w)]
  split
  next marked =>
    refine .step (if_pos marked) ?_
    rw [Act.run_bind_of_ok (Act.run_register c l true w), ← welcome_listen w c _ l true]
    exact .answer (ih.callIfPresent _ c _ l) fun _ _ => ⟨_, rfl⟩
  next unmarked =>
    refine .step (if_neg unmarked) ?_
    -- the mark is taken back last
    have agenda (listen : List (Item σ)) :
        listen ++ [.drain c, .unmark c] = (listen ++ [.drain c]) ++ [.unmark c] := by simp
    rw [agenda]
    refine .between ?_ (fun _ => rfl) fun _ => rfl
    -- whether there is a value to be called with is the same with the mark and without
    have marked : welcome w c (w.cell c).nextId l =
        welcome ((w.modifyCell c .mark).listen c l true) c
          ((w.modifyCell c .mark).cell c).nextId l := by
      rw [welcome_listen, welcome, welcome,
        World.modifyCell_keeps (f := .mark) Cell.value fun _ => rfl,
        World.modifyCell_keeps (f := .mark) Cell.nextId fun _ => rfl]
    rw [marked, Act.run_bind_of_ok (Act.run_register c l true _)]
    exact .bind (ih.callIfPresent _ c _ l) (fun _ w' _ => ih.drain w' c fun _ _ => ⟨_, rfl⟩)
      fun _ => rfl

theorem Carried.closeCell_succ (ih : Carried plan fuel) (w : World σ) (c : Nat) :
    Carries plan [.close c] w ((Live.closeCell plan (fuel + 1) c).run.run w) := by
  rw [Live.closeCell, Act.run_bind_of_ok (Act.run_readCell c w)]
  split
  next closed => exact .step (if_pos closed) Leads.here
  next opened =>
    cases hook : (w.cell c).hook with
    | none => exact .step (by rw [Item.step, if_neg opened, hook]) Leads.here
    | some script =>
      refine .step (by rw [Item.step, if_neg opened, hook]) ?_
      rw [Act.run_bind_of_ok (Act.run_changeCell c .shut w),
        Act.run_bind_of_ok (Act.run_record _ _)]
      dsimp only
      rw [Act.run_bind_of_ok (Act.run_record _ _)]
      exact .answer (ih.run _ script) fun _ _ => ⟨_, rfl⟩

theorem Carried.closeCells_succ (ih : Carried plan fuel) (w : World σ) (cells : List Nat) :
    Carries plan (cells.map .close) w ((Live.closeCells plan (fuel + 1) cells).run.run w) := by
  cases cells with
  | nil => rw [Live.closeCells]; exact Leads.here
  | cons c rest =>
    rw [Live.closeCells]
    exact Carries.bind (a := [.close c]) (ih.closeCell w c) (fun _ w' _ => ih.closeCells w' rest)
      fun v => unwind_map _ (fun _ _ => rfl) rest v

theorem Carried.derive_succ (ih : Carried plan fuel) (w : World σ) (extract : Extractor) :
    Carries plan [.derive extract] w ((Live.derive plan (fuel + 1) extract).run.run w) := by
  rw [Live.derive, Act.run_bind_of_ok (Act.run_get w)]
  dsimp only
  split
  next dispatching => exact .step (by rw [Item.step, dispatching]; rfl) Leads.here
  next idle =>
    split
    next closed => exact .step (by rw [Item.step, closed, Bool.or_true]; rfl) Leads.here
    next opened =>
      have free : ¬(w.config.dispatching || w.config.closed) = true := by
        rw [Bool.or_eq_true]
        exact not_or.mpr ⟨idle, opened⟩
      split
      next e fails => exact .step (by rw [Item.step, if_neg free, fails]) Leads.here
      next value gives =>
        refine .step (by rw [Item.step, if_neg free, gives]) ?_
        rw [Act.run_bind_of_ok (Act.run_track extract value w)]
        exact .answer (ih.run _ _) fun _ _ => ⟨_, rfl⟩

theorem Carried.shut_succ (ih : Carried plan fuel) (w : World σ) :
    Carries plan [.shut] w ((Live.shut plan (fuel + 1)).run.run w) := by
  rw [Live.shut, Act.run_bind_of_ok (Act.run_get w)]
  dsimp only
  split
  next closed => exact .step (if_pos closed) Leads.here
  next opened =>
    refine .step (if_neg opened) ?_
    -- the cells to be closed are those that were tracked before
    have cells := ih.closeCells ((w.modifyConfig .shut).log .configClosed)
      (w.config.tracked.map Tracked.cell)
    rw [List.map_map] at cells
    rw [Act.run_bind_of_ok (Act.run_modify _ w), Act.run_bind_of_ok (Act.run_record _ _)]
    refine Carries.bind cells (fun _ w' _ => .step rfl ?_) fun _ => rfl
    rw [Act.run_closeSources]
    exact Leads.here

/-- Running is taking steps, in every part of a run and with any amount of fuel. -/
theorem carries (plan : Plan σ) (fuel : Nat) : Carried plan fuel := by
  -- by induction on the fuel, of which every part gives less to those that it calls
  induction fuel with
  | zero => exact carried_zero
  | succ fuel ih =>
    exact {
      run := ih.run_succ
      call := ih.call_succ
      callAll := ih.callAll_succ
      deliver := ih.deliver_succ
      update := ih.update_succ
      callIfPresent := ih.callIfPresent_succ
      registerAndCall := ih.registerAndCall_succ
      closeCell := ih.closeCell_succ
      closeCells := ih.closeCells_succ
      derive := ih.derive_succ
      shut := ih.shut_succ }

end Parts

end LayeredConfig.Live
