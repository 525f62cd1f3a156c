import LayeredConfig.Live.Extractor
import LayeredConfig.Proofs.Live.Offered
import LayeredConfig.Proofs.Live.Overtaken
/-!
# Closing a configuration is final

A configuration can be closed at any moment: before anything is loaded, while a refresh waits, in
the middle of publishing a tree, by a listener of any cell. When the call that closes it has
returned, nothing of what the configuration stands for changes any more: `close_is_terminal`.

The call itself runs no foreign code but that of the sources, since the hooks of derived cells only
have entries forgotten, so it always returns (`World.ShutDown`). All that comes afterwards is looked
at step by step: updates of closed cells are dropped one by one, whoever has put them on the agenda.
-/
namespace LayeredConfig.Live

variable {σ : Type} {plan : Plan σ} {n c : Nat} {u v w w' : World σ}

/-- The source that the event closes. -/
def Event.sourceClosed? : Event → Option Nat
  | .sourceClosed i => some i
  | _ => none

/-- The sources that were closed, the last one first. -/
def sourceCloses (history : List Event) : List Nat := history.filterMap Event.sourceClosed?

theorem Beside.sourceCloses (beside : Beside w v) :
    sourceCloses v.history = sourceCloses w.history :=
  beside.filterMap _ (fun _ => rfl) fun _ => rfl

/-! ### The call that closes the configuration -/

/-- Sources are closed in order, each of them once, whatever the others say. -/
theorem closeSources_after (index : Nat) (sources : List (Source σ)) (w : World σ) :
    ((closeSources index sources).run.run w).2 = { w with
      surroundings := sources.foldl (fun u source => (source.close u).2) w.surroundings
      history := ((List.range' index sources.length).map .sourceClosed).reverse ++ w.history } := by
  induction sources generalizing index w with
  | nil => rfl
  | cons source rest ih =>
    have later := ih (index + 1)
      ({ w with surroundings := (source.close w.surroundings).2 }.log (.sourceClosed index))
    rw [List.length_cons, List.range'_succ, List.map_cons, List.reverse_cons, List.append_assoc]
    exact later

/-- From one world to another some cells were closed, on behalf of a configuration that tracks
nothing any more. -/
structure Closing (w w' : World σ) : Prop where
  config : w'.config = w.config
  surroundings : w'.surroundings = w.surroundings
  cells : ∀ c, w'.cell c = w.cell c ∨ w'.cell c = (w.cell c).shut
  sources : sourceCloses w'.history = sourceCloses w.history

namespace Closing

theorem refl (w : World σ) : Closing w w := ⟨rfl, rfl, fun _ => .inl rfl, rfl⟩

theorem trans (first : Closing u v) (second : Closing v w) : Closing u w where
  config := second.config.trans first.config
  surroundings := second.surroundings.trans first.surroundings
  cells c := by
    rcases first.cells c with before | before <;> rcases second.cells c with after | after
    all_goals rw [after, before]
    · exact .inl rfl
    · exact .inr rfl
    · exact .inr rfl
    · exact .inr rfl
  sources := second.sources.trans first.sources

/-- A single cell was closed. -/
theorem of_shut (cells : w'.cells = (w.modifyCell c .shut).cells) (config : w'.config = w.config)
    (surroundings : w'.surroundings = w.surroundings)
    (sources : sourceCloses w'.history = sourceCloses w.history) : Closing w w' where
  config
  surroundings
  cells d := by
    have same : w'.cell d = (w.modifyCell c .shut).cell d := by
      rw [World.cell, cells, World.cell]
    rw [same]
    rcases w.cell_modifyCell c .shut d with same | ⟨rfl, _, now⟩
    · exact .inl same
    · exact .inr now
  sources

theorem closed (closing : Closing w w') (before : (w.cell c).closed = true) :
    (w'.cell c).closed = true := by
  rcases closing.cells c with same | same
  · rw [same]
    exact before
  · rw [same]
    rfl

theorem value (closing : Closing w w') (c : Nat) : (w'.cell c).value = (w.cell c).value := by
  rcases closing.cells c with same | same <;> rw [same]
  rfl

theorem hook (closing : Closing w w') {script : Script σ} (has : (w'.cell c).hook = some script) :
    (w.cell c).hook = some script := by
  rcases closing.cells c with same | same
  · rwa [same] at has
  · rw [same] at has
    cases has

end Closing

/-- The hook of the cell, if there is one, has some entry forgotten. -/
def World.PlainHook (w : World σ) (c : Nat) : Prop :=
  ∀ script, (w.cell c).hook = some script → ∃ entry, script = forget entry

theorem closeCell_closing (plan : Plan σ) (untracked : w.config.tracked = [])
    (plain : w.PlainHook c) :
    Settles (fun n => closeCell plan n c) w fun _ v => Closing w v ∧ (v.cell c).closed = true := by
  cases closed : (w.cell c).closed with
  | true =>
    have settles := closeCell_settles plan (w := w) (c := c) (by simp [closed])
    refine settles.imp fun _ v how => ?_
    rcases how with ⟨_, rfl⟩ | ⟨opened, _⟩
    · exact ⟨.refl _, closed⟩
    · rw [closed] at opened
      cases opened
  | false =>
    have here : c < w.cells.length := World.lt_of_open closed
    have now : (w.modifyCell c .shut).cell c = (w.cell c).shut :=
      World.cell_modifyCell_self w here _
    cases hook : (w.cell c).hook with
    | none =>
      refine .succ (fun n => by rw [closeCell]) (.after (Act.run_readCell c w) ?_)
      rw [closed, hook]
      refine .after (Act.run_changeCell c .shut w) (.after (Act.run_record _ _) (.done ?_))
      exact ⟨.of_shut rfl rfl rfl rfl, congrArg Cell.closed now⟩
    | some script =>
      obtain ⟨entry, rfl⟩ := plain script hook
      have settles := closeCell_settles plan fun _ => ⟨entry, hook⟩
      refine settles.imp fun _ v how => ?_
      rcases how with ⟨wrong, _⟩ | ⟨_, entry', _, rfl⟩
      · rw [closed] at wrong
        cases wrong
      · -- nothing is tracked, so there is nothing to forget
        have config : (w.shutCell c entry').config = w.config := by
          change w.config.untrack entry' = w.config
          rw [ConfigState.untrack, untracked, List.filter_nil, ← untracked]
        exact ⟨.of_shut rfl config rfl rfl, congrArg Cell.closed now⟩

theorem closeCells_closing (plan : Plan σ) {cells : List Nat} (untracked : w.config.tracked = [])
    (plain : ∀ c ∈ cells, w.PlainHook c) :
    Settles (fun n => closeCells plan n cells) w fun _ v =>
      Closing w v ∧ ∀ c ∈ cells, (v.cell c).closed = true := by
  -- by induction on the cells; those that are closed stay closed while the others are
  induction cells generalizing w with
  | nil => exact .succ (fun n => by rw [closeCells]) (.done ⟨.refl w, List.forall_mem_nil _⟩)
  | cons c rest ih =>
    have first := closeCell_closing plan untracked (plain c List.mem_cons_self)
    refine .succ (fun n => by rw [closeCells]) (first.bind fun _ v settled => ?_)
    obtain ⟨closing, closed⟩ := settled
    have untracked' : v.config.tracked = [] := by rw [closing.config, untracked]
    have plain' : ∀ d ∈ rest, v.PlainHook d := fun d member script has =>
      plain d (List.mem_cons_of_mem _ member) script (closing.hook has)
    refine (ih untracked' plain').imp fun _ x settled => ?_
    exact ⟨closing.trans settled.1,
      List.forall_mem_cons.mpr ⟨settled.1.closed closed, settled.2⟩⟩

/-- What the call that closes a configuration has done when it returns. -/
structure World.ShutDown (plan : Plan σ) (n : Nat) (w w' : World σ) : Prop where
  config : w'.config = w.config.shut
  values : ∀ c, (w'.cell c).value = (w.cell c).value
  cells : ∀ c, n ≤ c → (w'.cell c).closed = true
  -- Each source was closed once, whatever the ones before it had to say.
  sources : sourceCloses w'.history =
    (List.range plan.sources.length).reverse ++ sourceCloses w.history
  surroundings : w'.surroundings =
    plan.sources.foldl (fun u source => (source.close u).2) w.surroundings

/-- A configuration that is open can always be closed. -/
theorem Regular.shut_settles (regular : Regular n w) (plan : Plan σ)
    (opened : w.config.closed = false) :
    Settles (fun m => shut plan m) w fun _ v => w.ShutDown plan n v := by
  refine .succ (fun m => by rw [shut]) (.after (Act.run_get w) ?_)
  dsimp only
  rw [opened]
  refine .after (Act.run_modify _ w) (.after (Act.run_record _ _) ?_)
  have plain : ∀ c ∈ w.config.tracked.map Tracked.cell,
      ((w.modifyConfig .shut).log .configClosed).PlainHook c := by
    intro c member script has
    obtain ⟨t, known, rfl⟩ := List.mem_map.mp member
    rcases regular.hooks t.cell script has with ⟨other, _⟩ | ⟨entry, _, _, same⟩
    · exact absurd (regular.derived t known).1 (Nat.not_le_of_lt other)
    · exact ⟨entry, same⟩
  refine (closeCells_closing plan rfl plain).bind fun _ v settled => ?_
  obtain ⟨closing, closed⟩ := settled
  refine .const (Act.run_closeSources 0 plan.sources v) ?_
  rw [closeSources_after]
  refine ⟨closing.config, closing.value, fun c derived => ?_, ?_, ?_⟩
  · -- a derived cell that was open was tracked, and so it has been closed
    cases before : (w.cell c).closed with
    | true => exact closing.closed before
    | false =>
      obtain ⟨t, known, rfl⟩ := regular.followed c derived before
      exact closed t.cell (List.mem_map_of_mem known)
  · have sources : sourceCloses v.history = sourceCloses w.history := closing.sources
    have closes : ((List.range' 0 plan.sources.length).map Event.sourceClosed).reverse.filterMap
        Event.sourceClosed? = (List.range plan.sources.length).reverse := by
      rw [List.filterMap_reverse, List.filterMap_map, List.range_eq_range']
      exact congrArg List.reverse (List.filterMap_some ..)
    rw [← sources, sourceCloses, List.filterMap_append, closes, sourceCloses]
  · rw [closing.surroundings]
    rfl

/-- Where steps come to an end does not depend on how they are looked at. -/
theorem Leads.end_unique {a : List (Item σ)} (first : Leads plan a u [] v)
    (second : Leads plan a u [] w) : v = w := by
  generalize done : ([] : List (Item σ)) = b at first
  induction first with
  | here =>
    subst done
    cases second
    rfl
  | step _ ih =>
    cases second with
    | step second => exact ih second done

/-! ### What comes afterwards -/

/-- No step closes sources, unless that is what it is for; once the configuration is closed no step
tracks anything or brings up closing sources again. -/
theorem Item.step_sources (plan : Plan σ) (w : World σ) {item : Item σ}
    (other : item ≠ .shutSources) :
    sourceCloses (item.step plan w).2.history = sourceCloses w.history ∧
      (w.config.closed = true →
        (w.config.tracked = [] → (item.step plan w).2.config.tracked = []) ∧
          ∀ i ∈ (item.step plan w).1, i ≠ .shutSources) := by
  cases item with
  | go script =>
    cases script with
    | onClose c hook next =>
      rw [Item.step, Script.step]
      split <;> exact ⟨rfl, fun _ => ⟨id, by simp⟩⟩
    | start next =>
      rw [Item.step, Script.step]
      dsimp only
      split <;> exact ⟨rfl, fun _ => ⟨id, by simp⟩⟩
    | untrack entry next =>
      refine ⟨rfl, fun _ => ⟨fun none => ?_, by simp [Item.step, Script.step]⟩⟩
      change w.config.tracked.filter _ = []
      rw [none, List.filter_nil]
    | _ => exact ⟨rfl, fun _ => ⟨id, by simp [Item.step, Script.step]⟩⟩
  | put c value =>
    rw [Item.step]
    split
    · exact ⟨rfl, fun _ => ⟨id, by simp⟩⟩
    · split <;> exact ⟨rfl, fun _ => ⟨id, by simp⟩⟩
  | apply c value =>
    rw [Item.step]
    split
    · exact ⟨rfl, fun _ => ⟨id, by simp⟩⟩
    · split
      · exact ⟨rfl, fun _ => ⟨id, by simp⟩⟩
      · refine ⟨rfl, fun _ => ⟨id, fun i called => ?_⟩⟩
        rcases List.mem_append.mp called with called | last
        · obtain ⟨listener, _, rfl⟩ := List.mem_map.mp called
          simp
        · rw [List.mem_singleton.mp last]
          simp
  | drain c =>
    rw [Item.step]
    split <;> exact ⟨rfl, fun _ => ⟨id, by simp⟩⟩
  | greet c l =>
    have welcomes (id : Nat) : ∀ i ∈ welcome w c id l, i ≠ .shutSources := by
      rw [welcome]
      split <;> simp
    rw [Item.step]
    split
    · exact ⟨rfl, fun _ => ⟨id, welcomes _⟩⟩
    · refine ⟨rfl, fun _ => ⟨id, fun i called => ?_⟩⟩
      rcases List.mem_append.mp called with called | called
      · exact welcomes _ i called
      · rcases List.mem_cons.mp called with rfl | called
        · simp
        · rw [List.mem_singleton.mp called]
          simp
  | close c =>
    rw [Item.step]
    split
    · exact ⟨rfl, fun _ => ⟨id, by simp⟩⟩
    · dsimp only
      split <;> exact ⟨rfl, fun _ => ⟨id, by simp⟩⟩
  | derive extract =>
    rw [Item.step]
    split
    · exact ⟨rfl, fun _ => ⟨id, by simp⟩⟩
    next free =>
      have opened : w.config.closed ≠ true := fun closed => free (by rw [closed, Bool.or_true])
      split
      · exact ⟨rfl, fun _ => ⟨id, by simp⟩⟩
      · exact ⟨rfl, fun closed => absurd closed opened⟩
  | shut =>
    rw [Item.step]
    split
    · exact ⟨rfl, fun _ => ⟨id, by simp⟩⟩
    next opened => exact ⟨rfl, fun closed => absurd closed opened⟩
  | shutSources => exact absurd rfl other
  | tell | unmark | endDispatch => exact ⟨rfl, fun _ => ⟨id, by simp [Item.step]⟩⟩

/-- The configuration was closed for good by the time the world was `w`: nothing that it stands for
has changed since then. -/
structure Terminal (n : Nat) (w v : World σ) : Prop where
  closed : v.config.closed = true
  current : v.config.current = w.config.current
  tracked : v.config.tracked = []
  cells : ∀ c, n ≤ c → (v.cell c).closed = true ∧ (v.cell c).value = (w.cell c).value
  sources : sourceCloses v.history = sourceCloses w.history

theorem World.ShutDown.terminal (shutDown : w.ShutDown plan n w') : Terminal n w' w' where
  closed := by rw [shutDown.config]; rfl
  current := rfl
  tracked := by rw [shutDown.config]; rfl
  cells c derived := ⟨shutDown.cells c derived, rfl⟩
  sources := rfl

namespace Terminal

/-- Neither the values changed nor the configuration, and no source was closed. -/
theorem congr (terminal : Terminal n w u)
    (cells : ∀ c, (v.cell c).closed = (u.cell c).closed ∧ (v.cell c).value = (u.cell c).value)
    (closed : v.config.closed = u.config.closed) (current : v.config.current = u.config.current)
    (tracked : v.config.tracked = u.config.tracked)
    (sources : sourceCloses v.history = sourceCloses u.history) : Terminal n w v where
  closed := closed.trans terminal.closed
  current := current.trans terminal.current
  tracked := tracked.trans terminal.tracked
  cells c derived := by rw [(cells c).1, (cells c).2]; exact terminal.cells c derived
  sources := sources.trans terminal.sources

theorem step (terminal : Terminal n w v) (plan : Plan σ) {item : Item σ}
    (other : item ≠ .shutSources) : Terminal n w (item.step plan v).2 := by
  have aloof := item.step_aloof plan v
  obtain ⟨sources, calm⟩ := Item.step_sources plan v other
  refine ⟨aloof.closed terminal.closed, aloof.current.trans terminal.current,
    (calm terminal.closed).1 terminal.tracked, fun c derived => ?_,
    sources.trans terminal.sources⟩
  obtain ⟨closed, value⟩ := terminal.cells c derived
  rcases Nat.lt_or_ge c v.cells.length with here | beyond
  · have touch := touches plan here item
    refine ⟨(touch.change here).closed closed, ?_⟩
    rcases touch.value with same | ⟨_, _, opened⟩
    · exact same.trans value
    · rw [closed] at opened
      cases opened
  · rcases item.step_beyond plan v beyond with gone | ⟨_, _, _, opened, _⟩
    · rw [gone, ← value, World.cell_of_beyond beyond]
      exact ⟨rfl, rfl⟩
    · rw [terminal.closed] at opened
      cases opened

theorem leads (terminal : Terminal n w u) {a b : List (Item σ)}
    (others : ∀ i ∈ a, i ≠ .shutSources) (leads : Leads plan a u b v) : Terminal n w v := by
  have both := leads.preserves (fun a v => Terminal n w v ∧ ∀ i ∈ a, i ≠ .shutSources)
    (fun item rest v ⟨terminal, others⟩ => by
      have other := others item List.mem_cons_self
      refine ⟨terminal.step plan other, fun i member => ?_⟩
      rcases List.mem_append.mp member with new | old
      · exact ((Item.step_sources plan v other).2 terminal.closed).2 i new
      · exact others i (List.mem_cons_of_mem _ old)) ⟨terminal, others⟩
  exact both.1

theorem unwind (terminal : Terminal n w v) (agenda : List (Item σ)) :
    Terminal n w (unwind agenda v) := by
  induction agenda generalizing v with
  | nil => exact terminal
  | cons item rest ih =>
    refine ih ?_
    cases item with
    | unmark c =>
      refine terminal.congr (fun d => ⟨?_, ?_⟩) rfl rfl rfl rfl
      · exact World.modifyCell_keeps (f := .unmark) Cell.closed (fun _ => rfl) v c d
      · exact World.modifyCell_keeps (f := .unmark) Cell.value (fun _ => rfl) v c d
    | endDispatch => exact terminal.congr (fun _ => ⟨rfl, rfl⟩) rfl rfl rfl rfl
    | _ => exact terminal

theorem beside (terminal : Terminal n w u) (beside : Beside u v) : Terminal n w v := by
  exact terminal.congr (fun c => by rw [beside.cell]; exact ⟨rfl, rfl⟩) beside.closed
    beside.current beside.tracked beside.sourceCloses

end Terminal

/-- On a configuration that is closed there is nothing to register and nothing to close. -/
structure Final (plan : Plan σ) (n : Nat) (w v : World σ) : Prop extends Terminal n w v where
  registrations : ∀ fuel extract, (derive plan (fuel + 1) extract).run.run v =
    (.ok (.error (if v.config.dispatching then .reentrant "registration"
      else .closed "reloadable config")), v)
  again : ∀ fuel, (shut plan (fuel + 1)).run.run v = (.ok (), v)

theorem Terminal.final (terminal : Terminal n w v) (plan : Plan σ) : Final plan n w v where
  toTerminal := terminal
  registrations fuel extract := by
    rw [derive, Act.run_bind_of_ok (Act.run_get v)]
    dsimp only
    split
    · rfl
    · rw [if_pos terminal.closed]
      rfl
  again fuel := by
    rw [shut, Act.run_bind_of_ok (Act.run_get v)]
    dsimp only
    rw [if_pos terminal.closed]
    rfl

/-! ### What came before -/

/-- As long as the configuration is open no source has been closed. -/
def World.Spared (w : World σ) : Prop := w.config.closed = true ∨ sourceCloses w.history = []

theorem World.Spared.beside (spared : w.Spared) (beside : Beside w v) : v.Spared :=
  spared.imp beside.closed.trans beside.sourceCloses.trans

theorem World.Spared.swap (spared : w.Spared) (tree : Tree) : (w.swap tree).Spared := spared

theorem Regular.spared {a b : List (Item σ)} (regular : Regular n u) (fits : ∀ i ∈ a, i.Fits n u)
    (leads : Leads plan a u b v) (spared : u.Spared) : v.Spared := by
  have all := regular.preserves fits leads (fun _ v => v.Spared) (fun item _ v _ fits _ spared => by
    have other : item ≠ .shutSources := by
      rintro rfl
      exact fits
    exact spared.imp (item.step_aloof plan v).closed (Item.step_sources plan v other).1.trans)
    spared
  exact all.elim .inl fun ⟨_, _, spared⟩ => spared

theorem unwind_spared (spared : w.Spared) (agenda : List (Item σ)) : (unwind agenda w).Spared := by
  induction agenda generalizing w with
  | nil => exact spared
  | cons item rest ih =>
    refine ih ?_
    cases item <;> exact spared

/-- There is only one kind of work that closes the configuration. -/
theorem Item.step_open (plan : Plan σ) (w : World σ) {item : Item σ} (other : item ≠ .shut) :
    (item.step plan w).2.config.closed = w.config.closed := by
  cases item with
  | go script =>
    cases script with
    | onClose =>
      rw [Item.step, Script.step]
      split <;> rfl
    | start =>
      rw [Item.step, Script.step]
      dsimp only
      split <;> rfl
    | _ => rfl
  | put | apply =>
    rw [Item.step]
    split
    · rfl
    · split <;> rfl
  | drain | greet =>
    rw [Item.step]
    split <;> rfl
  | close =>
    rw [Item.step]
    split
    · rfl
    · dsimp only
      split <;> rfl
  | derive =>
    rw [Item.step]
    split
    · rfl
    · split <;> rfl
  | shut => exact absurd rfl other
  | shutSources =>
    rw [Item.step, closeSources_after]
  | tell | unmark | endDispatch => rfl

/-- A configuration that is closed at last was closed at some moment. -/
theorem Leads.closing {a b : List (Item σ)} (leads : Leads plan a u b v)
    (opened : u.config.closed = false) (closed : v.config.closed = true) :
    ∃ rest w, Leads plan a u (.shut :: rest) w ∧ w.config.closed = false ∧
      Leads plan (.shut :: rest) w b v := by
  induction leads with
  | here =>
    rw [opened] at closed
    cases closed
  | @step item rest u _ _ leads ih =>
    by_cases shut : item = .shut
    · subst shut
      exact ⟨rest, u, .here, opened, .step leads⟩
    · have still : (item.step plan u).2.config.closed = false :=
        (Item.step_open plan u shut).trans opened
      obtain ⟨rest', w, before, opened', after⟩ := ih still closed
      exact ⟨rest', w, .step before, opened', after⟩

/-! ### Sessions -/

namespace Session

variable {P : Script σ → Prop} {s s' : Session σ} {m : Move σ}

/-- What a move may have to do: it runs a script, or it publishes a tree that a refresh has
brought. -/
inductive Begins (P : Script σ → Prop) (s : Session σ) : List (Item σ) → World σ → Prop where
  | script {script : Script σ} (performs : P script) : Begins P s [.go script] s.world
  | publishing {tree : Tree} {updates : List (Nat × Option Value)} {u : World σ}
    (fetched : Beside s.world u) (opened : u.config.closed = false)
    (other : (u.config.current == some tree) = false)
    (computes : computeAll tree u.config.tracked = .ok updates) :
    Begins P s (dispatch s.plan updates) (u.swap tree)

/-- A moment of a move, with all that is still to be done then. From there the move goes on to its
end, or until it is broken off. -/
structure Passes (P : Script σ → Prop) (s : Session σ) (m : Move σ) (agenda : List (Item σ))
    (w : World σ) : Prop where
  before : ∃ a u, s.Begins P a u ∧ Leads s.plan a u agenda w
  after : ∃ left v, Leads s.plan agenda w left v ∧ Beside (unwind left v) (s.step m).world

/-- On a configuration that was closed when the world was `w` no fetch begins. -/
structure Finished (n : Nat) (w : World σ) (fetches : Nat) (s : Session σ) : Prop where
  world : Final s.plan n w s.world
  undispatched : s.world.config.dispatching = false
  refreshes : ∀ t purpose, s.beginRefresh t purpose =
    s.endRefresh t purpose (.error (.closed "reloadable config"))
  loops : ∀ t due, s.tick t due = s.setTask t (.over (.replied .nothing))
  fetches : s.flights.size = fetches

/-- No refresh begins on a configuration that is closed. -/
theorem flights_of_closed (closed : s.world.config.closed = true) (m : Move σ) :
    (s.step m).flights.size = s.flights.size := by
  generalize s.step m = s', moved s m = moved
  cases moved with
  | aside aside => rw [aside.flights]
  | joined => rfl
  | began t purpose found free opened =>
    rw [closed] at opened
    cases opened
  | wentOn t purpose f deadline progress found =>
    have led := lead_led (s.resumed progress) t purpose f ((progress.resume s.plan).run s.world).1
    generalize lead _ t purpose f _ = after, ((progress.resume s.plan).run s.world).1 = part at led
    cases led with
    | waits pace progress flights => exact congrArg Array.size flights
    | lands fetched flight flights =>
      rw [flights, Array.size_setIfInBounds]
      rfl
  | dropped t purpose f => exact Array.size_setIfInBounds ..

theorem Effect.terminal (effect : Effect P s s')
    (terminal : Terminal n w s.world) : Terminal n w s'.world := by
  cases effect with
  | beside beside => exact terminal.beside beside
  | ran performs leads unwinds => exact ((terminal.leads (by simp) leads).unwind _).beside unwinds
  | reloaded beside => exact terminal.beside beside
  | published fetched opened =>
    rw [fetched.closed, terminal.closed] at opened
    cases opened

theorem Terminal.finished (terminal : Terminal n w s.world) (idle : s.world.Idle) :
    Finished n w s.flights.size s where
  world := terminal.final s.plan
  undispatched := idle.undispatched
  refreshes t purpose := by rw [beginRefresh, if_pos terminal.closed]
  loops t due := by
    rw [tick]
    split
    · rfl
    · rw [if_pos terminal.closed]
  fetches := rfl

/-- Whatever is done afterwards, it stays so. -/
theorem finished_after {k : Nat} (proper : Proper k s) (terminal : Terminal n w s.world)
    {moves : List (Move σ)} (offered : ∀ m ∈ moves, m.Performs (Script.Offered k)) :
    Finished n w s.flights.size (s.after moves) := by
  induction moves generalizing s with
  | nil => exact Terminal.finished terminal proper.idle
  | cons m rest ih =>
    have kind := offered m List.mem_cons_self
    have finished := ih (proper.step kind) ((proper.onward kind).effect.terminal terminal)
      fun m' member => offered m' (List.mem_cons_of_mem _ member)
    rw [← flights_of_closed terminal.closed m]
    exact finished

theorem Effect.spared (effect : Effect (Script.Offered n) s s')
    (regular : s.world.config.closed = true ∨ Regular n s.world) (spared : s.world.Spared) :
    s'.world.Spared := by
  rcases regular with closed | regular
  · exact .inl (effect.closed closed)
  · cases effect with
    | beside beside => exact spared.beside beside
    | ran offered leads unwinds =>
      exact (unwind_spared (regular.spared (Item.fits_next offered) leads spared) _).beside unwinds
    | reloaded beside => exact spared.beside beside
    | @published tree _ _ u _ fetched opened other computes leads unwinds =>
      have spared : (u.swap tree).Spared := (spared.beside fetched).swap tree
      have swapped : Regular n (u.swap tree) := (regular.beside fetched).swap _
      exact (unwind_spared (swapped.spared (dispatch_fits _ _) leads spared) _).beside unwinds

theorem plan_after {k : Nat} (proper : Proper k s) {moves : List (Move σ)}
    (offered : ∀ m ∈ moves, m.Performs (Script.Offered k)) : (s.after moves).plan = s.plan :=
  proper.keeps (fun s' => s'.plan = s.plan) (fun _ _ _ onward same => onward.plan.trans same)
    offered rfl

theorem spared_after {k : Nat} (proper : Proper k s) (spared : s.world.Spared)
    {moves : List (Move σ)} (offered : ∀ m ∈ moves, m.Performs (Script.Offered k)) :
    (s.after moves).world.Spared :=
  proper.keeps (fun s' => s'.world.Spared)
    (fun _ _ proper onward spared => onward.effect.spared proper.regular spared) offered spared

/-- The world at a moment of a move, as long as the configuration is open. -/
theorem Begins.regular {a agenda : List (Item σ)} (begins : s.Begins (Script.Offered n) a u)
    (proper : Proper n s) (spared : s.world.Spared) (leads : Leads s.plan a u agenda w)
    (opened : w.config.closed = false) :
    Regular n w ∧ (∀ i ∈ agenda, i.Fits n w) ∧ sourceCloses w.history = [] := by
  have still {v : World σ} (aloof : v.config.closed = true → w.config.closed = true) :
      v.config.closed ≠ true := fun closed => by
    rw [aloof closed] at opened
    cases opened
  have start : Regular n u ∧ (∀ i ∈ a, i.Fits n u) ∧ u.Spared := by
    cases begins with
    | script offered =>
      exact ⟨proper.regular.resolve_left (still leads.aloof.closed), Item.fits_next offered, spared⟩
    | @publishing tree updates u fetched opened other computes =>
      exact ⟨(proper.publishing fetched opened).swap tree, dispatch_fits _ _,
        (spared.beside fetched).swap tree⟩
  obtain ⟨regular, fits, spared⟩ := start
  obtain ⟨regular', fits'⟩ := (regular.leads fits leads).resolve_left (still id)
  exact ⟨regular', fits', (regular.spared fits leads spared).resolve_left (still id)⟩

/-- A move that closes the configuration passes through a moment at which that is to be done. -/
theorem Effect.passes_shut (effect : Effect P s (s.step m)) (opened : s.world.config.closed = false)
    (closed : (s.step m).world.config.closed = true) :
    ∃ rest w, s.Passes P m (.shut :: rest) w ∧ w.config.closed = false := by
  have begun {a left : List (Item σ)} {u v : World σ} (begins : s.Begins P a u)
      (opened : u.config.closed = false) (leads : Leads s.plan a u left v)
      (unwinds : Beside (unwind left v) (s.step m).world) :
      ∃ rest w, s.Passes P m (.shut :: rest) w ∧ w.config.closed = false := by
    have shut : v.config.closed = true := by
      obtain ⟨_, unwound⟩ := unwind_config left v
      rw [unwinds.closed, unwound] at closed
      exact closed
    obtain ⟨rest, w, before, opened, after⟩ := leads.closing opened shut
    exact ⟨rest, w, ⟨⟨a, u, begins, before⟩, left, v, after, unwinds⟩, opened⟩
  have besides {w : World σ} (beside : Beside s.world w) : w.config.closed = false :=
    beside.closed.trans opened
  cases effect with
  | beside beside | reloaded beside =>
    rw [besides beside] at closed
    cases closed
  | ran performs leads unwinds => exact begun (.script performs) opened leads unwinds
  | published fetched opened other computes leads unwinds =>
    exact begun (.publishing fetched opened other computes) opened leads unwinds

end Session

/-- The call that closes the configuration when the world is `w`, while `rest` is still to be done,
always returns, when the world is `w'`; whatever is done of the rest, nothing changes any more. -/
structure ClosesForGood (plan : Plan σ) (n : Nat) (rest : List (Item σ)) (w w' : World σ) :
    Prop where
  returns : ∃ least, ∀ fuel, least ≤ fuel → (shut plan fuel).run.run w = (.ok (), w')
  only : ∀ fuel v, (shut plan fuel).run.run w = (.ok (), v) → v = w'
  before : sourceCloses w.history = []
  does : w.ShutDown plan n w'
  rest : ∀ agenda v, Leads plan rest w' agenda v → Final plan n w' v

theorem Regular.closes_for_good {rest : List (Item σ)} (regular : Regular n w)
    (fits : ∀ i ∈ rest, i.Fits n w) (opened : w.config.closed = false)
    (spared : sourceCloses w.history = []) :
    ∃ w', ClosesForGood plan n rest w w' := by
  obtain ⟨least, _, w', does, returns⟩ := regular.shut_settles plan opened
  refine ⟨w', ⟨least, returns⟩, fun fuel v ran => ?_, spared, does, fun agenda v leads => ?_⟩
  · -- both runs take the same steps
    have one := (carries plan fuel).shut w
    have other := (carries plan least).shut w
    rw [ran] at one
    rw [returns least (Nat.le_refl _)] at other
    exact Leads.end_unique one other
  · refine (does.terminal.leads (fun i member => ?_) leads).final plan
    rintro rfl
    exact fits _ member

namespace Session

/-- Whatever the moment at which a configuration is closed, that is final. -/
theorem close_is_terminal (plan : Plan σ) (fuel : Nat) (surroundings : σ)
    (others : List (Option Value × NotifyOrder)) (earlier later : List (Move σ)) (m : Move σ)
    (offered : ∀ m' ∈ earlier ++ m :: later, m'.Performs (Script.Offered others.length)) :
    let s := (freshBeside plan fuel surroundings others).after earlier
    (∀ rest w, s.Passes (Script.Offered others.length) m (.shut :: rest) w →
      w.config.closed = false → ∃ w', ClosesForGood plan others.length rest w w' ∧
        (s.Passes (Script.Offered others.length) m rest w' →
          Finished others.length w' (s.step m).flights.size ((s.step m).after later))) ∧
    (s.world.config.closed = false → (s.step m).world.config.closed = true →
      ∃ rest w, s.Passes (Script.Offered others.length) m (.shut :: rest) w ∧
        w.config.closed = false) := by
  intro s
  have offeredBefore : ∀ m' ∈ earlier, m'.Performs (Script.Offered others.length) :=
    fun m' member => offered m' (List.mem_append_left _ member)
  have kind := offered m (List.mem_append_right _ List.mem_cons_self)
  have offeredLater : ∀ m' ∈ later, m'.Performs (Script.Offered others.length) :=
    fun m' member => offered m' (List.mem_append_right _ (List.mem_cons_of_mem _ member))
  have fresh := Proper.fresh plan fuel surroundings others
  have proper : Proper others.length s := fresh.after offeredBefore
  have spared : s.world.Spared := spared_after fresh (.inr rfl) offeredBefore
  have same : s.plan = plan := plan_after fresh offeredBefore
  refine ⟨fun rest w passes opened => ?_, (proper.onward kind).effect.passes_shut⟩
  obtain ⟨a, u, begins, leads⟩ := passes.before
  obtain ⟨regular, fits, none⟩ := begins.regular proper spared leads opened
  obtain ⟨w', closes⟩ : ∃ w', ClosesForGood plan others.length rest w w' :=
    regular.closes_for_good (fun i member => fits i (List.mem_cons_of_mem _ member)) opened none
  refine ⟨w', closes, fun goesOn => ?_⟩
  obtain ⟨left, v, after, unwinds⟩ := goesOn.after
  rw [same] at after
  exact finished_after (proper.step kind)
    (((closes.rest left v after).toTerminal.unwind left).beside unwinds) offeredLater

/-- There is a derived cell, and then two calls wait for a refresh. -/
def twoCallsBesideCell : List (Move Unit) :=
  .perform (.derive Extractor.whole fun _ => .done .nothing) :: twoCalls

/-- The session in which they wait. -/
def besideCell : Session Unit := (freshBeside (planOf slowSource) 20 () []).after twoCallsBesideCell

theorem close_is_terminal_besideCell :
    ∃ w', ClosesForGood besideCell.plan 0 [.go (.done .nothing)] besideCell.world w' ∧
      Finished 0 w' 1 ((besideCell.step closing).after answered) ∧
      besideCell.world.config.tracked.map Tracked.cell = [0] ∧ w'.config.tracked = [] ∧
      sourceCloses w'.history = [0] := by
  have offered : ∀ m ∈ twoCallsBesideCell ++ closing :: answered,
      m.Performs (Script.Offered 0) := by
    simp only [twoCallsBesideCell, twoCalls, answered, List.cons_append, List.nil_append,
      List.forall_mem_cons]
    exact ⟨fun _ => trivial, .refresh, .refresh, trivial, trivial, trivial, trivial, trivial,
      trivial, nofun⟩
  obtain ⟨final, _⟩ := close_is_terminal (planOf slowSource) 20 () [] twoCallsBesideCell answered
    closing offered
  let ran := (shut besideCell.plan 20).run.run besideCell.world
  have returned : ran.1 = .ok () := rfl
  have begins : besideCell.Begins (Script.Offered 0) [.go (.shut (.done .nothing))]
      besideCell.world := .script trivial
  have shuts : Leads besideCell.plan [.shut] besideCell.world [] ran.2 := by
    have carried : Carries besideCell.plan [.shut] besideCell.world (ran.1, ran.2) :=
      (carries besideCell.plan 20).shut besideCell.world
    rwa [returned] at carried
  have ends : Leads besideCell.plan [.go (.done .nothing)] ran.2 [] ran.2 := .step .here
  have unwinds : Beside ran.2 (besideCell.step closing).world := .of_config rfl rfl rfl
  have atCall : besideCell.Passes (Script.Offered 0) closing [.shut, .go (.done .nothing)]
      besideCell.world :=
    ⟨⟨_, _, begins, .step .here⟩, [], ran.2, (shuts.append _).trans ends, unwinds⟩
  have returnsTo : besideCell.Passes (Script.Offered 0) closing [.go (.done .nothing)] ran.2 :=
    ⟨⟨_, _, begins, .step (shuts.append _)⟩, [], ran.2, ends, unwinds⟩
  obtain ⟨v, closes, finished⟩ := final _ besideCell.world atCall rfl
  obtain rfl : ran.2 = v := closes.only 20 ran.2 (Prod.ext returned rfl)
  exact ⟨ran.2, closes, finished returnsTo, rfl, rfl, rfl⟩

end Session

end LayeredConfig.Live
