import LayeredConfig.Proofs.Live.Rounds
import LayeredConfig.Proofs.Live.Terminal
/-!
# Listeners that panic

A listener may panic whenever it is called: at any place in a round, in the middle of calls for
other cells, when it was only just added, or while a tree is published. Whatever is under way is
broken off then, in all cells that are concerned, and nothing of it is left behind: between the
moves of a session there are neither marks nor updates that wait (`World.AtRest`), so that updates
are applied at once and cells can be derived.

What the panic costs is known as well. A cell whose listeners were being called keeps the value that
they were told of, and forgets the updates that waited until they are through; nothing else of any
cell changes: `panics_leave_nothing_stuck`.
-/
namespace LayeredConfig.Live

variable {σ : Type} {plan : Plan σ} {c : Nat} {a b agenda rest : List (Item σ)} {u v w : World σ}

/-! ### Worlds at rest -/

/-- Nothing is under way, and no update waits. -/
structure World.AtRest (w : World σ) : Prop where
  idle : w.Idle
  nothing : ∀ c, (w.cell c).deferred = []

/-- A moment of a run that began in a world at rest. -/
structure Underlaid (agenda : List (Item σ)) (w : World σ) : Prop where
  covers : Covers agenda w
  rounds : ∀ c, Rounds c agenda w

theorem World.AtRest.beside (atRest : w.AtRest) (beside : Beside w v) : v.AtRest where
  idle := beside.idle atRest.idle
  nothing c := by rw [beside.cell]; exact atRest.nothing c

/-- Nothing is in the middle of a round when a run begins. -/
theorem World.AtRest.underlaid (atRest : w.AtRest) (cells : ∀ c, u.cell c = w.cell c)
    (covers : Covers agenda u) (still : ∀ c, Still c agenda) : Underlaid agenda u where
  covers
  rounds c := .of_still (still c) fun _ => by rw [cells]; exact atRest.nothing c

/-- What publishes a tree is not work of any round. -/
theorem dispatch_calm (plan : Plan σ) (updates : List (Nat × Option Value)) (c : Nat) :
    ∀ i ∈ dispatch plan updates, i.about c = false := by
  intro i member
  rcases List.mem_append.1 member with puts | last
  · obtain ⟨update, -, rfl⟩ := List.mem_map.1 puts
    rfl
  · rw [List.mem_singleton.1 last]
    rfl

/-- Nothing is in the middle of a round when a tree is about to be published. -/
theorem World.AtRest.publishing (atRest : w.AtRest) (plan : Plan σ) (tree : Tree)
    (updates : List (Nat × Option Value)) : Underlaid (dispatch plan updates) (w.swap tree) :=
  atRest.underlaid (fun _ => rfl) (.swap atRest.idle ..) fun c =>
    .of_calm (dispatch_calm plan updates c)

namespace Underlaid

theorem leads (underlaid : Underlaid a u) (leads : Leads plan a u b v) : Underlaid b v where
  covers := underlaid.covers.leads leads
  rounds c := (underlaid.rounds c).leads leads

/-- Once everything is broken off, every cell is as it was but for its mark and what waited. -/
theorem unwind_cell (underlaid : Underlaid agenda w) (c : Nat) :
    (unwind agenda w).cell c = (w.cell c).unmark := by
  rcases Live.unwind_cell agenda w c with same | same
  · -- the cell was not marked, so that nothing waited
    have unmarked := underlaid.covers.unwind.unmarked c
    rw [same] at unmarked ⊢
    have nothing := (underlaid.rounds c).waits unmarked
    rw [Cell.unmark, ← nothing, ← unmarked]
  · exact same

theorem unwind (underlaid : Underlaid agenda w) : (unwind agenda w).AtRest where
  idle := underlaid.covers.unwind
  nothing c := by rw [underlaid.unwind_cell c]; rfl

end Underlaid

/-! ### What can be done in a world at rest -/

/-- The world once a cell was marked and got a value of which its listeners are to be told. -/
def World.begun (w : World σ) (c : Nat) (value : Option Value) : World σ :=
  ((w.modifyCell c .mark).modifyCell c fun cell => { cell with value }).log (.stored c value)

/-- What is still to be done in that world: the listeners are called in order, then the updates that
were asked for meanwhile are applied. -/
def World.round (w : World σ) (c : Nat) (value : Option Value) : List (Item σ) :=
  tellAll c value ((w.cell c).order.arrange (w.cell c).listeners) ++ [.drain c, .unmark c]

theorem World.modifyCell_eq_self {f : Cell σ → Cell σ} (same : f (w.cell c) = w.cell c) :
    w.modifyCell c f = w := by
  have cells : w.cells.modify c f = w.cells := by
    apply List.ext_getElem?
    intro d
    rw [List.getElem?_modify]
    split
    next here =>
      subst here
      cases found : w.cells[c]? with
      | none => rfl
      | some cell =>
        have is : w.cell c = cell := by
          rw [World.cell, List.getD_eq_getElem?_getD, found, Option.getD_some]
        rw [is] at same
        exact congrArg some same
    · exact id_map _
  rw [modifyCell, cells]

/-- An update of an open cell is applied at once. If the cell has the value already nothing
happens. Otherwise it gets the value, and then its listeners are called. -/
structure AppliesAtOnce (plan : Plan σ) (w : World σ) (c : Nat) (value : Option Value) :
    Prop where
  kept : ((w.cell c).value == value) = true → ∀ fuel,
    (update plan (fuel + 3) c value).run.run w = (.ok (.ok false), w)
  begins : ((w.cell c).value == value) = false → ∀ fuel,
    Carries plan (w.round c value) (w.begun c value) ((update plan (fuel + 2) c value).run.run w)
  answers : ∀ fuel answer w', (update plan fuel c value).run.run w = (.ok answer, w') →
    answer = .ok !((w.cell c).value == value)

/-- A cell can be derived: the first value is computed from the current tree, and neither a mark of
the configuration nor anything else keeps the cell from being made. -/
def DerivesAtOnce (plan : Plan σ) (w : World σ) (extract : Extractor) : Prop :=
  ∀ fuel, ∃ w', (derive plan (fuel + 3) extract).run.run w =
    (.ok (if w.config.closed then .error (.closed "reloadable config")
      else (seed extract w.config.current).map fun _ => w.cells.length), w')

namespace World.AtRest

theorem update_kept (atRest : w.AtRest) {value : Option Value}
    (opened : (w.cell c).closed = false) (same : ((w.cell c).value == value) = true) (fuel : Nat) :
    (update plan (fuel + 3) c value).run.run w = (.ok (.ok false), w) := by
  have here : c < w.cells.length := World.lt_of_open opened
  have unmarked := atRest.idle.unmarked c
  have marked : (w.modifyCell c .mark).cell c = (w.cell c).mark :=
    World.cell_modifyCell_self w here _
  have same' : ((w.cell c).mark.value == value) = true := same
  -- with the mark on the cell nothing is stored, nobody is called, and nothing is taken up
  have delivers : (deliver plan (fuel + 2) c (some value)).run.run (w.modifyCell c .mark) =
      (.ok (some false), w.modifyCell c .mark) := by
    have stores : (store c value).run.run (w.modifyCell c .mark) =
        (.ok (some (false, [])), w.modifyCell c .mark) := by
      rw [Act.run_store, marked, if_neg (by simp [Cell.mark, opened]), if_pos same']
    have called : (callAll plan (fuel + 1) c [] value).run.run (w.modifyCell c .mark) =
        (.ok (), w.modifyCell c .mark) := by
      rw [callAll]
      rfl
    have nothing : (nextDeferred c).run.run (w.modifyCell c .mark) =
        (.ok none, w.modifyCell c .mark) := by
      have waits : ((w.cell c).mark).deferred = [] := atRest.nothing c
      rw [Act.run_nextDeferred, marked, waits]
    have ends : (deliver plan (fuel + 1) c none).run.run (w.modifyCell c .mark) =
        (.ok none, w.modifyCell c .mark) := by
      rw [deliver]
      rfl
    rw [deliver, Act.run_bind_of_ok stores, Act.run_bind_of_ok called, Act.run_bind_of_ok nothing,
      Act.run_bind_of_ok ends]
    rfl
  have restored : (w.modifyCell c .mark).modifyCell c .unmark = w := by
    have one : (w.modifyCell c .mark).modifyCell c .unmark =
        w.modifyCell c fun cell => cell.mark.unmark := by
      rw [World.modifyCell, World.modifyCell, World.modifyCell, List.modify_modify_eq]
      rfl
    rw [one]
    apply World.modifyCell_eq_self
    rw [Cell.mark, Cell.unmark, ← atRest.nothing c, ← unmarked]
  have notifies : (notifying c (deliver plan (fuel + 2) c (some value))).run.run w =
      (.ok (some false), w) := by
    rw [notifying, run_between, delivers, restored]
  rw [update, Act.run_bind_of_ok (Act.run_readCell c w), if_neg (by simp [opened]),
    if_neg (by simp [unmarked]), Act.run_bind_of_ok notifies]
  rfl

theorem update_begins (atRest : w.AtRest) {value : Option Value}
    (opened : (w.cell c).closed = false) (other : ((w.cell c).value == value) = false)
    (fuel : Nat) :
    Carries plan (w.round c value) (w.begun c value)
      ((update plan (fuel + 2) c value).run.run w) := by
  have here : c < w.cells.length := World.lt_of_open opened
  have marked : (w.modifyCell c .mark).cell c = (w.cell c).mark :=
    World.cell_modifyCell_self w here _
  have row : w.round c value =
      (tellAll c value ((w.cell c).order.arrange (w.cell c).listeners) ++ [.drain c]) ++
        [.unmark c] := by
    rw [World.round, List.append_assoc]
    rfl
  rw [update, Act.run_bind_of_ok (Act.run_readCell c w), if_neg (by simp [opened]),
    if_neg (by simp [atRest.idle.unmarked c]), row]
  refine .answer (.between ?_ (fun _ => rfl) fun _ => rfl) fun _ _ => ⟨_, rfl⟩
  have stores : (store c value).run.run (w.modifyCell c .mark) =
      (.ok (some (true, (w.cell c).order.arrange (w.cell c).listeners)), w.begun c value) := by
    rw [Act.run_store, marked, if_neg (by simp [Cell.mark, opened]),
      if_neg (by simp [Cell.mark, other])]
    rfl
  rw [deliver, Act.run_bind_of_ok stores]
  exact .bind ((carries plan fuel).callAll ..)
    (fun _ _ _ => (carries plan fuel).drain _ c fun _ _ => ⟨_, rfl⟩) fun _ => rfl

/-- Nothing keeps an update of an open cell from being applied at once. -/
theorem applies (atRest : w.AtRest) (plan : Plan σ) (opened : (w.cell c).closed = false)
    (value : Option Value) : AppliesAtOnce plan w c value where
  kept same := atRest.update_kept opened same
  begins other := atRest.update_begins opened other
  answers fuel answer w' ran := by
    rw [update_answer ran, World.updateReply, if_neg (by simp [opened]),
      if_neg (by simp [atRest.idle.unmarked c])]

/-- Nothing keeps a cell from being derived. -/
theorem derives (atRest : w.AtRest) (plan : Plan σ) (extract : Extractor) :
    DerivesAtOnce plan w extract := by
  intro fuel
  rw [derive, Act.run_bind_of_ok (Act.run_get w)]
  dsimp only
  rw [atRest.idle.undispatched, if_neg Bool.false_ne_true]
  split
  next closed => exact ⟨_, rfl⟩
  next opened =>
    cases gives : seed extract w.config.current with
    | error e => exact ⟨_, rfl⟩
    | ok value =>
      -- the cell that was made is open, so that its hook is set and does not run
      have made : (w.follow extract value).cell w.cells.length = { value } := by
        rw [World.follow, World.cell_modifyConfig, World.cell_addCell, if_pos rfl]
      have sets : ∃ w', (run plan (fuel + 2) (forgetOnClose w.cells.length w.config.nextId)).run.run
          (w.follow extract value) = (.ok .nothing, w') := by
        rw [forgetOnClose, run, Act.run_bind_of_ok (Act.run_readCell _ _), made,
          if_neg Bool.false_ne_true, Act.run_bind_of_ok (Act.run_changeCell _ _ _), run]
        exact ⟨_, rfl⟩
      obtain ⟨w', sets⟩ := sets
      refine ⟨w', ?_⟩
      dsimp only
      rw [Act.run_bind_of_ok (Act.run_track extract value w)]
      exact Act.run_bind_of_ok sets _

end World.AtRest

/-! ### Sessions -/

/-- A script that panics gets no further. -/
theorem Leads.of_panic (leads : Leads plan (.go .panic :: rest) w b v) :
    b = .go .panic :: rest ∧ v = w := by
  generalize start : .go .panic :: rest = a at leads
  induction leads with
  | here => exact ⟨rfl, rfl⟩
  | step _ ih =>
    cases start
    exact ih rfl

/-- A listener that was told of a value of a cell has panicked, when the world was `v`, and the
world is `w` when everything has been broken off. Every cell is as it was but for its mark and what
waited; the cell has the value still, and the updates that were dropped are those that waited until
its listeners are through. -/
structure CutShort (c : Nat) (value : Option Value) (waited : List (Option Value))
    (v w : World σ) : Prop where
  cells : ∀ d, w.cell d = (v.cell d).unmark
  keeps : (w.cell c).value = value
  dropped : (w.cell c).closed = false → (v.cell c).deferred = waited ∧ (w.cell c).deferred = []

namespace Session

variable {P : Script σ → Prop} {s s' : Session σ} {m : Move σ}

/-- A move has nothing to do with cells, or it begins with some work and goes on until that is done
or broken off. -/
theorem Effect.begins (effect : Effect P s s') :
    Beside s.world s'.world ∨ ∃ a u left v, s.Begins P a u ∧ Leads s.plan a u left v ∧
      Beside (unwind left v) s'.world := by
  cases effect with
  | beside beside | reloaded beside => exact .inl beside
  | ran performs leads unwinds => exact .inr ⟨_, _, _, _, .script performs, leads, unwinds⟩
  | published fetched opened other computes leads unwinds =>
    exact .inr ⟨_, _, _, _, .publishing fetched opened other computes, leads, unwinds⟩

theorem Begins.underlaid (begins : s.Begins P a u) (atRest : s.world.AtRest) : Underlaid a u := by
  cases begins with
  | script =>
    exact atRest.underlaid (fun _ => rfl) (atRest.idle.covers _) fun c => by
      simp [Still, Item.serves]
  | publishing fetched => exact (atRest.beside fetched).publishing ..

theorem Passes.underlaid (passes : s.Passes P m agenda w) (atRest : s.world.AtRest) :
    Underlaid agenda w := by
  obtain ⟨a, u, begins, leads⟩ := passes.before
  exact (begins.underlaid atRest).leads leads

/-- Whatever a move does, and wherever it is broken off, nothing is under way afterwards. -/
theorem Effect.atRest (effect : Effect P s s') (atRest : s.world.AtRest) : s'.world.AtRest := by
  rcases effect.begins with beside | ⟨a, u, left, v, begins, leads, unwinds⟩
  · exact atRest.beside beside
  · exact ((begins.underlaid atRest).leads leads).unwind.beside unwinds

theorem atRest_after (plan : Plan σ) (fuel : Nat) (surroundings : σ)
    (others : List (Option Value × NotifyOrder)) (moves : List (Move σ)) :
    ((freshBeside plan fuel surroundings others).after moves).world.AtRest := by
  have fresh := Proper.fresh plan fuel surroundings others
  refine kept_by_moves (Q := fun s => s.world.AtRest)
    (fun s m _ atRest onward => onward.effect.atRest atRest) fresh.orderly fresh.latest
    ⟨fresh.idle, fun c => ?_⟩ moves
  rcases freshBeside_cell plan fuel surroundings others c with gone | ⟨value, order, same⟩
  · rw [gone]
    rfl
  · rw [same]

/-- The call of a listener is broken off by a panic, of the listener itself or in something that
follows from what it does. -/
theorem Passes.cut_short {id : Nat} {l : Listener σ} {value : Option Value}
    {asked : List (Option Value)} (atRest : s.world.AtRest)
    (called : s.Passes P m (.tell c id l value :: rest) u)
    (asks : Asks s.plan c [.go (l.react value)] (u.log (.called c id l.name value)) asked
      (.go .panic :: a) v)
    (panics : s.Passes P m (.go .panic :: (a ++ rest)) v) :
    CutShort c value ((u.cell c).deferred ++ asked) v (s.step m).world := by
  -- the move has got no further than the panic, so what follows is that everything is broken off
  obtain ⟨left, v', leads, unwinds⟩ := panics.after
  obtain ⟨rfl, rfl⟩ := leads.of_panic
  have cells (d : Nat) : (s.step m).world.cell d = (v'.cell d).unmark := by
    rw [unwinds.cell]
    exact (panics.underlaid atRest).unwind_cell d
  -- until then the value and the row of updates were those of the call
  have amid := Amid.of_rounds ((called.underlaid atRest).rounds c)
  obtain ⟨amid, waits⟩ := amid.asks asks
  refine ⟨cells, ?_, fun opened => ⟨?_, ?_⟩⟩
  · rw [cells]
    exact amid.holds
  · rw [cells] at opened
    exact (waits opened).2
  · rw [cells]
    rfl

/-- Wherever listeners panic, nothing is under way between moves: there are no marks, nothing waits,
and a refresh that is marked as under way is led by a task. So updates of open cells are applied at
once, and cells can be derived. A cell of which a round was cut short has the value of that round,
and the updates that waited for the round to end are dropped. -/
theorem panics_leave_nothing_stuck (plan : Plan σ) (fuel : Nat) (surroundings : σ)
    (others : List (Option Value × NotifyOrder)) (moves : List (Move σ)) :
    let s := (freshBeside plan fuel surroundings others).after moves
    s.world.AtRest ∧
    (∀ f, s.world.config.inFlight = some f →
      s.flights[f]? = some .underWay ∧ ∃ t, s.LedBy t f) ∧
    (∀ c value, (s.world.cell c).closed = false → AppliesAtOnce s.plan s.world c value) ∧
    (∀ extract, DerivesAtOnce s.plan s.world extract) ∧
    ∀ m c id l value rest u asked inner v,
      s.Passes (fun _ => True) m (.tell c id l value :: rest) u →
      Asks s.plan c [.go (l.react value)] (u.log (.called c id l.name value)) asked
        (.go .panic :: inner) v →
      s.Passes (fun _ => True) m (.go .panic :: (inner ++ rest)) v →
      CutShort c value ((u.cell c).deferred ++ asked) v (s.step m).world := by
  intro s
  have atRest : s.world.AtRest := atRest_after plan fuel surroundings others moves
  have orderly : Orderly s := (Proper.fresh plan fuel surroundings others).orderly.after moves
  refine ⟨atRest, fun f flying => ⟨(orderly.underWay f).mp flying, orderly.led f flying⟩,
    fun c value opened => atRest.applies s.plan opened value,
    fun extract => atRest.derives s.plan extract, ?_⟩
  intro m c id l value rest u asked inner v called asks panics
  exact called.cut_short atRest asks panics

/-- A listener that sets another cell to what it is told. -/
def relay : Listener Unit := ⟨"relay", fun value => .update 1 value fun _ => .done .nothing⟩

/-- A listener of the other cell that clears the first one and panics. -/
def failing : Listener Unit := ⟨"failing", fun _ => .update 0 none fun _ => .panic⟩

def listeningInARow : List (Move Unit) :=
  [.perform (.register 0 relay.name relay.react fun _ =>
    .register 1 failing.name failing.react fun _ => .done .nothing)]

/-- The session with these two cells. -/
def relayed : Session Unit :=
  (freshBeside { query := ⟨"app", [], none, none⟩ } 20 ()
    [(some (.bool false), .registration), (none, .registration)]).after listeningInARow

def settingFirst : Script Unit := .update 0 (some (.bool true)) fun _ => .done .nothing

theorem panics_leave_nothing_stuck_relayed :
    let s' := relayed.step (.perform settingFirst)
    (relayed.perform settingFirst).2 = .panicked ∧
      (∃ v, CutShort 0 (some (.bool true)) [none] v s'.world) ∧
      (s'.world.cell 0).value = some (.bool true) ∧
      (s'.world.cell 1).value = some (.bool true) := by
  intro s'
  obtain ⟨-, -, -, -, cut⟩ := panics_leave_nothing_stuck { query := ⟨"app", [], none, none⟩ } 20 ()
    [(some (.bool false), .registration), (none, .registration)] listeningInARow
  let value := some (Value.bool true)
  let rest : List (Item Unit) := [.drain 0, .unmark 0, .go (.done .nothing)]
  let inner : List (Item Unit) := [.drain 1, .unmark 1, .go (.done .nothing)]
  -- the first listener is called; the second one clears the cell, which has to wait, and panics
  let u := relayed.world.begun 0 value
  let v := (((((u.log (.called 0 0 "relay" value)).begun 1 value).log
    (.called 1 0 "failing" value)).modifyCell 0 (·.defer none)).log (.deferred 0 none))
  have begins : relayed.Begins (fun _ => True) [.go settingFirst] relayed.world := .script trivial
  have first : Leads relayed.plan [.go settingFirst] relayed.world (.tell 0 0 relay value :: rest)
      u := .step (.step (.step .here))
  have call : Asks relayed.plan 0 [.go (relay.react value)] (u.log (.called 0 0 "relay" value))
      [none] (.go .panic :: inner) v :=
    .step (.step (.step (.step (.step (.step .here)))))
  have second : Leads relayed.plan (.tell 0 0 relay value :: rest) u
      (.go .panic :: (inner ++ rest)) v := .step (call.leads.append rest)
  have unwinds : Beside (unwind (.go .panic :: (inner ++ rest)) v) s'.world :=
    .of_config rfl rfl rfl
  exact ⟨rfl, ⟨v, cut (.perform settingFirst) 0 0 relay value rest u [none] inner v
    ⟨⟨_, _, begins, first⟩, _, v, second, unwinds⟩ call
    ⟨⟨_, _, begins, first.trans second⟩, _, v, .here, unwinds⟩⟩, rfl, rfl⟩

end Session

end LayeredConfig.Live
