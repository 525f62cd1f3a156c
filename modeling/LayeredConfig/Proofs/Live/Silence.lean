import LayeredConfig.Proofs.Live.Course
import LayeredConfig.Proofs.Live.RealChanges
/-!
# Listeners that are taken away

A listener can be taken from its cell at any moment, by itself or by another one, in the middle of
whatever is going on; closing the cell takes all of them away. No round that begins later calls it.
But a round goes by the listeners that the cell had when the value was stored. If one is under way
that has not come to the listener yet, the listener is still called, this once:
`silent_after_the_round`, and `called_after_deregistration` is a case in which that happens.

The calls that are due stand on the agenda. What a listener was told and what it is to be told
(`hears`) is one list, which no step changes once the listener is gone.
-/
namespace LayeredConfig.Live

variable {σ : Type} {plan : Plan σ} {c id : Nat} {item : Item σ}
  {a b new rest agenda done : List (Item σ)} {u v w w' : World σ}

open Story

/-! ### What is due -/

/-- What a listener was told, and what it is to be told by the calls that are due. -/
def hears (c id : Nat) (agenda : List (Item σ)) (w : World σ) : List (Option Value) :=
  told c id w.history.reverse ++ heard id (owed c agenda)

@[simp] theorem hears_nil : hears c id [] w = told c id w.history.reverse := List.append_nil _

/-- No call of the listener is due. -/
theorem heard_owed_eq_nil (others : ∀ l value, Item.tell c id l value ∉ agenda) :
    heard id (owed c agenda) = [] := by
  refine List.filterMap_eq_nil_iff.mpr fun call member => if_neg ?_
  obtain ⟨i, among, owes⟩ := List.mem_filterMap.mp member
  cases i with
  | tell d other l value =>
    by_cases same : c = d
    · subst same
      rw [Item.owed?, if_pos rfl] at owes
      cases owes
      rintro rfl
      exact others l value among
    · rw [Item.owed?, if_neg same] at owes
      cases owes
  | _ => cases owes

theorem heard_owed_of_calm (calm : ∀ i ∈ new, i.about c = false) : heard id (owed c new) = [] := by
  rw [owed_of_calm calm]
  rfl

theorem told_of_off {e : Event} (off : e.about c = false) : told c id [e] = [] := by
  rw [told, calls, List.filterMap_cons, (Event.silent off).2.1]
  rfl

/-- The step neither calls the listener nor makes a call of it due. -/
theorem hears_of_quiet (events : List Event) (history : w'.history = events ++ w.history)
    (quiet : ∀ e ∈ events, told c id [e] = []) (before : heard id (owed c [item]) = [])
    (after : heard id (owed c new) = []) :
    hears c id (new ++ rest) w' = hears c id (item :: rest) w := by
  have split : owed c (item :: rest) = owed c [item] ++ owed c rest := owed_append (a := [item])
  rw [hears, hears, history, told_of_quiet events quiet, owed_append, heard_append, after, split,
    heard_append, before]

/-- No step changes what a listener hears that its cell has no longer. -/
theorem Touch.hears_due (touch : Touch c w item new w') (without : (w.cell c).Without id) :
    hears c id (new ++ rest) w' = hears c id (item :: rest) w := by
  have one {e : Event} (quiet : Story.told c id [e] = []) : ∀ e' ∈ [e], Story.told c id [e'] = [] :=
    List.forall_mem_singleton.mpr quiet
  cases touch with
  | aside off calm same events history silent =>
    exact hears_of_quiet events history (fun e member => told_of_off (silent e member).1)
      (heard_owed_of_calm (List.forall_mem_singleton.mpr off)) (heard_owed_of_calm calm)
  | told other l value =>
    -- what was due is done
    have owes : owed c (.tell c other l value :: rest) = (other, value) :: owed c rest := by
      simp [owed, Item.owed?]
    have calls : Story.told c id [.called c other l.name value] = heard id [(other, value)] := by
      simp [Story.told, Story.calls, Event.called?]
    have both : heard id ((other, value) :: owed c rest) =
        heard id [(other, value)] ++ heard id (owed c rest) := heard_append [(other, value)] _
    rw [hears, hears, World.log, List.reverse_cons, told_append, calls, owes, both,
      List.append_assoc]
    rfl
  | deferred value => exact hears_of_quiet [_] rfl (one rfl) rfl rfl
  | begun | dropped | kept | drained | turned | unmarked =>
    exact hears_of_quiet [] rfl (List.forall_mem_nil _) rfl rfl
  | stored value opened changed =>
    refine hears_of_quiet [_] rfl (one rfl) rfl (heard_owed_eq_nil fun l told member => ?_)
    rcases List.mem_append.mp member with calls | last
    · obtain ⟨⟨_, _⟩, listens, same⟩ := List.mem_map.mp calls
      cases same
      exact without.2 (List.mem_map_of_mem ((w.cell c).order.mem_arrange.mp listens))
    · cases List.mem_singleton.mp last
  | registered | deregistered => exact hears_of_quiet [_] rfl (one rfl) rfl rfl
  | greetedAmid l | greeted l =>
    refine hears_of_quiet [_] rfl (one rfl) rfl (heard_owed_eq_nil fun other told member => ?_)
    have welcomed : Item.tell c id other told ∈ welcome w c (w.cell c).nextId l := by
      simpa using member
    obtain ⟨_, _, same⟩ := mem_welcome.mp welcomed
    cases same
    exact Nat.lt_irrefl _ without.1
  | closed calm opened same events history silent =>
    exact hears_of_quiet events history (fun e member => told_of_off (silent e member).1) rfl
      (heard_owed_of_calm calm)

/-- While nothing is broken off, a listener that its cell has no longer hears what was due. -/
theorem Leads.hears_due (leads : Leads plan a u b v) (here : c < u.cells.length)
    (without : (u.cell c).Without id) : hears c id b v = hears c id a u := by
  have all := leads.preserves (fun agenda w => c < w.cells.length ∧ (w.cell c).Without id ∧
      hears c id agenda w = hears c id a u)
    (fun item rest w ⟨here, without, same⟩ => by
      have touch := touches plan here item
      exact ⟨Nat.lt_of_lt_of_le here (Item.step_cells plan w item),
        (touch.change here).without without, (touch.hears_due without).trans same⟩)
    ⟨here, without, rfl⟩
  exact all.2.2

/-- Whatever happens, it hears nothing else. -/
theorem Course.hears_due (course : Course plan a u done b v) (here : c < u.cells.length)
    (without : (u.cell c).Without id) : hears c id b v <+: hears c id a u := by
  -- what begins anew has no call on its agenda
  have begins {agenda : List (Item σ)} {w w' : World σ}
      (same : told c id w'.history.reverse = told c id w.history.reverse)
      (nothing : heard id (owed c agenda) = []) : hears c id agenda w' = hears c id [] w := by
    rw [hears, same, nothing]
    rfl
  exact course.preserves (fun _ agenda w => hears c id agenda w <+: hears c id a u)
    (fun _ item rest w reached before => by
      have touch := touches plan (Nat.lt_of_lt_of_le here reached.length) item
      have stillWithout : (w.cell c).Without id :=
        reached.keeps here _ (fun _ _ change => change.without) without
      rw [touch.hears_due stillWithout]
      exact before)
    (fun _ agenda w before => by
      refine .trans ?_ before
      rw [hears_nil, unwind_history]
      exact List.prefix_append _ _)
    (fun _ w v beside before => by
      rw [begins (w := w) beside.told rfl]
      exact before)
    (fun _ _ _ before => before)
    (fun _ tree updates w before => by
      have quiet : told c id (w.swap tree).history.reverse = told c id w.history.reverse :=
        told_of_quiet [.published tree] (List.forall_mem_singleton.mpr rfl) w.history
      rw [begins quiet (heard_owed_of_calm (dispatch_calm plan updates c))]
      exact before)
    (List.prefix_refl _)

/-! ### One call of a listener at a time -/

/-- All cells are sound at every moment. -/
theorem Course.sound (course : Course plan a u done b v) (sound : ∀ c, (u.cell c).Sound) :
    ∀ c, (v.cell c).Sound :=
  course.preserves (fun _ _ w => ∀ c, (w.cell c).Sound)
    (fun _ item rest w _ before => Leads.sound (.one plan item rest w) before)
    (fun _ agenda w before c => by
      rcases unwind_cell agenda w c with same | same <;> rw [same]
      · exact before c
      · exact Cell.Change.unmarked.sound (before c))
    (fun _ _ _ beside before c => by rw [beside.cell]; exact before c)
    (fun _ _ _ before => before) (fun _ _ _ _ before => before) sound

theorem owed_of_still (still : Still c agenda) : owed c agenda = [] := by
  refine List.filterMap_eq_nil_iff.mpr fun i member => ?_
  have off := still i member
  cases i with
  | tell d id l value => exact if_neg (by simpa [Item.serves] using off)
  | _ => rfl

/-- A call of each listener is due at most once, and it is not one of those to come. -/
structure Single (c : Nat) (agenda : List (Item σ)) (w : World σ) : Prop where
  once : ((owed c agenda).map Prod.fst).Nodup
  known : ∀ other ∈ (owed c agenda).map Prod.fst, other < (w.cell c).nextId

namespace Single

theorem of_nothing (nothing : owed c agenda = []) : Single c agenda w := by
  constructor <;> simp [nothing]

theorem congr (single : Single c agenda w) (same : owed c b = owed c agenda)
    (nextId : (w.cell c).nextId ≤ (v.cell c).nextId) : Single c b v where
  once := by rw [same]; exact single.once
  known other member := Nat.lt_of_lt_of_le (single.known other (same ▸ member)) nextId

theorem tail (single : Single c (item :: rest) w) : Single c rest w := by
  have sublist : (owed c rest).Sublist (owed c (item :: rest)) :=
    (List.sublist_cons_self item rest).filterMap _
  exact ⟨single.once.sublist (sublist.map _),
    fun other member => single.known other ((sublist.map _).subset member)⟩

/-- The call of a new listener is due as well. -/
theorem welcome (single : Single c rest w) (l : Listener σ) (nothing : owed c new = [])
    (nextId : (v.cell c).nextId = (w.cell c).nextId + 1) :
    Single c (Live.welcome w c (w.cell c).nextId l ++ new ++ rest) v := by
  have later : (w.cell c).nextId ≤ (v.cell c).nextId := nextId ▸ Nat.le_succ _
  rw [Live.welcome]
  cases (w.cell c).value with
  | none => exact single.congr (by rw [owed_append, owed_append, nothing]; rfl) later
  | some value =>
    have owes : owed c ([Item.tell c (w.cell c).nextId l (some value)] ++ new ++ rest) =
        ((w.cell c).nextId, some value) :: owed c rest := by
      rw [owed_append, owed_append, nothing]
      simp [owed, Item.owed?]
    constructor <;> dsimp only <;> rw [owes, List.map_cons]
    · exact List.nodup_cons.mpr ⟨fun member => Nat.lt_irrefl _ (single.known _ member), single.once⟩
    · refine List.forall_mem_cons.mpr ⟨nextId ▸ Nat.lt_succ_self _, fun other member => ?_⟩
      exact Nat.lt_of_lt_of_le (single.known other member) later

theorem step (single : Single c (item :: rest) w) (rounds : Rounds c (item :: rest) w)
    (sound : (w.cell c).Sound) (here : c < w.cells.length) (plan : Plan σ) :
    Single c ((item.step plan w).1 ++ rest) (item.step plan w).2 := by
  have touch := touches plan here item
  have nextId := (touch.change here).nextId
  generalize (item.step plan w).1 = new, (item.step plan w).2 = w' at touch nextId
  have quiet (nothing : owed c new = []) : Single c (new ++ rest) w' :=
    single.tail.congr (by rw [owed_append, nothing, List.nil_append]) nextId
  cases touch with
  | aside off calm | closed calm => exact quiet (owed_of_calm calm)
  | told | deferred | begun | dropped | kept | drained | turned | unmarked => exact quiet rfl
  | registered | deregistered => exact quiet rfl
  | stored value opened changed =>
    -- all calls of the round before are over, and the new one goes by the list of the cell
    have ended := owed_of_still (rounds.ahead.still_after (beq_self_eq_true c) rfl)
    have owes : (owed c (tellAll c value ((w.cell c).order.arrange (w.cell c).listeners) ++
        [.drain c] ++ rest)).map Prod.fst =
          (w.cell c).order.arrange ((w.cell c).listeners.map Prod.fst) := by
      rw [owed_append, owed_append, ended, owed_tellAll, ← (w.cell c).order.map_arrange]
      simp [owed, Item.owed?, Function.comp_def]
    constructor <;> rw [owes]
    · exact (w.cell c).order.nodup_arrange sound.unique
    · intro other member
      exact Nat.lt_of_lt_of_le (sound.known other ((w.cell c).order.mem_arrange.mp member)) nextId
  | greetedAmid l =>
    have welcomed : Single c (Live.welcome w c (w.cell c).nextId l ++ [] ++ rest)
        (w.listen c l true) :=
      single.tail.welcome l rfl (by rw [World.cell_listen_self w here]; rfl)
    rwa [List.append_nil] at welcomed
  | greeted l =>
    exact single.tail.welcome l rfl (by rw [World.cell_mark_listen_self w here]; rfl)

end Single

theorem Course.single (course : Course plan a u done b v) (underlaid : Underlaid a u)
    (sound : ∀ c, (u.cell c).Sound) (single : Single c a u) : Single c b v :=
  course.preserves (fun _ => Single c)
    (fun _ item rest w reached single => by
      have before := reached.underlaid underlaid
      have after := before.leads (.one plan item rest w)
      rcases Nat.lt_or_ge c w.cells.length with here | beyond
      · exact single.step (before.rounds c) (reached.sound sound c) here plan
      · -- a cell that is only just made has no mark, so nobody is to be told of its value
        refine .of_nothing (owed_of_still ((after.rounds c).still ?_))
        rcases item.step_beyond plan w beyond with gone | ⟨_, _, _, _, _, made⟩
        · rw [gone]
          rfl
        · rw [made])
    (fun _ _ _ _ => .of_nothing rfl) (fun _ _ _ _ _ => .of_nothing rfl)
    (fun _ _ _ _ => .of_nothing rfl)
    (fun _ _ updates _ _ => .of_nothing (owed_of_calm (dispatch_calm plan updates c))) single

/-! ### Who is taken away -/

theorem Item.step_close (plan : Plan σ) (opened : (w.cell c).closed = false) :
    ((Item.close c).step plan w).2.cell c = (w.cell c).shut := by
  have shut := World.cell_modifyCell_self w (World.lt_of_open opened) .shut
  rw [Item.step, if_neg (by simp [opened])]
  dsimp only
  split <;> exact shut

/-- A listener of a number hears at most one of the calls that are due. -/
theorem heard_of_nodup {calls : List (Nat × Option Value)} (once : (calls.map Prod.fst).Nodup) :
    heard id calls = [] ∨ ∃ value, heard id calls = [value] ∧ (id, value) ∈ calls := by
  induction calls with
  | nil => exact .inl rfl
  | cons call rest ih =>
    obtain ⟨other, value⟩ := call
    rw [List.map_cons, List.nodup_cons] at once
    have split : heard id ((other, value) :: rest) = heard id [(other, value)] ++ heard id rest :=
      heard_append [(other, value)] rest
    by_cases same : other = id
    · subst same
      have none : heard other rest = [] := by
        refine List.filterMap_eq_nil_iff.mpr fun call member => if_neg fun same => ?_
        have among : call.1 ∈ rest.map Prod.fst := List.mem_map_of_mem member
        exact once.1 (same ▸ among)
      exact .inr ⟨value, by rw [split, none]; simp [heard], List.mem_cons_self⟩
    · have off : heard id [(other, value)] = [] := by simp [heard, same]
      rw [split, off, List.nil_append]
      rcases ih once.2 with nothing | ⟨told, hears, member⟩
      · exact .inl nothing
      · exact .inr ⟨told, hears, List.mem_cons_of_mem _ member⟩

/-- What a listener hears that has been taken from its cell, when `rest` is still to be done. -/
structure Silenced (plan : Plan σ) (c id : Nat) (rest : List (Item σ)) (w : World σ) : Prop where
  -- At most one call is due, and only in the middle of a round, which tells the value of the cell.
  due : heard id (owed c rest) = [] ∨
    (w.cell c).notifying = true ∧ heard id (owed c rest) = [(w.cell c).value]
  -- As long as nothing is broken off, this call is what the listener hears.
  onward : ∀ agenda v, Leads plan rest w agenda v →
    told c id v.history.reverse ++ heard id (owed c agenda) =
      told c id w.history.reverse ++ heard id (owed c rest)
  -- Whatever happens from then on, it hears nothing else.
  later : ∀ done agenda v, Course plan rest w done agenda v →
    told c id v.history.reverse <+: told c id w.history.reverse ++ heard id (owed c rest)

theorem Silenced.intro (underlaid : Underlaid rest w) (single : Single c rest w)
    (here : c < w.cells.length) (without : (w.cell c).Without id) : Silenced plan c id rest w where
  due := by
    refine (heard_of_nodup single.once).imp_right fun ⟨value, hears, member⟩ => ?_
    obtain ⟨i, among, owes⟩ := List.mem_filterMap.mp member
    cases i with
    | tell d other l told =>
      by_cases same : c = d
      · subst same
        rw [Item.owed?, if_pos rfl] at owes
        cases owes
        exact ⟨(underlaid.rounds c).marked _ among (beq_self_eq_true c),
          by rw [hears, (underlaid.rounds c).told _ _ _ among]⟩
      · rw [Item.owed?, if_neg same] at owes
        cases owes
    | _ => cases owes
  onward agenda v leads := leads.hears_due here without
  later done agenda v course :=
    .trans (List.prefix_append _ _) (course.hears_due here without)

namespace Session

theorem underlaid_fresh (plan : Plan σ) (fuel : Nat) (surroundings : σ)
    (others : List (Option Value × NotifyOrder)) :
    Underlaid [] (freshBeside plan fuel surroundings others).world := by
  have atRest := atRest_after plan fuel surroundings others []
  exact atRest.underlaid (fun _ => rfl) (atRest.idle.covers _) fun _ => List.forall_mem_nil _

theorem sound_fresh (plan : Plan σ) (fuel : Nat) (surroundings : σ)
    (others : List (Option Value × NotifyOrder)) (c : Nat) :
    ((freshBeside plan fuel surroundings others).world.cell c).Sound := by
  rcases freshBeside_cell plan fuel surroundings others c with gone | ⟨value, order, same⟩
  · rw [gone]
    exact ⟨fun _ => rfl, .nil, nofun⟩
  · rw [same]
    exact ⟨fun _ => rfl, .nil, nofun⟩

/-- A listener that was taken from its cell, or whose cell was closed, is never called by a round
that begins later. If a round is under way that has not come to it, that one still calls it. -/
theorem silent_after_the_round (plan : Plan σ) (fuel : Nat) (surroundings : σ)
    (others : List (Option Value × NotifyOrder)) :
    let start := freshBeside plan fuel surroundings others
    start.Charted ∧ ∀ c done rest w,
      (∀ id next, Course plan [] start.world done (.go (.deregister c id next) :: rest) w →
        id < (w.cell c).nextId →
        Silenced plan c id (.go next :: rest)
          ((w.modifyCell c (·.deregister id)).log (.deregistered c id))) ∧
      (Course plan [] start.world done (.close c :: rest) w → (w.cell c).closed = false →
        ∀ id < (w.cell c).nextId,
          Silenced plan c id (((Item.close c).step plan w).1 ++ rest)
            ((Item.close c).step plan w).2) := by
  intro start
  refine ⟨charted plan fuel surroundings others, fun c done rest w => ?_⟩
  have underlaid := underlaid_fresh plan fuel surroundings others
  have sound := sound_fresh plan fuel surroundings others
  have present {w : World σ} {id : Nat} (known : id < (w.cell c).nextId) : c < w.cells.length := by
    refine Nat.lt_of_not_le fun beyond => ?_
    rw [World.cell_of_beyond beyond] at known
    cases known
  have silenced {agenda : List (Item σ)} {v : World σ} {id : Nat} {done : List (Item σ)}
      (course : Course plan [] start.world done agenda v) (without : (v.cell c).Without id) :
      Silenced plan c id agenda v :=
    .intro (course.underlaid underlaid) (course.single underlaid sound (.of_nothing rfl))
      (present without.1) without
  refine ⟨fun id next course known => ?_, fun course opened id known => ?_⟩
  · refine silenced (course.trans (.step .here)) ?_
    have now : ((w.modifyCell c (·.deregister id)).log (.deregistered c id)).cell c =
        (w.cell c).deregister id := World.cell_modifyCell_self w (present known) _
    rw [now]
    refine ⟨known, fun member => ?_⟩
    obtain ⟨entry, among, same⟩ := List.mem_map.mp member
    have other := (List.mem_filter.mp among).2
    simp [same] at other
  · refine silenced (course.trans (.step .here)) ?_
    rw [Item.step_close plan opened]
    exact ⟨known, List.not_mem_nil⟩

/-- Two listeners of a cell, the first of which does something when it is called; then the cell gets
a value. -/
def settingTwo (react : Script Unit) : Script Unit :=
  .register 0 "first" (fun _ => react) fun _ =>
    .register 0 "second" (fun _ => .done .nothing) fun _ =>
      .update 0 (some (.bool true)) fun _ => .done .nothing

/-- The session in which that was done with the only cell that there is. -/
def listeningTwo (react : Script Unit) : Session Unit :=
  (freshBeside { query := ⟨"app", [], none, none⟩ } 20 () [(none, .registration)]).step
    (.perform (settingTwo react))

/-- Here the first listener takes the second one away. -/
theorem silent_after_the_round_settingTwo :
    let start := freshBeside { query := ⟨"app", [], none, none⟩ } 20 () [(none, .registration)]
    ∃ rest w, Silenced start.plan 0 1 rest w ∧ told 0 1 w.history.reverse = [] ∧
      heard 1 (owed 0 rest) = [some (.bool true)] := by
  intro start
  obtain ⟨-, all⟩ := silent_after_the_round start.plan 20 () [(none, .registration)]
  let value := some (Value.bool true)
  let takes : Script Unit := .deregister 0 1 (.done .nothing)
  let sets : Script Unit := .update 0 value fun _ => .done .nothing
  let second : Listener Unit := ⟨"second", fun _ => .done .nothing⟩
  let rest : List (Item Unit) :=
    [.tell 0 1 second value, .drain 0, .unmark 0, .go (.done .nothing)]
  let u := (start.world.listen 0 ⟨"first", fun _ => takes⟩ false).listen 0 second false
  let w := (u.begun 0 value).log (.called 0 0 "first" value)
  have added : Course start.plan [] start.world _ [.go sets] u :=
    .script (settingTwo takes) (.step (.step .here))
  have called : Course start.plan [.go sets] u _ (.go takes :: rest) w :=
    .step (.step (.step (.step .here)))
  exact ⟨_, _, (all 0 _ rest w).1 1 _ (added.trans called) (Nat.lt_succ_self 1), rfl, rfl⟩

/-- A listener is called after it was taken from its cell, or after its cell was closed. -/
theorem called_after_deregistration :
    (∃ earlier later, (listeningTwo (.deregister 0 1 (.done .nothing))).world.history.reverse =
      earlier ++ .deregistered 0 1 :: later ∧
      registrations 0 earlier = [0, 1] ∧ told 0 1 later = [some (.bool true)]) ∧
    ∃ earlier later, (listeningTwo (.close 0 (.done .nothing))).world.history.reverse =
      earlier ++ .cellClosed 0 :: later ∧
      registrations 0 earlier = [0, 1] ∧ told 0 1 later = [some (.bool true)] :=
  ⟨⟨[_, _, _, _], [_], rfl, rfl, rfl⟩, [_, _, _, _], [_], rfl, rfl, rfl⟩

end Session

end LayeredConfig.Live
