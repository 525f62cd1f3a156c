import LayeredConfig.Proofs.Live.Ledger
import LayeredConfig.Proofs.Live.Simulation
import LayeredConfig.Proofs.Live.Touch
/-!
# Delivery of values to listeners

Listeners may update, register, deregister and close whatever cell they like while they are called,
also the one that is calling them. Still everybody who listens to a cell in the end has heard of
each value that was stored in it since, once and in order: `delivered_in_order`.

The agenda knows what is still to be done. The work for a cell that stands on it is always the rest
of one round, whatever work for other cells stands in between (`Round`), and the calls in it are the
ones that the ledger of the cell has down as owed.
-/
namespace LayeredConfig.Live

variable {σ : Type}

open Story

/-- The rest of a round: calls, and then either the next update or the end. -/
inductive Round (c : Nat) : List (Item σ) → Prop where
  | unmark : Round c [.unmark c]
  | apply (value : Option Value) : Round c [.apply c value, .unmark c]
  | drain : Round c [.drain c, .unmark c]
  | tell {rest} (id : Nat) (l : Listener σ) (value : Option Value) :
    Round c rest → Round c (.tell c id l value :: rest)

namespace Round

variable {c : Nat} {agenda : List (Item σ)}

theorem after_apply {value : Option Value} (round : Round c (.apply c value :: agenda)) :
    agenda = [.unmark c] := by
  cases round with | apply => rfl

theorem after_drain (round : Round c (.drain c :: agenda)) : agenda = [.unmark c] := by
  cases round with | drain => rfl

theorem after_unmark (round : Round c (.unmark c :: agenda)) : agenda = [] := by
  cases round with | unmark => rfl

theorem after_tell {id : Nat} {l : Listener σ} {value : Option Value}
    (round : Round c (.tell c id l value :: agenda)) : Round c agenda := by
  cases round with | tell _ _ _ later => exact later

end Round

/-- The work for a cell on an agenda. -/
def work (c : Nat) (agenda : List (Item σ)) : List (Item σ) := agenda.filter (·.about c)

/-- The call of a listener of a cell that the work is. -/
def Item.owed? (c : Nat) : Item σ → Option (Nat × Option Value)
  | .tell d id _ value => if c = d then some (id, value) else none
  | _ => none

/-- The calls of listeners of a cell on an agenda. -/
def owed (c : Nat) (agenda : List (Item σ)) : List (Nat × Option Value) :=
  agenda.filterMap (·.owed? c)

/-- What holds of a cell at every moment: `base` is what had happened before the story began. -/
structure Kept (c : Nat) (base : List Event) (start : Option Value) (order : NotifyOrder)
    (story : List Event) (agenda : List (Item σ)) (w : World σ) : Prop where
  here : c < w.cells.length
  history : w.history = story.reverse ++ base
  order : (w.cell c).order = order
  marked : (w.cell c).notifying = true → Round c (work c agenda)
  unmarked : (w.cell c).notifying = false → work c agenda = []
  ledger : Ledger c start story (owed c agenda) (w.cell c)

variable {c : Nat} {start : Option Value} {story base : List Event} {order : NotifyOrder}
  {item : Item σ} {a b rest new : List (Item σ)} {w w' : World σ}

@[simp] theorem work_append : work c (a ++ b) = work c a ++ work c b := List.filter_append a b

@[simp] theorem owed_append : owed c (a ++ b) = owed c a ++ owed c b := List.filterMap_append

theorem work_of_calm (calm : ∀ i ∈ new, i.about c = false) : work c new = [] :=
  List.filter_eq_nil_iff.mpr fun i member => by simp [calm i member]

theorem owed_of_calm (calm : ∀ i ∈ new, i.about c = false) : owed c new = [] := by
  rw [owed, List.filterMap_eq_nil_iff]
  intro i member
  have off := calm i member
  cases i with
  | tell d id l value => exact if_neg (by simpa [Item.about] using off)
  | _ => rfl

/-- What is owed stands in the work for the cell. -/
theorem owed_of_work (agenda : List (Item σ)) : owed c (work c agenda) = owed c agenda := by
  rw [owed, owed, work, List.filterMap_filter]
  congr 1
  funext i
  cases i with
  | tell d id l value => by_cases same : c = d <;> simp [Item.about, Item.owed?, same]
  | _ => simp [Item.owed?]

theorem Ledger.silentAll {calls : List (Nat × Option Value)} {cell : Cell σ}
    (ledger : Ledger c start story calls cell) (events : List Event)
    (silent : ∀ e ∈ events, e.about c = false) :
    Ledger c start (story ++ events) calls cell := by
  induction events generalizing story with
  | nil => simpa using ledger
  | cons e rest ih =>
    have first := ledger.silent (silent e List.mem_cons_self)
    have := ih first fun x member => silent x (List.mem_cons_of_mem _ member)
    rwa [List.append_assoc] at this

theorem work_cons_of_about (on : item.about c = true) :
    work c (item :: rest) = item :: work c rest :=
  List.filter_cons_of_pos on

theorem work_cons_of_off (off : item.about c = false) : work c (item :: rest) = work c rest :=
  List.filter_cons_of_neg (by simp [off])

theorem owed_cons_of_off (off : item.about c = false) : owed c (item :: rest) = owed c rest := by
  have nothing : owed c [item] = [] := owed_of_calm (by simpa using off)
  have := owed_append (c := c) (a := [item]) (b := rest)
  rwa [nothing] at this

theorem owed_tellAll (value : Option Value) (listeners : List (Nat × Listener σ)) :
    owed c (tellAll c value listeners) =
      (listeners.map Prod.fst).map fun id => (id, value) := by
  rw [owed, tellAll, List.filterMap_map, List.map_map, ← List.filterMap_eq_map]
  congr 1
  funext call
  simp [Item.owed?]

theorem work_of_about (on : ∀ i ∈ new, i.about c = true) : work c new = new :=
  List.filter_eq_self.mpr on

theorem about_tellAll (value : Option Value) (listeners : List (Nat × Listener σ)) :
    ∀ i ∈ tellAll c value listeners, i.about c = true := by
  intro i called
  obtain ⟨listener, _, rfl⟩ := List.mem_map.mp called
  exact beq_self_eq_true c

theorem Round.tellAll (value : Option Value) (listeners : List (Nat × Listener σ))
    {agenda : List (Item σ)} (round : Round c agenda) :
    Round c (Live.tellAll c value listeners ++ agenda) := by
  induction listeners with
  | nil => exact round
  | cons first others ih => exact .tell first.1 first.2 value ih

/-- A new listener is called with the value of the cell, as the story knows it. -/
theorem owed_welcome (w : World σ) (id : Nat) (l : Listener σ)
    (value : (w.cell c).value = valueAfter c start story) :
    owed c (welcome w c id l) =
      (greeting c start story true).map fun value => (id, value) := by
  rw [welcome, greeting, if_pos rfl, ← value]
  cases (w.cell c).value with
  | none => rfl
  | some value => simp [owed, Item.owed?]

theorem work_welcome (w : World σ) (id : Nat) (l : Listener σ) :
    work c (welcome w c id l) = welcome w c id l := by
  refine work_of_about fun i called => ?_
  obtain ⟨value, -, rfl⟩ := mem_welcome.mp called
  exact beq_self_eq_true c

theorem Round.welcome (w : World σ) (id : Nat) (l : Listener σ) {agenda : List (Item σ)}
    (round : Round c agenda) : Round c (Live.welcome w c id l ++ agenda) := by
  rw [Live.welcome]
  split
  · exact .tell _ _ _ round
  · exact round

namespace Kept

/-- Work for a cell stands on the agenda only while the cell is marked. -/
theorem marked_of_about (kept : Kept c base start order story (item :: rest) w)
    (on : item.about c = true) :
    (w.cell c).notifying = true ∧ Round c (item :: work c rest) := by
  cases mark : (w.cell c).notifying with
  | true => exact ⟨rfl, work_cons_of_about on ▸ kept.marked mark⟩
  | false =>
    have none := kept.unmarked mark
    rw [work_cons_of_about on] at none
    cases none

/-- A piece of work is done that is not for the cell and brings none for it. -/
theorem aside (kept : Kept c base start order story (item :: rest) w)
    (off : item.about c = false) (calm : ∀ i ∈ new, i.about c = false)
    (here : c < w'.cells.length) (alike : (w.cell c).Alike (w'.cell c))
    (notifying : (w'.cell c).notifying = (w.cell c).notifying) (events : List Event)
    (history : w'.history = events ++ w.history) (silent : ∀ e ∈ events, e.about c = false) :
    ∃ story', Kept c base start order story' (new ++ rest) w' := by
  have sameWork : work c (new ++ rest) = work c (item :: rest) := by
    rw [work_append, work_of_calm calm, work_cons_of_off off, List.nil_append]
  have sameOwed : owed c (new ++ rest) = owed c (item :: rest) := by
    rw [owed_append, owed_of_calm calm, owed_cons_of_off off, List.nil_append]
  exact ⟨story ++ events.reverse, {
    here
    history := by rw [history, kept.history]; simp
    order := by rw [alike.order, kept.order]
    marked := fun mark => by
      rw [sameWork]
      exact kept.marked (notifying ▸ mark)
    unmarked := fun mark => by
      rw [sameWork]
      exact kept.unmarked (notifying ▸ mark)
    ledger := by
      rw [sameOwed]
      have later := kept.ledger.silentAll events.reverse fun e member =>
        silent e (List.mem_reverse.mp member)
      exact later.congr alike }⟩

/-- The cell stays marked, and its round goes on with other work. -/
theorem onward (kept : Kept c base start order story (item :: rest) w)
    (here : c < w'.cells.length) (alike : (w.cell c).Alike (w'.cell c))
    (notifying : (w'.cell c).notifying = true) (history : w'.history = w.history)
    (round : Round c (work c (new ++ rest)))
    (sameOwed : owed c (new ++ rest) = owed c (item :: rest)) :
    Kept c base start order story (new ++ rest) w' where
  here
  history := by rw [history, kept.history]
  order := by rw [alike.order, kept.order]
  marked _ := round
  unmarked mark := by rw [mark] at notifying; cases notifying
  ledger := by
    rw [sameOwed]
    exact kept.ledger.congr alike

theorem told {id : Nat} {l : Listener σ} {value : Option Value}
    (kept : Kept c base start order story (.tell c id l value :: rest) w) :
    Kept c base start order (story ++ [.called c id l.name value]) (.go (l.react value) :: rest)
      (w.log (.called c id l.name value)) := by
  obtain ⟨mark, round⟩ := kept.marked_of_about (beq_self_eq_true c)
  have owes : owed c (.tell c id l value :: rest) = (id, value) :: owed c rest := by
    simp [owed, Item.owed?]
  exact {
    here := kept.here
    history := by simp [World.log, kept.history]
    order := kept.order
    marked := fun _ => round.after_tell
    unmarked := fun unmarked => by
      rw [World.cell_log, mark] at unmarked
      cases unmarked
    ledger := (owes ▸ kept.ledger).told l.name }

theorem begun {value : Option Value}
    (kept : Kept c base start order story (.put c value :: rest) w)
    (unmarked : (w.cell c).notifying = false) :
    Kept c base start order story ([.apply c value, .unmark c] ++ rest) (w.modifyCell c .mark) := by
  have calm : work c rest = [] := kept.unmarked unmarked
  have now := World.cell_modifyCell_self w kept.here .mark
  have here : c < (w.modifyCell c .mark).cells.length := by simpa [World.modifyCell] using kept.here
  refine kept.onward here ?_ (by rw [now]; rfl) rfl ?_ rfl
  · rw [now]
    exact ⟨rfl, rfl, rfl, .refl _⟩
  · rw [work_append, calm, List.append_nil, work_of_about (by simp [Item.about])]
    exact .apply value

/-- An update is applied: the round is then a row of calls, and as no call is owed any more all
listeners can be called. -/
theorem stored {value : Option Value}
    (kept : Kept c base start order story (.apply c value :: rest) w)
    (changed : ((w.cell c).value == value) = false) :
    Kept c base start order (story ++ [.stored c value])
      ((tellAll c value ((w.cell c).order.arrange (w.cell c).listeners) ++ [.drain c]) ++ rest)
      ((w.modifyCell c fun cell => { cell with value }).log (.stored c value)) := by
  obtain ⟨mark, round⟩ := kept.marked_of_about (beq_self_eq_true c)
  -- an update is applied only when no call is left in the round, so nothing is owed
  have last : work c rest = [.unmark c] := round.after_apply
  have restOwes : owed c rest = [] := by rw [← owed_of_work, last]; rfl
  have settled : owed c (.apply c value :: rest) = [] := restOwes
  have now : ((w.modifyCell c fun cell => { cell with value }).log (.stored c value)).cell c =
      { w.cell c with value } := World.cell_modifyCell_self w kept.here _
  exact {
    here := by simpa [World.modifyCell, World.log] using kept.here
    history := by simp [World.log, World.modifyCell, kept.history]
    order := by rw [now, kept.order]
    marked := fun _ => by
      have drains : work c [.drain c] = [(.drain c : Item σ)] :=
        work_of_about (by simp [Item.about])
      rw [work_append, work_append, work_of_about (about_tellAll value _), last, List.append_assoc,
        drains]
      exact .tellAll value _ .drain
    unmarked := fun unmarked => by
      rw [now] at unmarked
      exact absurd mark (by simpa using unmarked)
    ledger := by
      have drainOwes : owed c [(.drain c : Item σ)] = [] := rfl
      rw [now, owed_append, owed_append, owed_tellAll, drainOwes, restOwes, List.append_nil,
        List.append_nil, NotifyOrder.map_arrange]
      exact (settled ▸ kept.ledger).stored changed }

theorem unmark (kept : Kept c base start order story (.unmark c :: rest) w) :
    Kept c base start order story rest (w.modifyCell c .unmark) := by
  obtain ⟨mark, round⟩ := kept.marked_of_about (beq_self_eq_true c)
  have now := World.cell_modifyCell_self w kept.here .unmark
  exact {
    here := by simpa [World.modifyCell] using kept.here
    history := kept.history
    order := by rw [now]; exact kept.order
    marked := fun marked => by
      rw [now] at marked
      cases marked
    unmarked := fun _ => round.after_unmark
    ledger := by
      rw [now]
      exact kept.ledger.congr ⟨rfl, rfl, rfl, .refl _⟩ }

/-- A listener is added, and what is to be done for the cell may begin with a call of it. -/
theorem listening (kept : Kept c base start order story (item :: rest) w)
    (marking : Cell σ → Cell σ) (l : Listener σ) (atOnce : Bool)
    (off : item.about c = false)
    (now : w'.cell c = (marking (w.cell c)).register l) (here : c < w'.cells.length)
    (marks : ∀ cell, marking cell = cell ∨ marking cell = cell.mark)
    (history : w'.history = .registered c (w.cell c).nextId atOnce :: w.history)
    (sameOwed : owed c (new ++ rest) =
      ((greeting c start story atOnce).map fun value => ((w.cell c).nextId, value)) ++ owed c rest)
    (marked : (w'.cell c).notifying = true → Round c (work c (new ++ rest)))
    (unmarked : (w'.cell c).notifying = false → work c (new ++ rest) = []) :
    Kept c base start order (story ++ [.registered c (w.cell c).nextId atOnce]) (new ++ rest)
      w' := by
  have owes : owed c (item :: rest) = owed c rest := owed_cons_of_off off
  have registered := (owes ▸ kept.ledger).registered l atOnce
  refine { here, marked, unmarked, history := ?_, order := ?_, ledger := ?_ }
  · rw [history, kept.history]
    simp
  · rw [now]
    rcases marks (w.cell c) with same | same <;> rw [same] <;> exact kept.order
  · rw [now, sameOwed]
    rcases marks (w.cell c) with same | same <;> rw [same]
    · exact registered
    · exact registered.congr ⟨rfl, rfl, rfl, .refl _⟩

/-- Every step keeps what holds of a cell, along the list of what a step can do to it. -/
theorem step (plan : Plan σ) (kept : Kept c base start order story (item :: rest) w) :
    ∃ story', Kept c base start order story' ((item.step plan w).1 ++ rest)
      (item.step plan w).2 := by
  have touch := touches plan kept.here item
  have here' : c < (item.step plan w).2.cells.length :=
    Nat.lt_of_lt_of_le kept.here (Item.step_cells plan w item)
  generalize (item.step plan w).1 = new, (item.step plan w).2 = w' at touch here'
  have modified (f : Cell σ → Cell σ) : (w.modifyCell c f).cell c = f (w.cell c) :=
    World.cell_modifyCell_self w kept.here f
  have same : (w.cell c).Alike (w.cell c) := ⟨rfl, rfl, rfl, .refl _⟩
  cases touch with
  | aside off calm same events history silent =>
    obtain ⟨hook, same⟩ := same
    refine kept.aside off calm here' ?_ (by rw [same]) events history fun e he => (silent e he).1
    rw [same]
    exact ⟨rfl, rfl, rfl, .refl _⟩
  | told id l value => exact ⟨_, kept.told⟩
  | deferred value opened marked =>
    -- what is put off is no part of the story until it is stored
    have now := modified (·.defer value)
    refine kept.aside rfl nofun here' ?_ (by rw [World.cell_log, now]; rfl) [.deferred c value] rfl
      (by simp [Event.about])
    rw [World.cell_log, now]
    exact ⟨rfl, rfl, rfl, .refl _⟩
  | begun value opened unmarked => exact ⟨_, kept.begun unmarked⟩
  | dropped value closed =>
    obtain ⟨mark, round⟩ := kept.marked_of_about (beq_self_eq_true c)
    refine ⟨_, kept.onward here' same mark rfl ?_ rfl⟩
    rw [List.nil_append, round.after_apply]
    exact .unmark
  | kept value opened equal =>
    obtain ⟨mark, round⟩ := kept.marked_of_about (beq_self_eq_true c)
    refine ⟨_, kept.onward here' same mark rfl ?_ rfl⟩
    rw [work_append, work_of_about (by simp [Item.about]), round.after_apply]
    exact .drain
  | stored value opened changed => exact ⟨_, kept.stored changed⟩
  | drained nothing =>
    obtain ⟨mark, round⟩ := kept.marked_of_about (beq_self_eq_true c)
    refine ⟨_, kept.onward here' same mark rfl ?_ rfl⟩
    rw [List.nil_append, round.after_drain]
    exact .unmark
  | turned value later waiting =>
    obtain ⟨mark, round⟩ := kept.marked_of_about (beq_self_eq_true c)
    have now := modified fun cell => { cell with deferred := later }
    refine ⟨_, kept.onward here' ?_ (by rw [now]; exact mark) rfl ?_ rfl⟩
    · rw [now]
      exact ⟨rfl, rfl, rfl, .refl _⟩
    · rw [work_append, work_of_about (by simp [Item.about]), round.after_drain]
      exact .apply value
  | unmarked => exact ⟨_, kept.unmark⟩
  | registered script next l =>
    refine ⟨_, kept.listening id l false rfl (modified _) here' (fun _ => .inl rfl) rfl rfl
      (fun mark => kept.marked ?_) fun mark => kept.unmarked ?_⟩
    all_goals rwa [World.cell_listen_self w kept.here] at mark
  | greetedAmid l marked =>
    -- the call comes before what is left of the round
    refine ⟨_, kept.listening id l true rfl (modified _) here' (fun _ => .inl rfl)
      rfl ?_ (fun _ => ?_) fun unmarked => ?_⟩
    · rw [owed_append, owed_welcome w _ l kept.ledger.value]
    · rw [work_append, work_welcome]
      exact .welcome w _ l (kept.marked marked)
    · rw [World.cell_listen_self w kept.here, Cell.register, marked] at unmarked
      cases unmarked
  | greeted l unmarked =>
    have now := World.cell_mark_listen_self w kept.here l true
    -- nobody is notifying, so the call begins a round of its own
    have calm : work c rest = [] := kept.unmarked unmarked
    refine ⟨_, kept.listening .mark l true rfl now here' (fun _ => .inr rfl) ?_ ?_
      (fun _ => ?_) fun unmarked => ?_⟩
    · rw [World.listen, modified]
      rfl
    · rw [owed_append, owed_append, owed_welcome w _ l kept.ledger.value]
      simp [owed, Item.owed?]
    · rw [work_append, work_append, work_welcome, calm, List.append_nil,
        work_of_about (by simp [Item.about])]
      exact .welcome w _ l .drain
    · rw [now] at unmarked
      cases unmarked
  | deregistered script next id =>
    have now := modified (·.deregister id)
    refine kept.aside rfl (by simp [Item.about]) here' ?_ (by rw [World.cell_log, now]; rfl)
      [.deregistered c id] rfl (by simp [Event.about])
    rw [World.cell_log, now]
    exact ⟨rfl, rfl, rfl, List.filter_sublist⟩
  | closed calm opened same events history silent =>
    refine kept.aside rfl calm here' ?_ (by rw [same]; rfl) events history fun e he =>
      (silent e he).1
    rw [same]
    exact ⟨rfl, rfl, rfl, List.nil_sublist _⟩

/-- What holds of a cell holds of it wherever steps lead. -/
theorem leads {plan : Plan σ} (kept : Kept c base start order story a w)
    (leads : Leads plan a w b w') : ∃ story', Kept c base start order story' b w' :=
  leads.preserves (fun agenda u => ∃ story', Kept c base start order story' agenda u)
    (fun _ _ _ ⟨_, kept⟩ => kept.step plan) ⟨story, kept⟩

end Kept

/-- A story tells of a cell that ends with a value and with listeners. Each listener got a number of
its own. Those who listen in the end heard the value that they were greeted with and then every
value that was stored since; of two values in a row they never heard that are equal, and the last
one is the value of the cell. In each round the listeners are called in the order of the cell. -/
structure ToldInOrder (c : Nat) (start : Option Value) (story : List Event) (cell : Cell σ) :
    Prop where
  value : cell.value = valueAfter c start story
  numbers : (registrations c story).Pairwise (· < ·)
  delivered : ∀ id ∈ cell.listeners.map Prod.fst, Delivered c start story id (told c id story)
  noRepeats : ∀ id ∈ cell.listeners.map Prod.fst,
    (told c id story).IsChain fun a b => (a == b) = false
  current : ∀ id ∈ cell.listeners.map Prod.fst, ∀ value ∈ (told c id story).getLast?,
    value = cell.value
  rounds : ∀ earlier value later, story = earlier ++ .stored c value :: later →
    (round c earlier later).Sublist (cell.order.arrange (registrations c earlier))

/-- A greeting repeats the value of the cell, or it is empty. -/
theorem greeting_cases (c : Nat) (start : Option Value) (story : List Event) (atOnce : Bool) :
    greeting c start story atOnce = [] ∨
      greeting c start story atOnce = [valueAfter c start story] := by
  cases atOnce with
  | false => exact .inl rfl
  | true =>
    rw [greeting, if_pos rfl]
    cases valueAfter c start story with
    | none => exact .inl rfl
    | some value => exact .inr rfl

namespace Delivered

variable {id : Nat} {values : List (Option Value)}

/-- What a listener has heard ends what the cell has held. -/
theorem suffix (delivered : Delivered c start story id values) :
    values <:+ start :: stores c story := by
  obtain ⟨earlier, atOnce, later, rfl, rfl⟩ := delivered
  have all : start :: stores c (earlier ++ .registered c id atOnce :: later) =
      (start :: stores c earlier) ++ stores c later := by
    rw [stores_append, List.cons_append]
    rfl
  rw [all]
  rcases greeting_cases c start earlier atOnce with none | held
  · rw [none, List.nil_append]
    exact List.suffix_append _ _
  · -- the greeting is the last value that the cell held before
    have last : (start :: stores c earlier).getLast? = some (valueAfter c start earlier) :=
      getLast?_cons_stores start
    obtain ⟨before, held'⟩ := List.getLast?_eq_some_iff.mp last
    rw [held, held', List.append_assoc]
    exact List.suffix_append _ _

end Delivered

theorem Ledger.toldInOrder {cell : Cell σ} (ledger : Ledger c start story [] cell) :
    ToldInOrder c start story cell := by
  have delivered : ∀ id ∈ cell.listeners.map Prod.fst,
      Delivered c start story id (Story.told c id story) := fun id listens => by
    have := ledger.delivered id listens
    rwa [List.append_nil] at this
  exact {
    value := ledger.value
    numbers := ledger.numbers
    delivered
    noRepeats := fun id listens => ledger.changes.suffix (delivered id listens).suffix
    current := fun id listens value last => by
      obtain ⟨before, all⟩ := (delivered id listens).suffix
      have held : (start :: stores c story).getLast? = some (valueAfter c start story) :=
        getLast?_cons_stores start
      rw [← all, List.getLast?_append, last, Option.some_or] at held
      rw [ledger.value, Option.some_inj.mp held]
    rounds := fun earlier value later h => by
      have := ledger.rounds earlier value later h
      rwa [pending_nil, List.append_nil] at this }

/-- A script runs, and whatever it does to whatever cells comes to its end. Then a cell that nobody
had listened to before has told its listeners all they had to hear, in order. -/
theorem delivered_in_order (plan : Plan σ) (fuel : Nat) (script : Script σ) {w w' : World σ}
    {reply : Reply} {c : Nat} (here : c < w.cells.length) (unheard : (w.cell c).listeners = [])
    (unmarked : (w.cell c).notifying = false)
    (ran : (run plan fuel script).run.run w = (.ok reply, w')) :
    ∃ story, w'.history = story.reverse ++ w.history ∧ (w'.cell c).order = (w.cell c).order ∧
      ToldInOrder c (w.cell c).value story (w'.cell c) := by
  have leads := (carries plan fuel).run w script
  rw [ran] at leads
  have start : Kept c w.history (w.cell c).value (w.cell c).order [] [.go script] w := {
    here
    history := rfl
    order := rfl
    marked := fun mark => by
      rw [unmarked] at mark
      cases mark
    unmarked := fun _ => rfl
    ledger := .new rfl unheard }
  obtain ⟨story, kept⟩ := start.leads leads
  exact ⟨story, kept.history, kept.order, kept.ledger.toldInOrder⟩

/-- A listener sets its own cell again while it is called for the first time. -/
def setTwice : Script Unit :=
  .register 0 "again"
    (fun _ => .update 0 (some (.bool true)) fun _ => .done .nothing)
    fun _ => .update 0 (some (.bool false)) fun _ => .done .nothing

theorem setTwice_delivered_in_order :
    let plan : Plan Unit := { query := ⟨"app", [], none, none⟩ }
    let w : World Unit := { cells := [{}], surroundings := () }
    let w' := ((run plan 20 setTwice).run.run w).2
    ∃ story, w'.history = story.reverse ++ w.history ∧ (w'.cell 0).order = (w.cell 0).order ∧
      ToldInOrder 0 (w.cell 0).value story (w'.cell 0) := by
  intro plan w w'
  have ran : (run plan 20 setTwice).run.run w = (.ok .nothing, w') := rfl
  exact delivered_in_order plan 20 setTwice (Nat.zero_lt_one) rfl rfl ran

end LayeredConfig.Live
