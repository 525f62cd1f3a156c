import LayeredConfig.Proofs.Live.Change
import LayeredConfig.Proofs.Live.Delivery
import LayeredConfig.Proofs.Live.InStep
import LayeredConfig.Proofs.Live.Line
/-!
# Updates queue up

An update of a cell that nobody is notifying sets off everything that follows from it: listeners are
called, they may update the same cell again, directly or through other cells, and all these updates
are done with before the first one returns. They are served as a queue: `updates_queue_up`. The same
is true of the call of a listener that is added and called at once.

What is left to do for the cell has one of few shapes at every moment (`Busy`), and each step leads
from one of them to another. Mark and queue go together: the mark is taken back right after the
queue was found empty, so that nothing is forgotten with it.
-/
namespace LayeredConfig.Live

variable {σ : Type}

open Story

variable {c : Nat} {item : Item σ} {new rest agenda : List (Item σ)} {w w' v : World σ}

/-- The update of a cell that a piece of work asks for. -/
def Item.asks (c : Nat) : Item σ → List (Option Value)
  | .put d value => if c = d then [value] else []
  | _ => []

/-- An update of a cell whose listeners are being called is put off. -/
theorem Item.step_put_of_marked (plan : Plan σ) (opened : (w.cell c).closed = false)
    (marked : (w.cell c).notifying = true) (value : Option Value) :
    (Item.put c value).step plan w =
      ([], (w.modifyCell c (·.defer value)).log (.deferred c value)) := by
  rw [Item.step, if_neg (by simp [opened]), if_pos marked]

theorem Item.asks_cases (c : Nat) (item : Item σ) :
    (∃ value, item = .put c value) ∨ item.asks c = [] := by
  cases item with
  | put d value =>
    by_cases same : c = d
    · exact .inl ⟨value, by rw [same]⟩
    · exact .inr (if_neg same)
  | _ => exact .inr rfl

/-- Steps lead from one agenda and world to others, and on the way some updates of a cell are asked
for. -/
inductive Asks (plan : Plan σ) (c : Nat) :
    List (Item σ) → World σ → List (Option Value) → List (Item σ) → World σ → Prop where
  | here {agenda : List (Item σ)} {w : World σ} : Asks plan c agenda w [] agenda w
  | step {item : Item σ} {rest agenda' : List (Item σ)} {w w' : World σ}
    {asked : List (Option Value)} :
    Asks plan c ((item.step plan w).1 ++ rest) (item.step plan w).2 asked agenda' w' →
    Asks plan c (item :: rest) w (item.asks c ++ asked) agenda' w'

/-- Wherever steps lead, some updates were asked for. -/
theorem Leads.asks {plan : Plan σ} {a b : List (Item σ)} (leads : Leads plan a w b v) (c : Nat) :
    ∃ asked, Asks plan c a w asked b v := by
  induction leads with
  | here => exact ⟨[], .here⟩
  | step _ ih =>
    obtain ⟨asked, asks⟩ := ih
    exact ⟨_, .step asks⟩

theorem Asks.leads {plan : Plan σ} {a b : List (Item σ)} {asked : List (Option Value)}
    (asks : Asks plan c a w asked b v) : Leads plan a w b v := by
  induction asks with
  | here => exact .here
  | step _ ih => exact .step ih

/-- Work on an agenda that is for a cell and is a call of one of its listeners. -/
def Item.tells : Item σ → Bool
  | .tell .. => true
  | _ => false

/-- What is still to be done for a cell, with the update that is just being applied and those that
wait for their turn. -/
inductive Busy (c : Nat) : List (Option Value) → List (Option Value) → List (Item σ) → Prop where
  | applies (value : Option Value) (waiting : List (Option Value)) :
    Busy c [value] waiting [.apply c value, .unmark c]
  -- Listeners are called, and do whatever they like.
  | tells {now : List (Item σ)} (calls : ∀ i ∈ now, i.about c = true → i.tells = true)
    (waiting : List (Option Value)) : Busy c [] waiting (now ++ [.drain c, .unmark c])
  | ends : Busy c [] [] [.unmark c]

theorem Busy.ne_nil {applying waiting : List (Option Value)}
    (busy : Busy c applying waiting agenda) : agenda ≠ [] := by
  cases busy <;> simp

/-- A moment at which a cell is open and its updates are served in turn: those that were made from
outside, and those that were asked for in the course of the story. -/
structure Serving (c : Nat) (start : Option Value) (ids : List Nat)
    (first asked : List (Option Value)) (base story : List Event) (applying : List (Option Value))
    (agenda : List (Item σ)) (w : World σ) : Prop where
  here : c < w.cells.length
  opened : (w.cell c).closed = false
  history : w.history = story.reverse ++ base
  asked : deferrals c story = asked
  marked : (w.cell c).notifying = true
  busy : Busy c applying (w.cell c).deferred agenda
  line : Line c start ids first story applying (owed c agenda) (w.cell c)

/-- All updates of an open cell have been served. -/
structure Served (c : Nat) (start : Option Value) (ids : List Nat)
    (first asked : List (Option Value)) (base story : List Event) (w : World σ) : Prop where
  history : w.history = story.reverse ++ base
  asked : deferrals c story = asked
  opened : (w.cell c).closed = false
  unmarked : (w.cell c).notifying = false
  idle : (w.cell c).deferred = []
  line : Line c start ids first story [] [] (w.cell c)

/-- How far an open cell has come with its updates. -/
def Underway (c : Nat) (start : Option Value) (ids : List Nat) (first asked : List (Option Value))
    (base : List Event) (agenda : List (Item σ)) (w : World σ) : Prop :=
  (∃ story applying, Serving c start ids first asked base story applying agenda w) ∨
    agenda = [] ∧ ∃ story, Served c start ids first asked base story w

variable {start : Option Value} {ids : List Nat} {first asked applying : List (Option Value)}
  {base story : List Event}

namespace Serving

/-- The cell stays open and marked, and its updates go on. -/
theorem onward (serving : Serving c start ids first asked base story applying agenda w)
    (events : List Event)
    {asked' applying' : List (Option Value)} {agenda' : List (Item σ)}
    (here : c < v.cells.length) (opened : (v.cell c).closed = (w.cell c).closed)
    (marked : (v.cell c).notifying = (w.cell c).notifying)
    (history : v.history = events ++ w.history)
    (asks : asked ++ deferrals c events.reverse = asked')
    (busy : Busy c applying' (v.cell c).deferred agenda')
    (line :
      Line c start ids first (story ++ events.reverse) applying' (owed c agenda') (v.cell c)) :
    Underway c start ids first asked' base agenda' v :=
  .inl ⟨story ++ events.reverse, applying', {
    here
    opened := opened.trans serving.opened
    history := by rw [history, serving.history]; simp
    asked := by rw [deferrals_append, serving.asked, asks]
    marked := marked.trans serving.marked
    busy
    line }⟩

variable {plan : Plan σ}

/-- A piece of work before the next update is turned to. -/
theorem amid {now : List (Item σ)}
    (serving :
      Serving c start ids first asked base story [] (item :: now ++ [.drain c, .unmark c]) w)
    (calls : ∀ i ∈ item :: now, i.about c = true → i.tells = true) (quiet : item.asks c = []) :
    ((item.step plan w).2.cell c).closed = true ∨
      Underway c start ids first asked base
        ((item.step plan w).1 ++ (now ++ [.drain c, .unmark c])) (item.step plan w).2 := by
  have here := serving.here
  have here' := Nat.lt_of_lt_of_le here (Item.step_cells plan w item)
  have touch := touches plan here item
  generalize (item.step plan w).1 = new, (item.step plan w).2 = w' at touch here'
  have modified (f : Cell σ → Cell σ) : (w.modifyCell c f).cell c = f (w.cell c) :=
    World.cell_modifyCell_self w here f
  -- the rest of the agenda owes no call
  have tail (a : List (Item σ)) : owed c (a ++ [.drain c, .unmark c]) = owed c a := by
    rw [owed_append]
    exact List.append_nil _
  have line := serving.line
  rw [tail] at line
  have busy {new : List (Item σ)} (calls' : ∀ i ∈ new, i.about c = true → i.tells = true)
      (waiting : List (Option Value)) :
      Busy c [] waiting (new ++ (now ++ [.drain c, .unmark c])) := by
    rw [← List.append_assoc]
    refine .tells (fun i among => ?_) waiting
    rcases List.mem_append.mp among with among | among
    · exact calls' i among
    · exact calls i (List.mem_cons_of_mem _ among)
  have calm {new : List (Item σ)} (calm : ∀ i ∈ new, i.about c = false) :
      ∀ i ∈ new, i.about c = true → i.tells = true := fun i among on => by
    rw [calm i among] at on
    cases on
  -- of the work for the cell, only calls come before the next update
  have wrong (on : item.about c = true) (other : item.tells = false) : False := by
    have tells := calls item List.mem_cons_self on
    rw [other] at tells
    cases tells
  cases touch with
  | aside off calm' same events history silent =>
    obtain ⟨hook, same⟩ := same
    have asksNothing : deferrals c events.reverse = [] :=
      deferrals_of_quiet fun e member => (silent e (List.mem_reverse.mp member)).2
    refine .inr (serving.onward events here' (by rw [same]) (by rw [same]) history
      (by rw [asksNothing, List.append_nil]) (busy (calm calm') _) ?_)
    rw [← List.append_assoc, tail, owed_append, owed_of_calm calm', List.nil_append]
    rw [owed_cons_of_off off] at line
    have later := line.silentAll events.reverse
      (fun e member => (silent e (List.mem_reverse.mp member)).1)
      fun e member => (silent e (List.mem_reverse.mp member)).2
    rw [same]
    exact later.congr rfl rfl rfl rfl rfl
  | told id l value =>
    refine .inr (serving.onward [.called c id l.name value] here' rfl rfl rfl
      (List.append_nil _) (busy (by simp [Item.about]) _) ?_)
    have owes : owed c (.tell c id l value :: now) = (id, value) :: owed c now := by
      simp [owed, Item.owed?]
    rw [owes] at line
    rw [← List.append_assoc, tail, owed_append, owed_of_calm (by simp [Item.about]),
      List.nil_append]
    exact line.told l.name
  | deferred value opened marked =>
    rw [Item.asks, if_pos rfl] at quiet
    cases quiet
  | begun value opened unmarked =>
    rw [serving.marked] at unmarked
    cases unmarked
  | dropped | kept | stored | drained | turned | unmarked =>
    exact (wrong (beq_self_eq_true c) rfl).elim
  | registered script next l =>
    have now' := World.cell_listen_self w here l
    refine .inr (serving.onward [.registered c (w.cell c).nextId false] here'
      (by rw [now']; rfl)
      (by rw [now']; rfl) rfl
      (List.append_nil _) (busy (by simp [Item.about]) _) ?_)
    rw [now', ← List.append_assoc, tail, owed_append,
      owed_of_calm (by simp [Item.about])]
    exact line.registered serving.opened l false []
  | greetedAmid l marked =>
    have now' := World.cell_listen_self w here l
    refine .inr (serving.onward [.registered c (w.cell c).nextId true] here'
      (by rw [now']; rfl)
      (by rw [now']; rfl) rfl
      (List.append_nil _) (busy (fun i among _ => ?_) _) ?_)
    · obtain ⟨value, -, rfl⟩ := mem_welcome.mp among
      rfl
    · rw [now', ← List.append_assoc, tail, owed_append,
        owed_welcome w _ l line.value]
      exact line.registered serving.opened l true _
  | greeted l unmarked =>
    rw [serving.marked] at unmarked
    cases unmarked
  | deregistered script next id =>
    have now' := modified (·.deregister id)
    refine .inr (serving.onward [.deregistered c id] here'
      (by rw [World.cell_log, now']; rfl) (by rw [World.cell_log, now']; rfl) rfl
      (List.append_nil _) (busy (by simp [Item.about]) _) ?_)
    rw [World.cell_log, now', ← List.append_assoc, tail, owed_append,
      owed_of_calm (by simp [Item.about]), List.nil_append]
    exact line.deregistered id
  | closed calm' opened same =>
    refine .inl ?_
    rw [same]
    rfl

/-- An update is applied. -/
theorem applied {value : Option Value}
    (serving : Serving c start ids first asked base story [value] [.apply c value, .unmark c] w) :
    Underway c start ids first asked base (((Item.apply c value).step plan w).1 ++ [.unmark c])
      ((Item.apply c value).step plan w).2 := by
  have opened : ¬(w.cell c).closed = true := by simp [serving.opened]
  have nothing : owed c [(.drain c : Item σ), .unmark c] = [] := rfl
  have line : Line c start ids first story [value] [] (w.cell c) := serving.line
  cases same : (w.cell c).value == value with
  | true =>
    have does : (Item.apply c value).step plan w = ([.drain c], w) := by
      rw [Item.step, if_neg opened, if_pos same]
    rw [does]
    refine serving.onward [] serving.here rfl rfl rfl (List.append_nil _)
      (.tells (List.forall_mem_nil _) _) ?_
    rw [List.reverse_nil, List.append_nil]
    exact line.kept same
  | false =>
    have does : (Item.apply c value).step plan w =
        (tellAll c value ((w.cell c).order.arrange (w.cell c).listeners) ++ [.drain c],
          (w.modifyCell c fun cell => { cell with value }).log (.stored c value)) := by
      rw [Item.step, if_neg opened, if_neg (by simp [same])]
    have now : ((w.modifyCell c fun cell => { cell with value }).log (.stored c value)).cell c =
        { w.cell c with value } := World.cell_modifyCell_self w serving.here _
    rw [does, List.append_assoc]
    refine serving.onward [.stored c value] ?_ (by rw [now]) (by rw [now]) rfl
      (List.append_nil _)
      (.tells (fun i among _ => ?_) _) ?_
    · simpa [World.modifyCell, World.log] using serving.here
    · obtain ⟨listener, _, rfl⟩ := List.mem_map.mp among
      rfl
    · rw [now, owed_append, owed_tellAll, NotifyOrder.map_arrange]
      have rest : owed c ([.drain c] ++ [.unmark c] : List (Item σ)) = [] := rfl
      rw [rest, List.append_nil]
      exact line.stored same

/-- The next update is turned to, if there is one. -/
theorem drained (serving : Serving c start ids first asked base story [] [.drain c, .unmark c] w) :
    Underway c start ids first asked base (((Item.drain c).step plan w).1 ++ [.unmark c])
      ((Item.drain c).step plan w).2 := by
  have line : Line c start ids first story [] [] (w.cell c) := serving.line
  cases waiting : (w.cell c).deferred with
  | nil =>
    have does : (Item.drain c).step plan w = ([], w) := by rw [Item.step, waiting]
    rw [does]
    have busy : Busy c [] (w.cell c).deferred [(.unmark c : Item σ)] := by
      rw [waiting]
      exact .ends
    refine serving.onward [] serving.here rfl rfl rfl (List.append_nil _) busy ?_
    rw [List.reverse_nil, List.append_nil]
    exact line
  | cons value later =>
    have does : (Item.drain c).step plan w =
        ([.apply c value], w.modifyCell c fun cell => { cell with deferred := later }) := by
      rw [Item.step, waiting]
    have now : (w.modifyCell c fun cell => { cell with deferred := later }).cell c =
        { w.cell c with deferred := later } := World.cell_modifyCell_self w serving.here _
    rw [does]
    refine serving.onward [] ?_ (by rw [now]) (by rw [now]) rfl
      (List.append_nil _)
      (.applies value _) ?_
    · simpa [World.modifyCell] using serving.here
    · rw [now, List.reverse_nil, List.append_nil]
      exact line.turned waiting

/-- The mark is taken back when nothing waits any more. -/
theorem unmarked (serving : Serving c start ids first asked base story [] [.unmark c] w)
    (nothing : (w.cell c).deferred = []) :
    Underway c start ids first asked base [] (w.modifyCell c .unmark) := by
  have now : (w.modifyCell c .unmark).cell c = (w.cell c).unmark :=
    World.cell_modifyCell_self w serving.here _
  have line : Line c start ids first story [] [] (w.cell c) := serving.line
  refine .inr ⟨rfl, story, serving.history, serving.asked, ?_, ?_, ?_, ?_⟩
  all_goals rw [now]
  · exact serving.opened
  · rfl
  · rfl
  · exact line.congr rfl rfl rfl rfl nothing.symm

/-- Another update is asked for, and put off. -/
theorem askedFor {value : Option Value} {now : List (Item σ)}
    (serving : Serving c start ids first asked base story []
      (.put c value :: now ++ [.drain c, .unmark c]) w)
    (calls : ∀ i ∈ now, i.about c = true → i.tells = true) :
    Underway c start ids first (asked ++ [value]) base
      (((Item.put c value).step plan w).1 ++ (now ++ [.drain c, .unmark c]))
      ((Item.put c value).step plan w).2 := by
  have here : c < ((w.modifyCell c (·.defer value)).log (.deferred c value)).cells.length := by
    simpa [World.modifyCell, World.log] using serving.here
  have deferral : deferrals c [.deferred c value] = [value] := by
    simp [deferrals, Event.deferred?]
  have line := serving.line
  have off : owed c (.put c value :: now ++ [.drain c, .unmark c]) =
      owed c (now ++ [.drain c, .unmark c]) := owed_cons_of_off rfl
  have now' : ((w.modifyCell c (·.defer value)).log (.deferred c value)).cell c =
      (w.cell c).defer value := World.cell_modifyCell_self w serving.here _
  rw [Item.step_put_of_marked plan serving.opened serving.marked]
  refine serving.onward [.deferred c value] here (by rw [now']; rfl) (by rw [now']; rfl) rfl
    (by rw [List.reverse_singleton, deferral]) (.tells calls _) ?_
  rw [now']
  exact (off ▸ line).deferred value

variable (plan) in
/-- Each step goes on with the updates of the cell, unless it closes the cell. -/
theorem step (serving : Serving c start ids first asked base story applying (item :: rest) w) :
    ((item.step plan w).2.cell c).closed = true ∨
      Underway c start ids first (asked ++ item.asks c) base ((item.step plan w).1 ++ rest)
        (item.step plan w).2 := by
  have asksNothing (nothing : item.asks c = []) : asked = asked ++ item.asks c := by
    rw [nothing, List.append_nil]
  have busy := serving.busy
  generalize waiting : (w.cell c).deferred = deferred at busy
  generalize whole : item :: rest = agenda at busy
  cases busy with
  | applies value =>
    cases whole
    exact .inr (asksNothing rfl ▸ serving.applied)
  | ends =>
    cases whole
    exact .inr (asksNothing rfl ▸ serving.unmarked waiting)
  | @tells now calls =>
    cases now with
    | nil =>
      cases whole
      exact .inr (asksNothing rfl ▸ serving.drained)
    | cons first now =>
      cases whole
      rcases Item.asks_cases c item with ⟨value, rfl⟩ | quiet
      · rw [Item.asks, if_pos rfl]
        exact .inr (serving.askedFor fun i among => calls i (List.mem_cons_of_mem _ among))
      · rw [quiet, List.append_nil]
        exact serving.amid calls quiet

end Serving

/-- From its first update on a cell serves its updates until it is closed. -/
theorem Asks.underway {plan : Plan σ} {a b : List (Item σ)} {more : List (Option Value)}
    (asks : Asks plan c a w more b v) (here : c < w.cells.length)
    (underway : Underway c start ids first asked base a w) :
    (v.cell c).closed = true ∨ Underway c start ids first (asked ++ more) base b v := by
  induction asks generalizing asked with
  | here =>
    rw [List.append_nil]
    exact .inr underway
  | @step item rest _ w _ _ asks ih =>
    have here' := Nat.lt_of_lt_of_le here (Item.step_cells plan w item)
    rcases underway with ⟨story, applying, serving⟩ | ⟨gone, _⟩
    · rcases serving.step plan with closed | underway
      · exact .inl (asks.leads.keeps here' (·.closed = true)
          (fun _ _ change => change.closed) closed)
      · rw [← List.append_assoc]
        exact ih here' underway
    · cases gone

/-! ### From outside -/

/-- Everybody who listens to a cell once a story has happened is to be told of a value, in the order
of the cell. -/
def roundFor (c : Nat) (cell : Cell σ) (story : List Event) (value : Option Value) :
    List (Nat × Option Value) :=
  (cell.order.arrange (listening c (cell.listeners.map Prod.fst) story)).map fun id => (id, value)

/-- A story tells how a cell has come to be what it is now: updates were served one after the other,
and each was stored if it differed from the value that the cell had by then. A value that was stored
is followed by the round of calls for it, and the round is complete when the next one is stored. -/
structure InTurn (c : Nat) (before now : Cell σ) (story : List Event)
    (served : List (Option Value)) : Prop where
  stored : stores c story = changes before.value served
  value : now.value = valueAfter c before.value story
  begun : ∀ earlier value later, story = earlier ++ .stored c value :: later →
    fullRound c later <+: roundFor c before earlier value
  complete : ∀ earlier value later, story = earlier ++ .stored c value :: later →
    stores c later ≠ [] → fullRound c later = roundFor c before earlier value

theorem Line.inTurn {before cell : Cell σ} {done : List (Option Value)}
    {owed : List (Nat × Option Value)}
    (line : Line c before.value (before.listeners.map Prod.fst) first story applying owed cell)
    (order : cell.order = before.order) (stored : stores c story = changes before.value done) :
    InTurn c before cell story done where
  stored
  value := line.value
  begun earlier value later h := by
    rw [roundFor, ← order, ← line.rounds earlier value later h]
    exact List.prefix_append _ _
  complete earlier value later h more := by
    have nothing : leftOver c later owed = [] := if_neg (by simpa using more)
    rw [roundFor, ← order, ← line.rounds earlier value later h, nothing, List.append_nil]

/-- A cell that has served its updates holds the last of them. -/
theorem InTurn.holds {before now : Cell σ} {served : List (Option Value)}
    (inTurn : InTurn c before now story served) : ∀ last ∈ served.getLast?, now.Holds last := by
  intro last isLast
  obtain ⟨earlier, rfl⟩ := List.getLast?_eq_some_iff.mp isLast
  have value : now.value = (changes before.value (earlier ++ [last])).getLastD before.value := by
    rw [inTurn.value, valueAfter, inTurn.stored]
  rw [changes_append] at value
  by_cases same : ((changes before.value earlier).getLastD before.value == last) = true
  · rw [changes, if_pos same, changes, List.append_nil] at value
    exact .inr (value ▸ same)
  · rw [changes, if_neg same, changes] at value
    exact .inl (by simpa using value)

/-- What a piece of work sets off serves the updates of a cell as a queue, from the first of them
on until everything is done or the cell is closed. Every update that is asked for on the way is
refused, to be served in its turn. -/
structure QueuesUp (plan : Plan σ) (c : Nat) (first : List (Option Value)) (item : Item σ)
    (w w' : World σ) : Prop where
  amid : ∀ asked agenda v, Asks plan c (item.step plan w).1 (item.step plan w).2 asked agenda v →
    (v.cell c).closed = false → ∃ story served waiting, v.history = story.reverse ++ w.history ∧
      first ++ asked = served ++ waiting ∧ InTurn c (w.cell c) (v.cell c) story served
  refused : ∀ value rest v,
    Leads plan (item.step plan w).1 (item.step plan w).2 (.put c value :: rest) v →
    (v.cell c).closed = false → ∀ fuel, (update plan (fuel + 1) c value).run.run v =
      (.ok (.ok false), (v.modifyCell c (·.defer value)).log (.deferred c value))
  atEnd : (w'.cell c).closed = false → ∃ asked story,
    Asks plan c (item.step plan w).1 (item.step plan w).2 asked [] w' ∧
      w'.history = story.reverse ++ w.history ∧
      InTurn c (w.cell c) (w'.cell c) story (first ++ asked) ∧
      (∀ earlier value later, story = earlier ++ .stored c value :: later →
        fullRound c later = roundFor c (w.cell c) earlier value) ∧
      (w'.cell c).deferred = [] ∧ ∀ last ∈ (first ++ asked).getLast?, (w'.cell c).Holds last

theorem run_update_of_marked (plan : Plan σ) (fuel : Nat) (opened : (w.cell c).closed = false)
    (marked : (w.cell c).notifying = true) (value : Option Value) :
    (update plan (fuel + 1) c value).run.run w =
      (.ok (.ok false), (w.modifyCell c (·.defer value)).log (.deferred c value)) := by
  rw [update, Act.run_bind_of_ok (Act.run_readCell c w), opened, if_neg Bool.false_ne_true, marked,
    if_pos rfl]
  rfl

/-- It is enough that the work begins by serving updates. -/
theorem QueuesUp.of_underway {plan : Plan σ} (here : c < w.cells.length)
    (underway : Underway c (w.cell c).value ((w.cell c).listeners.map Prod.fst) first [] w.history
      (item.step plan w).1 (item.step plan w).2)
    (leads : Leads plan [item] w [] w') : QueuesUp plan c first item w w' := by
  have here' := Nat.lt_of_lt_of_le here (Item.step_cells plan w item)
  have order {b : List (Item σ)} {v : World σ}
      (leads : Leads plan (item.step plan w).1 (item.step plan w).2 b v) :
      (v.cell c).order = (w.cell c).order := by
    have first := ((touches plan here item).change here).order
    exact leads.keeps here' (·.order = (w.cell c).order)
      (fun _ _ change same => change.order.trans same) first
  exact {
    amid := fun asked agenda v asks opened => by
      rcases asks.underway here' underway with
        closed | ⟨story, applying, serving⟩ | ⟨_, story, served⟩
      · rw [opened] at closed
        cases closed
      · obtain ⟨done, inLine, stored⟩ := serving.line.queue
        rw [serving.asked] at inLine
        exact ⟨story, done, _, serving.history, inLine,
          serving.line.inTurn (order asks.leads) stored⟩
      · obtain ⟨done, inLine, stored⟩ := served.line.queue
        rw [served.asked] at inLine
        exact ⟨story, done, _, served.history, inLine,
          served.line.inTurn (order asks.leads) stored⟩
    refused := fun value rest v leads opened fuel => by
      obtain ⟨asked, asks⟩ := leads.asks c
      rcases asks.underway here' underway with closed | ⟨_, _, serving⟩ | ⟨gone, _⟩
      · rw [opened] at closed
        cases closed
      · exact run_update_of_marked plan fuel opened serving.marked value
      · cases gone
    atEnd := fun opened => by
      cases leads with
      | step leads =>
        rw [List.append_nil] at leads
        obtain ⟨asked, asks⟩ := leads.asks c
        rcases asks.underway here' underway with closed | ⟨_, _, serving⟩ | ⟨_, story, served⟩
        · rw [opened] at closed
          cases closed
        · exact absurd rfl serving.busy.ne_nil
        · obtain ⟨done, inLine, stored⟩ := served.line.queue
          rw [served.asked, served.idle, List.append_nil, List.append_nil] at inLine
          have inTurn := served.line.inTurn (order leads) (inLine ▸ stored)
          refine ⟨asked, story, asks, served.history, inTurn, fun earlier value later h => ?_,
            served.idle, inTurn.holds⟩
          have round := served.line.rounds earlier value later h
          rw [leftOver_nil, List.append_nil] at round
          rw [round, roundFor, order leads] }

section Begin

variable {plan : Plan σ} (sound : (w.cell c).Sound) (opened : (w.cell c).closed = false)
  (unmarked : (w.cell c).notifying = false)

include sound opened unmarked

/-- An update begins when nobody is being notified. -/
theorem Underway.of_put (value : Option Value) :
    Underway c (w.cell c).value ((w.cell c).listeners.map Prod.fst) [value] [] w.history
      ((Item.put c value).step plan w).1 ((Item.put c value).step plan w).2 := by
  have here : c < w.cells.length := World.lt_of_open opened
  have does : (Item.put c value).step plan w =
      ([.apply c value, .unmark c], w.modifyCell c .mark) := by
    rw [Item.step, if_neg (by simp [opened]), if_neg (by simp [unmarked])]
  have now : (w.modifyCell c .mark).cell c = (w.cell c).mark :=
    World.cell_modifyCell_self w here .mark
  have line := Line.begin c [value] (sound.idle unmarked) sound.unique sound.known
  have marked : Line c (w.cell c).value ((w.cell c).listeners.map Prod.fst) [value] [] [value] []
      (w.cell c).mark := line.congr rfl rfl rfl rfl rfl
  rw [does]
  refine .inl ⟨[], [value], ?_, ?_, rfl, rfl, ?_, .applies value _, ?_⟩
  · simpa [World.modifyCell] using here
  all_goals rw [now]
  · exact opened
  · rfl
  · exact marked

/-- A listener is added and called when nobody is being notified. -/
theorem Underway.of_greet (l : Listener σ) :
    Underway c (w.cell c).value ((w.cell c).listeners.map Prod.fst) [] [] w.history
      ((Item.greet c l).step plan w).1 ((Item.greet c l).step plan w).2 := by
  have here : c < w.cells.length := World.lt_of_open opened
  have does : (Item.greet c l).step plan w =
      (welcome w c (w.cell c).nextId l ++ [.drain c, .unmark c],
        (w.modifyCell c .mark).listen c l true) := by
    rw [Item.step, if_neg (by simp [unmarked])]
  have mark : (w.modifyCell c .mark).cell c = (w.cell c).mark :=
    World.cell_modifyCell_self w here .mark
  have now := World.cell_mark_listen_self w here l true
  have line := Line.begin c [] (sound.idle unmarked) sound.unique sound.known
  have marked : Line c (w.cell c).value ((w.cell c).listeners.map Prod.fst) [] [] [] []
      (w.cell c).mark := line.congr rfl rfl rfl rfl rfl
  have greeted := marked.registered opened l true (greeting c (w.cell c).value [] true)
  have held : (w.cell c).value = valueAfter c (w.cell c).value [] := rfl
  rw [does]
  refine .inl ⟨[.registered c (w.cell c).nextId true], [], ?_, ?_, ?_, rfl, ?_, .tells ?_ _, ?_⟩
  · simpa [World.listen, World.modifyCell, World.log] using here
  · rw [now]
    exact opened
  · rw [World.listen, mark]
    rfl
  · rw [now]
    rfl
  · intro i called _
    obtain ⟨value, -, rfl⟩ := mem_welcome.mp called
    rfl
  · rw [now, owed_append, owed_welcome w _ l held]
    exact greeted

end Begin

/-- Updates of a cell queue up. Take a cell that is as it was made, or as whatever was done since
has left it, at a moment at which nobody is being told of its value. An update of it that comes to
its end says whether it made a difference, and it serves everything that is asked for on the way in
turn; so does the call of a listener that is added and called at once. -/
theorem updates_queue_up (plan : Plan σ) {a b : List (Item σ)} {w₀ w : World σ} {c : Nat}
    (here : c < w₀.cells.length) (sound : (w₀.cell c).Sound) (reached : Leads plan a w₀ b w)
    (opened : (w.cell c).closed = false) (unmarked : (w.cell c).notifying = false) (fuel : Nat) :
    (∀ value answer w', (update plan fuel c value).run.run w = (.ok answer, w') →
      answer = .ok !((w.cell c).value == value) ∧ QueuesUp plan c [value] (.put c value) w w') ∧
    ∀ l id w', (registerAndCall plan fuel c l).run.run w = (.ok id, w') →
      QueuesUp plan c [] (.greet c l) w w' := by
  have here' : c < w.cells.length := World.lt_of_open opened
  have sound' : (w.cell c).Sound :=
    reached.keeps here Cell.Sound (fun _ _ change => change.sound) sound
  refine ⟨fun value answer w' ran => ⟨?_, ?_⟩, fun l id w' ran => ?_⟩
  · rw [update_answer ran, World.updateReply, if_neg (by simp [opened]),
      if_neg (by simp [unmarked])]
  · have leads := (carries plan fuel).update w c value
    rw [ran] at leads
    exact .of_underway here' (.of_put sound' opened unmarked value) leads
  · have leads := (carries plan fuel).registerAndCall w c l
    rw [ran] at leads
    exact .of_underway here' (.of_greet sound' opened unmarked l) leads

/-- A cell with a listener that sets it again while it is called. -/
def echoing : World Unit where
  cells := [{
    listeners := [(0, ⟨"again", fun _ => .update 0 (some (.bool true)) fun _ => .done .nothing⟩)]
    nextId := 1 }]
  surroundings := ()

theorem updates_queue_up_echoing :
    let plan : Plan Unit := { query := ⟨"app", [], none, none⟩ }
    let value := some (.bool false)
    let w' := ((update plan 20 0 value).run.run echoing).2
    ((update plan 20 0 value).run.run echoing).1 = .ok (.ok true) ∧
      QueuesUp plan 0 [value] (.put 0 value) echoing w' := by
  intro plan value w'
  have ran : (update plan 20 0 value).run.run echoing = (.ok (.ok true), w') := rfl
  have sound : (echoing.cell 0).Sound := ⟨fun _ => rfl, by decide, by decide⟩
  have made : Leads plan [] echoing [] echoing := .here
  have queues := (updates_queue_up plan Nat.zero_lt_one sound made rfl rfl 20).1 value _ _ ran
  exact ⟨rfl, queues.2⟩

end LayeredConfig.Live
