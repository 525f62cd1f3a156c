import LayeredConfig.Proofs.Live.Marks
import LayeredConfig.Proofs.Live.Queue
/-!
# Rounds under way

While listeners of a cell are called, directly or in the middle of calls for other cells, the value
of the cell is the one that they are told of, and updates that are asked for meanwhile go to the end
of what waits. This is so at every moment of every run, whatever the scripts do and also if some of
them break off: the calls for a cell come first of all work for it on the agenda (`Ahead`), they are
made under its mark, and each of them has the value of the cell (`Rounds`).

Nothing is said here about cells before they are made; no work for a round of such a cell can stand
on an agenda, since the cell is not marked.
-/
namespace LayeredConfig.Live

variable {σ : Type} {plan : Plan σ} {c : Nat} {item : Item σ} {a b new rest agenda : List (Item σ)}
  {u v w w' : World σ} {value : Option Value}

/-- The work is part of a round of a cell: a listener is called, or an update is applied. -/
def Item.serves (c : Nat) : Item σ → Bool
  | .tell d _ _ _ | .apply d _ => c == d
  | _ => false

/-- No work on the agenda is part of a round of the cell. -/
def Still (c : Nat) (agenda : List (Item σ)) : Prop := ∀ i ∈ agenda, i.serves c = false

theorem Item.serves_of_off (off : item.about c = false) : item.serves c = false := by
  cases item with
  | tell | apply => exact off
  | _ => rfl

theorem Still.of_calm (calm : ∀ i ∈ new, i.about c = false) : Still c new :=
  fun i member => Item.serves_of_off (calm i member)

theorem Still.append (first : Still c a) (second : Still c b) : Still c (a ++ b) := by
  intro i member
  rcases List.mem_append.1 member with member | member
  · exact first i member
  · exact second i member

theorem Still.cons (off : item.serves c = false) (still : Still c rest) : Still c (item :: rest) :=
  List.forall_mem_cons.2 ⟨off, still⟩

theorem Still.tail (still : Still c (item :: rest)) : Still c rest :=
  fun i member => still i (List.mem_cons_of_mem _ member)

/-- Calls of listeners come before all other work for the cell, and then at most one update is
applied. -/
inductive Ahead (c : Nat) : List (Item σ) → Prop where
  | still {agenda : List (Item σ)} (still : Still c agenda) : Ahead c agenda
  | apply {rest : List (Item σ)} (value : Option Value) (still : Still c rest) :
    Ahead c (.apply c value :: rest)
  | tell {rest : List (Item σ)} (id : Nat) (l : Listener σ) (value : Option Value)
    (ahead : Ahead c rest) : Ahead c (.tell c id l value :: rest)
  | off {item : Item σ} {rest : List (Item σ)} (off : item.about c = false) (ahead : Ahead c rest) :
    Ahead c (item :: rest)

namespace Ahead

theorem append_calm (calm : ∀ i ∈ new, i.about c = false) (ahead : Ahead c rest) :
    Ahead c (new ++ rest) := by
  induction new with
  | nil => exact ahead
  | cons item new ih =>
    rw [List.forall_mem_cons] at calm
    exact .off calm.1 (ih calm.2)

theorem tellAll (value : Option Value) (listeners : List (Nat × Listener σ))
    (ahead : Ahead c rest) : Ahead c (Live.tellAll c value listeners ++ rest) := by
  induction listeners with
  | nil => exact ahead
  | cons first others ih => exact .tell first.1 first.2 value ih

theorem welcome (w : World σ) (id : Nat) (l : Listener σ) (ahead : Ahead c rest) :
    Ahead c (Live.welcome w c id l ++ rest) := by
  rw [Live.welcome]
  split
  · exact .tell _ _ _ ahead
  · exact ahead

theorem tail (ahead : Ahead c (item :: rest)) : Ahead c rest := by
  cases ahead with
  | still still => exact .still still.tail
  | apply _ still => exact .still still
  | tell _ _ _ ahead | off _ ahead => exact ahead

/-- What ends a round, or applies an update, has nothing of the round after it. -/
theorem still_after (ahead : Ahead c (item :: rest)) (on : item.about c = true)
    (other : item.tells = false) : Still c rest := by
  cases ahead with
  | still still => exact still.tail
  | apply _ still => exact still
  | tell => cases other
  | off off =>
    rw [on] at off
    cases off

end Ahead

theorem Touch.brings_no_round (touch : Touch c w item new w') (gone : w.cell c = .gone)
    (off : item.serves c = false) : Still c new := by
  have itself (on : (c == c) = false) : False := by
    rw [beq_self_eq_true] at on
    cases on
  cases touch with
  | aside _ calm | closed calm => exact .of_calm calm
  | told | registered | deregistered => exact .of_calm (by simp [Item.about])
  | deferred | drained | unmarked => exact List.forall_mem_nil _
  | dropped | kept | stored => exact (itself off).elim
  | begun value opened =>
    rw [gone] at opened
    cases opened
  | turned value later waiting =>
    rw [gone] at waiting
    cases waiting
  | greetedAmid l marked =>
    rw [gone] at marked
    cases marked
  | greeted l =>
    have nobody : welcome w c (w.cell c).nextId l = [] := by
      rw [welcome, gone]
      rfl
    rw [nobody]
    simp [Still, Item.serves]

/-- Nobody begins a round of a cell that is not there. -/
theorem Item.step_still (plan : Plan σ) (gone : w.cell c = .gone) (off : item.serves c = false) :
    Still c (item.step plan w).1 := by
  cases item with
  | go script => exact .of_calm (Touch.calm_script plan w script)
  | put d value => exact (Touch.put plan d value).brings_no_round gone off
  | apply d value => exact (Touch.apply plan d value).brings_no_round gone off
  | drain d => exact (Touch.drain plan d).brings_no_round gone off
  | greet d l => exact (Touch.greet plan d l).brings_no_round gone off
  | tell | unmark | shutSources | endDispatch => simp [Item.step, Still, Item.serves]
  | close d =>
    rw [Item.step]
    split
    · exact List.forall_mem_nil _
    · dsimp only
      split <;> simp [Still, Item.serves]
  | derive extract =>
    rw [Item.step]
    split
    · exact List.forall_mem_nil _
    · split <;> simp [Still, Item.serves]
  | shut =>
    rw [Item.step]
    split
    · exact List.forall_mem_nil _
    · intro i member
      rcases List.mem_append.1 member with member | member
      · obtain ⟨t, -, rfl⟩ := List.mem_map.1 member
        rfl
      · rw [List.mem_singleton.1 member]
        rfl

/-- How things stand with the rounds of a cell. -/
structure Rounds (c : Nat) (agenda : List (Item σ)) (w : World σ) : Prop where
  ahead : Ahead c agenda
  marked : ∀ i ∈ agenda, i.serves c = true → (w.cell c).notifying = true
  told : ∀ id l value, .tell c id l value ∈ agenda → (w.cell c).value = value
  waits : (w.cell c).notifying = false → (w.cell c).deferred = []

namespace Rounds

theorem of_still (still : Still c agenda)
    (waits : (w.cell c).notifying = false → (w.cell c).deferred = []) : Rounds c agenda w where
  ahead := .still still
  marked i member serves := by
    rw [still i member] at serves
    cases serves
  told id l value member := by
    have off := still _ member
    rw [Item.serves, beq_self_eq_true] at off
    cases off
  waits

/-- Work of a round can only be there while the cell is marked. -/
theorem still (rounds : Rounds c agenda w) (unmarked : (w.cell c).notifying = false) :
    Still c agenda := by
  intro i member
  apply Bool.eq_false_iff.2
  intro serves
  rw [rounds.marked i member serves] at unmarked
  cases unmarked

/-- The rest of the agenda goes on while nothing of what matters changes in the cell. -/
theorem onward (rounds : Rounds c (item :: rest) w) (ahead : Ahead c (new ++ rest))
    (marked : (∃ i ∈ new, i.serves c = true) ∨ (w.cell c).notifying = true →
      (w'.cell c).notifying = true)
    (value : (w'.cell c).value = (w.cell c).value)
    (told : ∀ id l value, .tell c id l value ∈ new → (w.cell c).value = value)
    (waits : (w'.cell c).notifying = false → (w'.cell c).deferred = []) :
    Rounds c (new ++ rest) w' where
  ahead
  marked i member serves := by
    rcases List.mem_append.1 member with member | member
    · exact marked (.inl ⟨i, member, serves⟩)
    · exact marked (.inr (rounds.marked i (List.mem_cons_of_mem _ member) serves))
  told id l value' member := by
    rw [value]
    rcases List.mem_append.1 member with member | member
    · exact told id l value' member
    · exact rounds.told id l value' (List.mem_cons_of_mem _ member)
  waits

/-- The step is not work for the cell and brings none. -/
theorem aside (rounds : Rounds c (item :: rest) w) (calm : ∀ i ∈ new, i.about c = false)
    (notifying : (w'.cell c).notifying = (w.cell c).notifying)
    (value : (w'.cell c).value = (w.cell c).value)
    (waits : (w'.cell c).notifying = false → (w'.cell c).deferred = []) :
    Rounds c (new ++ rest) w' := by
  refine rounds.onward (rounds.ahead.tail.append_calm calm) ?_ value ?_ waits
  · rintro (⟨i, member, serves⟩ | marked)
    · rw [Item.serves_of_off (calm i member)] at serves
      cases serves
    · rw [notifying, marked]
  · intro id l value' member
    have off := calm _ member
    rw [Item.about, beq_self_eq_true] at off
    cases off

/-- A row of calls begins, each with the value of the cell. -/
theorem calls (rounds : Rounds c (item :: rest) w) (ahead : Ahead c (new ++ rest))
    (marked : (w'.cell c).notifying = true)
    (value : (w'.cell c).value = (w.cell c).value)
    (told : ∀ id l value, .tell c id l value ∈ new → (w.cell c).value = value) :
    Rounds c (new ++ rest) w' :=
  rounds.onward ahead (fun _ => marked) value told fun unmarked => by
    rw [marked] at unmarked
    cases unmarked

theorem told_welcome (w : World σ) (id : Nat) (l : Listener σ) :
    ∀ id' l' value, .tell c id' l' value ∈ welcome w c id l → (w.cell c).value = value := by
  intro id' l' value member
  obtain ⟨_, held, same⟩ := mem_welcome.1 member
  cases same
  exact held

theorem step_here (rounds : Rounds c (item :: rest) w) (here : c < w.cells.length) :
    Rounds c ((item.step plan w).1 ++ rest) (item.step plan w).2 := by
  have touch := touches plan here item
  generalize (item.step plan w).1 = new, (item.step plan w).2 = w' at touch
  have modified (f : Cell σ → Cell σ) : (w.modifyCell c f).cell c = f (w.cell c) :=
    World.cell_modifyCell_self w here f
  have waits := rounds.waits
  cases touch with
  | aside off calm same =>
    obtain ⟨hook, same⟩ := same
    exact rounds.aside calm (by rw [same]) (by rw [same]) (by rw [same]; exact waits)
  | told => exact rounds.aside (by simp [Item.about]) rfl rfl waits
  | deferred value opened marked =>
    refine rounds.calls rounds.ahead.tail ?_ ?_ (by simp)
    · rw [World.cell_log, modified]
      exact marked
    · rw [World.cell_log, modified]
      rfl
  | begun value opened unmarked =>
    -- a cell without a mark has no round, so this one is the first
    have ends : Still c (.unmark c :: rest) := (rounds.still unmarked).tail.cons rfl
    refine rounds.calls (.apply value ends) ?_ ?_ (by simp)
    · rw [modified]
      rfl
    · rw [modified]
      rfl
  | dropped value closed =>
    exact .of_still (rounds.ahead.still_after (beq_self_eq_true c) rfl) waits
  | kept value opened same =>
    have still := rounds.ahead.still_after (beq_self_eq_true c) rfl
    exact .of_still (still.cons rfl) waits
  | stored value opened changed =>
    -- the calls for the value before this one are all over
    have still := rounds.ahead.still_after (beq_self_eq_true c) rfl
    have drains : Still c (.drain c :: rest) := still.cons rfl
    have marked := rounds.marked _ List.mem_cons_self (beq_self_eq_true c)
    have now : ((w.modifyCell c fun cell => { cell with value }).log (.stored c value)).cell c =
        { w.cell c with value } := modified _
    rw [List.append_assoc]
    refine ⟨.tellAll value _ (.still drains), fun _ _ _ => by rw [now]; exact marked, ?_, ?_⟩
    · intro id l value' member
      rw [now]
      rcases List.mem_append.1 member with member | member
      · obtain ⟨listener, -, same⟩ := List.mem_map.1 member
        cases same
        rfl
      · have off := drains _ member
        rw [Item.serves, beq_self_eq_true] at off
        cases off
    · intro unmarked
      rw [now] at unmarked
      rw [marked] at unmarked
      cases unmarked
  | drained nothing =>
    exact .of_still (rounds.ahead.still_after (beq_self_eq_true c) rfl) waits
  | turned value later waiting =>
    have still := rounds.ahead.still_after (beq_self_eq_true c) rfl
    have marked : (w.cell c).notifying = true := by
      cases mark : (w.cell c).notifying with
      | true => rfl
      | false =>
        rw [waits mark] at waiting
        cases waiting
    refine rounds.calls (.apply value still) ?_ ?_ (by simp)
    · rw [modified]
      exact marked
    · rw [modified]
  | unmarked =>
    refine .of_still (rounds.ahead.still_after (beq_self_eq_true c) rfl) fun _ => ?_
    rw [modified]
    rfl
  | registered script next l =>
    refine rounds.aside (by simp [Item.about]) ?_ ?_ ?_ <;> rw [World.cell_listen_self w here]
    · rfl
    · rfl
    · exact waits
  | greetedAmid l marked =>
    refine rounds.calls (rounds.ahead.tail.welcome w _ l) ?_ ?_ (told_welcome w _ l)
    · rw [World.cell_listen_self w here]
      exact marked
    · rw [World.cell_listen_self w here]
      rfl
  | greeted l unmarked =>
    have still := (rounds.still unmarked).tail
    have ends : Still c (.drain c :: .unmark c :: rest) := (still.cons rfl).cons rfl
    have now := World.cell_mark_listen_self w here l true
    have ahead : Ahead c (welcome w c (w.cell c).nextId l ++ [.drain c, .unmark c] ++ rest) := by
      rw [List.append_assoc]
      exact Ahead.welcome w _ l (.still ends)
    refine rounds.calls ahead (by rw [now]; rfl) (by rw [now]; rfl) ?_
    intro id l' value member
    rcases List.mem_append.1 member with member | member
    · exact told_welcome w _ l id l' value member
    · simp at member
  | deregistered script next id =>
    refine rounds.aside (by simp [Item.about]) ?_ ?_ ?_ <;> rw [World.cell_log, modified]
    · rfl
    · rfl
    · exact waits
  | closed calm opened same =>
    refine rounds.aside calm ?_ ?_ ?_ <;> rw [same]
    · rfl
    · rfl
    · exact fun _ => rfl

/-- A cell that has not been made has no round, and a step does not begin one. -/
theorem step_beyond (rounds : Rounds c (item :: rest) w) (beyond : w.cells.length ≤ c) :
    Rounds c ((item.step plan w).1 ++ rest) (item.step plan w).2 := by
  have gone : w.cell c = .gone := World.cell_of_beyond beyond
  have still := rounds.still (by rw [gone]; rfl)
  have waits : ((item.step plan w).2.cell c).deferred = [] := by
    rcases item.step_beyond plan w beyond with same | ⟨_, value, _, _, _, same⟩
    · rw [same]
      rfl
    · rw [same]
  have off := still item List.mem_cons_self
  exact .of_still (Still.append (item.step_still plan gone off) still.tail) fun _ => waits

theorem step (rounds : Rounds c (item :: rest) w) :
    Rounds c ((item.step plan w).1 ++ rest) (item.step plan w).2 := by
  rcases Nat.lt_or_ge c w.cells.length with here | beyond
  · exact rounds.step_here here
  · exact rounds.step_beyond beyond

theorem leads (rounds : Rounds c a w) (leads : Leads plan a w b v) : Rounds c b v :=
  leads.preserves (Rounds c) (fun _ _ _ rounds => rounds.step) rounds

end Rounds

/-! ### In the middle of a call -/

/-- In the middle of a call of a listener, all that is still to be done for the cell before the call
is over is to call others. -/
structure Amid (c : Nat) (value : Option Value) (agenda : List (Item σ)) (w : World σ) : Prop where
  here : c < w.cells.length
  marked : (w.cell c).notifying = true
  holds : (w.cell c).value = value
  calls : ∀ i ∈ agenda, i.about c = true → i.tells = true

namespace Amid

/-- A listener is about to be called. -/
theorem of_rounds {id : Nat} {l : Listener σ} (rounds : Rounds c (.tell c id l value :: rest) w) :
    Amid c value [.go (l.react value)] (w.log (.called c id l.name value)) := by
  have marked : (w.cell c).notifying = true :=
    rounds.marked _ List.mem_cons_self (beq_self_eq_true c)
  refine ⟨?_, marked, rounds.told id l value List.mem_cons_self, by simp [Item.about]⟩
  rcases Nat.lt_or_ge c w.cells.length with here | beyond
  · exact here
  · rw [World.cell_of_beyond beyond] at marked
    cases marked

/-- The call goes on. -/
theorem onward (amid : Amid c value (item :: rest) w)
    (here : w.cells.length ≤ w'.cells.length)
    (notifying : (w'.cell c).notifying = (w.cell c).notifying)
    (same : (w'.cell c).value = (w.cell c).value)
    (calls : ∀ i ∈ new, i.about c = true → i.tells = true) : Amid c value (new ++ rest) w' where
  here := Nat.lt_of_lt_of_le amid.here here
  marked := notifying.trans amid.marked
  holds := same.trans amid.holds
  calls i member := by
    rcases List.mem_append.1 member with member | member
    · exact calls i member
    · exact amid.calls i (List.mem_cons_of_mem _ member)

/-- In the middle of a call the value stays, and updates that are asked for go to the end of what
waits. -/
theorem step (amid : Amid c value (item :: rest) w) :
    Amid c value ((item.step plan w).1 ++ rest) (item.step plan w).2 ∧
      (((item.step plan w).2.cell c).closed = false → (w.cell c).closed = false ∧
        ((item.step plan w).2.cell c).deferred = (w.cell c).deferred ++ item.asks c) := by
  have cells := Item.step_cells plan w item
  have modified (f : Cell σ → Cell σ) : (w.modifyCell c f).cell c = f (w.cell c) :=
    World.cell_modifyCell_self w amid.here f
  rcases Item.asks_cases c item with ⟨asked, rfl⟩ | quiet
  · cases closed : (w.cell c).closed with
    | true =>
      have does : (Item.put c asked).step plan w = ([], w) := by rw [Item.step, if_pos closed]
      rw [does]
      exact ⟨amid.onward (Nat.le_refl _) rfl rfl (List.forall_mem_nil _), fun opened => by
        rw [closed] at opened
        cases opened⟩
    | false =>
      rw [Item.step_put_of_marked plan closed amid.marked asked] at cells ⊢
      rw [Item.asks, if_pos rfl]
      refine ⟨amid.onward cells ?_ ?_ (List.forall_mem_nil _), fun _ => ⟨rfl, ?_⟩⟩ <;>
        rw [World.cell_log, modified] <;> rfl
  · -- of the work for the cell only calls are left, so this is nothing that ends a round
    have wrong (on : item.about c = true) (other : item.tells = false) : False := by
      have tells := amid.calls item List.mem_cons_self on
      rw [other] at tells
      cases tells
    have unasked (cell : Cell σ) : cell.deferred = cell.deferred ++ item.asks c := by
      rw [quiet, List.append_nil]
    have touch := touches plan amid.here item
    generalize (item.step plan w).1 = new, (item.step plan w).2 = w' at touch cells
    have off (calm : ∀ i ∈ new, i.about c = false) : ∀ i ∈ new, i.about c = true → i.tells = true :=
      fun i member on => by
        rw [calm i member] at on
        cases on
    cases touch with
    | aside _ calm same =>
      obtain ⟨hook, same⟩ := same
      rw [same]
      exact ⟨amid.onward cells (by rw [same]) (by rw [same]) (off calm),
        fun opened => ⟨opened, unasked _⟩⟩
    | told =>
      exact ⟨amid.onward cells rfl rfl (by simp [Item.about]), fun opened => ⟨opened, unasked _⟩⟩
    | deferred asked =>
      rw [Item.asks, if_pos rfl] at quiet
      cases quiet
    | begun value opened unmarked | greeted l unmarked =>
      rw [amid.marked] at unmarked
      cases unmarked
    | dropped | kept | stored | drained | turned | unmarked =>
      exact (wrong (beq_self_eq_true c) rfl).elim
    | registered script next l =>
      have now := World.cell_listen_self w amid.here l false
      refine ⟨amid.onward cells (by rw [now]; rfl) (by rw [now]; rfl) (by simp [Item.about]), ?_⟩
      rw [now]
      exact fun opened => ⟨opened, unasked _⟩
    | greetedAmid l marked =>
      have now := World.cell_listen_self w amid.here l true
      refine ⟨amid.onward cells (by rw [now]; rfl) (by rw [now]; rfl) ?_, ?_⟩
      · intro i member _
        obtain ⟨value, -, rfl⟩ := mem_welcome.1 member
        rfl
      · rw [now]
        exact fun opened => ⟨opened, unasked _⟩
    | deregistered script next id =>
      have now : ((w.modifyCell c (·.deregister id)).log (.deregistered c id)).cell c =
          (w.cell c).deregister id := by
        rw [World.cell_log, modified]
      refine ⟨amid.onward cells (by rw [now]; rfl) (by rw [now]; rfl) (by simp [Item.about]), ?_⟩
      rw [now]
      exact fun opened => ⟨opened, unasked _⟩
    | closed calm opened same =>
      refine ⟨amid.onward cells (by rw [same]; rfl) (by rw [same]; rfl) (off calm), ?_⟩
      rw [same]
      intro wrong
      cases wrong

/-- Until the call is over, the updates that wait are those that waited when it began, and then
those that were asked for since. -/
theorem asks {asked : List (Option Value)} (amid : Amid c value a w)
    (asks : Asks plan c a w asked b v) :
    Amid c value b v ∧ ((v.cell c).closed = false → (w.cell c).closed = false ∧
      (v.cell c).deferred = (w.cell c).deferred ++ asked) := by
  induction asks with
  | here => exact ⟨amid, fun opened => ⟨opened, (List.append_nil _).symm⟩⟩
  | step _ ih =>
    obtain ⟨next, first⟩ := amid.step
    obtain ⟨last, later⟩ := ih next
    refine ⟨last, fun opened => ?_⟩
    obtain ⟨openedNext, waiting⟩ := later opened
    obtain ⟨openedFirst, waited⟩ := first openedNext
    exact ⟨openedFirst, by rw [waiting, waited, List.append_assoc]⟩

end Amid

end LayeredConfig.Live
