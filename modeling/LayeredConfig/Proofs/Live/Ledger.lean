import LayeredConfig.Proofs.Live.Story
import Mathlib.Data.List.Chain
/-!
# The ledger of a cell

At every moment the calls that listeners of a cell have had, together with those that are still owed
to them, answer to the values that were stored. `Ledger` states this for one cell, a story and the
calls owed; each change of the cell with its event keeps it.
-/
namespace LayeredConfig.Live

variable {σ : Type}

open Story

/-- Values are what a listener of a cell has to hear: it was registered in the course of the story,
was greeted, and heard of every value that was stored from then on. -/
def Delivered (c : Nat) (start : Option Value) (story : List Event) (id : Nat)
    (values : List (Option Value)) : Prop :=
  ∃ earlier atOnce later, story = earlier ++ .registered c id atOnce :: later ∧
    values = greeting c start earlier atOnce ++ stores c later

/-- The cell changed in nothing that its listeners can tell, except that there may be fewer of
them. -/
structure Cell.Alike (old new : Cell σ) : Prop where
  value : new.value = old.value
  order : new.order = old.order
  nextId : new.nextId = old.nextId
  listeners : new.listeners.Sublist old.listeners

/-- The calls of a round that are still owed. -/
def pending (c : Nat) (earlier later : List Event) (owed : List (Nat × Option Value)) : List Nat :=
  if (stores c later).isEmpty then
    (owed.map Prod.fst).filter (registrations c earlier).contains else []

/-- A cell that had the value `start` before the story began, and no listeners, answers to the
story, except that some calls are still owed. -/
structure Ledger (c : Nat) (start : Option Value) (story : List Event)
    (owed : List (Nat × Option Value)) (cell : Cell σ) : Prop where
  value : cell.value = valueAfter c start story
  changes : (start :: stores c story).IsChain fun a b => (a == b) = false
  numbers : (registrations c story).Pairwise (· < ·)
  fresh : ∀ id ∈ registrations c story, id < cell.nextId
  due : ∀ call ∈ calls c story ++ owed, call.1 < cell.nextId
  listening : (cell.listeners.map Prod.fst).Sublist (registrations c story)
  delivered : ∀ id ∈ cell.listeners.map Prod.fst,
    Delivered c start story id (heard id (calls c story ++ owed))
  rounds : ∀ earlier value later, story = earlier ++ .stored c value :: later →
    (round c earlier later ++ pending c earlier later owed).Sublist
      (cell.order.arrange (registrations c earlier))

variable {c : Nat} {start : Option Value} {story : List Event} {owed : List (Nat × Option Value)}
  {cell : Cell σ}

/-- One more event that stores nothing goes to the end of what was stored since. -/
theorem Delivered.concat {id : Nat} {values : List (Option Value)} {e : Event}
    (delivered : Delivered c start story id values) :
    Delivered c start (story ++ [e]) id (values ++ stores c [e]) := by
  obtain ⟨earlier, atOnce, later, rfl, rfl⟩ := delivered
  exact ⟨earlier, atOnce, later ++ [e], by simp, by simp⟩

theorem pending_nil (earlier later : List Event) : pending c earlier later [] = [] := by
  simp [pending]

theorem pending_append (earlier later : List Event) (a b : List (Nat × Option Value)) :
    pending c earlier later (a ++ b) = pending c earlier later a ++ pending c earlier later b := by
  simp only [pending]
  split <;> simp

theorem pending_concat {e : Event} (noStore : stores c [e] = []) (earlier later : List Event) :
    pending c earlier (later ++ [e]) owed = pending c earlier later owed := by
  rw [pending, pending, stores_append, noStore, List.append_nil]

namespace Ledger

/-- A cell that nobody has listened to. -/
theorem new (value : cell.value = start) (unheard : cell.listeners = []) :
    Ledger c start [] [] cell where
  value := value
  changes := .singleton start
  numbers := .nil
  fresh := nofun
  due := nofun
  listening := by rw [unheard]; exact .refl _
  delivered id listens := by
    rw [unheard] at listens
    cases listens
  rounds earlier value later h := by simp at h

theorem congr (ledger : Ledger c start story owed cell) {cell' : Cell σ}
    (alike : cell.Alike cell') : Ledger c start story owed cell' where
  value := alike.value ▸ ledger.value
  changes := ledger.changes
  numbers := ledger.numbers
  fresh := alike.nextId ▸ ledger.fresh
  due := alike.nextId ▸ ledger.due
  listening := (alike.listeners.map _).trans ledger.listening
  delivered id listens := ledger.delivered id ((alike.listeners.map _).subset listens)
  rounds := alike.order ▸ ledger.rounds

/-- An event that neither stores a value nor adds a listener; if it is a call it was owed. -/
theorem further (ledger : Ledger c start story owed cell) {e : Event}
    (noStore : stores c [e] = []) (noRegistration : registrations c [e] = [])
    {left : List (Nat × Option Value)} (called : calls c [e] ++ left = owed) :
    Ledger c start (story ++ [e]) left cell := by
  have all : calls c (story ++ [e]) ++ left = calls c story ++ owed := by
    rw [calls_append, List.append_assoc, called]
  exact {
    value := by rw [valueAfter_of_stores_eq_nil noStore, ledger.value]
    changes := by simpa [noStore] using ledger.changes
    numbers := by simpa [noRegistration] using ledger.numbers
    fresh := by simpa [noRegistration] using ledger.fresh
    due := by
      rw [all]
      exact ledger.due
    listening := by simpa [noRegistration] using ledger.listening
    delivered := fun id listens => by
      rw [all]
      simpa [noStore] using (ledger.delivered id listens).concat (e := e)
    rounds := fun earlier value later h => by
      rcases split_concat h with ⟨_, rfl, _⟩ | ⟨later, rfl, same⟩
      · simp [stores, Event.stored?] at noStore
      · -- what the event adds to the round is what it takes from the calls that are owed
        have rounds := ledger.rounds earlier value later same
        rw [← called, pending_append] at rounds
        rw [round_concat, pending_concat noStore, List.append_assoc]
        exact rounds }

/-- An event that does not tell of the cell. -/
theorem silent (ledger : Ledger c start story owed cell) {e : Event} (off : e.about c = false) :
    Ledger c start (story ++ [e]) owed cell := by
  have alone : ∀ x ∈ [e], x.about c = false := by simpa using off
  obtain ⟨noStore, noCall, noRegistration⟩ := of_silent alone
  exact ledger.further noStore noRegistration (by rw [noCall, List.nil_append])

/-- A call that was owed is made. -/
theorem told {id : Nat} {value : Option Value}
    (ledger : Ledger c start story ((id, value) :: owed) cell) (name : String) :
    Ledger c start (story ++ [.called c id name value]) owed cell := by
  have call : calls c [.called c id name value] = [(id, value)] := by
    simp [calls, Event.called?]
  exact ledger.further rfl rfl (by rw [call, List.singleton_append])

/-- Calls of one listener are heard by it, and by nobody else. -/
theorem heard_map_self (id : Nat) (values : List (Option Value)) :
    heard id (values.map fun value => (id, value)) = values := by
  simp [heard, List.filterMap_map]

theorem heard_map_of_ne {id other : Nat} (ne : other ≠ id) (values : List (Option Value)) :
    heard id (values.map fun value => (other, value)) = [] := by
  simp [heard, List.filterMap_map, ne]

/-- A call of each of several listeners. -/
theorem heard_map {value : Option Value} {ids : List Nat} (nodup : ids.Nodup) {id : Nat}
    (listens : id ∈ ids) : heard id (ids.map fun id => (id, value)) = [value] := by
  induction ids with
  | nil => cases listens
  | cons first rest ih =>
    obtain ⟨absent, nodup⟩ := List.nodup_cons.mp nodup
    rcases List.mem_cons.mp listens with rfl | listens
    · have others : heard id (rest.map fun id => (id, value)) = [] := by
        simp only [heard, List.filterMap_eq_nil_iff, List.mem_map]
        rintro _ ⟨other, member, rfl⟩
        exact if_neg fun (same : other = id) => absent (same ▸ member)
      simpa [heard] using others
    · have ne : first ≠ id := fun same => absent (same ▸ listens)
      simpa [heard, ne] using ih nodup listens

/-- A value is stored, and everybody who listens is owed a call. -/
theorem stored (ledger : Ledger c start story [] cell) {value : Option Value}
    (changed : (cell.value == value) = false) :
    Ledger c start (story ++ [.stored c value])
      ((cell.order.arrange (cell.listeners.map Prod.fst)).map fun id => (id, value))
      { cell with value } := by
  have noCall : calls c [.stored c value] = [] := rfl
  have noRegistration : registrations c [.stored c value] = [] := rfl
  have store : stores c [.stored c value] = [value] := by simp [stores, Event.stored?]
  -- each listener is owed one call, since no two have the same number
  have unique : (cell.listeners.map Prod.fst).Nodup :=
    (ledger.numbers.sublist ledger.listening).imp Nat.ne_of_lt
  exact {
    value := by simp [valueAfter, store]
    changes := by
      rw [stores_append, store, ← List.cons_append]
      refine List.IsChain.append ledger.changes (.singleton value) fun last isLast next isNext => ?_
      rw [getLast?_cons_stores, ← ledger.value] at isLast
      cases Option.mem_some_iff.mp isLast
      cases Option.mem_some_iff.mp isNext
      exact changed
    numbers := by simpa [noRegistration] using ledger.numbers
    fresh := by simpa [noRegistration] using ledger.fresh
    due := fun call called => by
      rw [calls_append, noCall, List.append_nil] at called
      rcases List.mem_append.mp called with called | called
      · exact ledger.due call (List.mem_append_left _ called)
      · obtain ⟨id, listens, rfl⟩ := List.mem_map.mp called
        exact ledger.fresh id (ledger.listening.subset (cell.order.mem_arrange.mp listens))
    listening := by simpa [noRegistration] using ledger.listening
    delivered := fun id listens => by
      have heardNow : heard id ((cell.order.arrange (cell.listeners.map Prod.fst)).map
          fun id => (id, value)) = [value] :=
        heard_map (cell.order.nodup_arrange unique) (cell.order.mem_arrange.mpr listens)
      have := (ledger.delivered id listens).concat (e := .stored c value)
      simpa [noCall, store, heardNow] using this
    rounds := fun earlier stored later h => by
      rcases split_concat h with ⟨rfl, same, rfl⟩ | ⟨later, rfl, same⟩
      · have all : ∀ id ∈ cell.order.arrange (cell.listeners.map Prod.fst),
            (registrations c story).contains id = true := fun id listens =>
          List.contains_iff_mem.mpr (ledger.listening.subset (cell.order.mem_arrange.mp listens))
        have ids : ((cell.order.arrange (cell.listeners.map Prod.fst)).map
            fun id => (id, value)).map Prod.fst =
              cell.order.arrange (cell.listeners.map Prod.fst) := by
          rw [List.map_map]
          exact List.map_id _
        rw [pending, ids, List.filter_eq_self.mpr all]
        exact cell.order.arrange_sublist ledger.listening
      · have := ledger.rounds earlier stored later same
        rw [pending_nil, List.append_nil] at this
        simpa [round_concat, noCall, pending, store] using this }

/-- A listener is added; if it is to be called at once it is owed the value of the cell. -/
theorem registered (ledger : Ledger c start story owed cell) (l : Listener σ) (atOnce : Bool) :
    Ledger c start (story ++ [.registered c cell.nextId atOnce])
      ((greeting c start story atOnce).map (fun value => (cell.nextId, value)) ++ owed)
      (cell.register l) := by
  have noStore : stores c [.registered c cell.nextId atOnce] = [] := rfl
  have noCall : calls c [.registered c cell.nextId atOnce] = [] := rfl
  have registration : registrations c [.registered c cell.nextId atOnce] = [cell.nextId] := by
    simp [registrations, Event.registered?]
  -- the number is new, so nobody was called by it
  have notYet : heard cell.nextId (calls c story ++ owed) = [] := by
    rw [heard, List.filterMap_eq_nil_iff]
    intro call called
    exact if_neg (Nat.ne_of_lt (ledger.due call called))
  exact {
    value := by
      rw [valueAfter_of_stores_eq_nil noStore]
      exact ledger.value
    changes := by simpa [noStore] using ledger.changes
    numbers := by
      rw [registrations_append, registration, List.pairwise_append]
      refine ⟨ledger.numbers, List.pairwise_singleton _ _, fun id known new isNew => ?_⟩
      rw [List.mem_singleton.mp isNew]
      exact ledger.fresh id known
    fresh := fun id known => by
      rw [registrations_append, registration] at known
      rcases List.mem_append.mp known with known | known
      · exact Nat.lt_succ_of_lt (ledger.fresh id known)
      · rw [List.mem_singleton.mp known]
        exact Nat.lt_succ_self _
    due := fun call called => by
      rw [calls_append, noCall, List.append_nil] at called
      have known : call ∈ calls c story ++ owed → call.1 < cell.nextId + 1 := fun known =>
        Nat.lt_succ_of_lt (ledger.due call known)
      rcases List.mem_append.mp called with called | called
      · exact known (List.mem_append_left _ called)
      · rcases List.mem_append.mp called with called | called
        · obtain ⟨value, _, rfl⟩ := List.mem_map.mp called
          exact Nat.lt_succ_self _
        · exact known (List.mem_append_right _ called)
    listening := by
      rw [registrations_append, registration, Cell.register]
      dsimp only
      split
      · exact ledger.listening.trans (List.sublist_append_left _ _)
      · rw [List.map_append]
        exact ledger.listening.append (.refl _)
    delivered := fun id listens => by
      rw [calls_append, noCall, List.append_nil, heard_append, heard_append]
      rw [heard_append, List.append_eq_nil_iff] at notYet
      by_cases old : id ∈ cell.listeners.map Prod.fst
      · have ne : cell.nextId ≠ id :=
          Nat.ne_of_gt (ledger.fresh id (ledger.listening.subset old))
        have := (ledger.delivered id old).concat (e := .registered c cell.nextId atOnce)
        rw [heard_map_of_ne ne, List.nil_append]
        simpa [noStore] using this
      · have new : id = cell.nextId := by
          rw [Cell.register] at listens
          dsimp only at listens
          split at listens
          · exact absurd listens old
          · simpa [old] using listens
        subst new
        refine ⟨story, atOnce, [], rfl, ?_⟩
        rw [notYet.1, notYet.2, heard_map_self]
        rfl
    rounds := fun earlier stored later h => by
      rcases split_concat h with ⟨_, wrong, _⟩ | ⟨later, rfl, same⟩
      · cases wrong
      · -- a listener that is added in a round takes no part in it
        have unknown : cell.nextId ∉ registrations c earlier := fun known => by
          have : cell.nextId ∈ registrations c story := by
            rw [same, registrations_append]
            exact List.mem_append_left _ known
          exact Nat.lt_irrefl _ (ledger.fresh _ this)
        have greeted : pending c earlier later
            ((greeting c start story atOnce).map fun value => (cell.nextId, value)) = [] := by
          rw [pending]
          split
          · rw [List.filter_eq_nil_iff]
            intro id member
            obtain ⟨_, call, rfl⟩ := List.mem_map.mp member
            obtain ⟨value, _, rfl⟩ := List.mem_map.mp call
            simpa using unknown
          · rfl
        rw [round_concat, noCall, List.map_nil, List.filter_nil, ite_self, List.append_nil,
          pending_concat noStore, pending_append, greeted]
        exact ledger.rounds earlier stored later same }

end Ledger

end LayeredConfig.Live
