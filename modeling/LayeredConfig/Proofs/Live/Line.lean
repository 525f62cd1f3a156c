import LayeredConfig.Proofs.Live.Ledger
/-!
# Updates that wait in line

Updates of a cell whose listeners are being called wait in line. What is stored is what comes of
applying them in the order in which they were made, each of them compared with the value that the
cell has by then, and each value that is stored is told to everybody who listens at that moment
before the next update is applied. `Line` states this for one cell, a story and the calls owed, at
any moment; each change of the cell with its event keeps it.
-/
namespace LayeredConfig.Live

variable {σ : Type}

/-- The update of a cell that the event puts off. -/
def Event.deferred? (c : Nat) : Event → Option (Option Value)
  | .deferred d value => if c = d then some value else none
  | _ => none

/-- Who listens to a cell after the event, as long as the cell is open. -/
def Event.listening (c : Nat) (ids : List Nat) : Event → List Nat
  | .registered d id _ => if c = d then ids ++ [id] else ids
  | .deregistered d id => if c = d then ids.filter (· != id) else ids
  | _ => ids

/-- The values that are stored when updates are applied in order to a cell that holds a value: those
that differ from the value which the cell has by then. -/
def changes (held : Option Value) : List (Option Value) → List (Option Value)
  | [] => []
  | value :: later => if held == value then changes held later else value :: changes value later

/-- What a cell holds in the end does not depend on where a list of updates is cut. -/
theorem changes_append (held : Option Value) (a b : List (Option Value)) :
    changes held (a ++ b) = changes held a ++ changes ((changes held a).getLastD held) b := by
  induction a generalizing held with
  | nil => rfl
  | cons value later ih =>
    by_cases same : (held == value) = true
    · simp only [List.cons_append, changes, same, if_true, ih]
    · simp only [List.cons_append, changes, if_neg same, ih, List.getLastD_cons]

namespace Story

/-- The updates of a cell that were put off. -/
def deferrals (c : Nat) (story : List Event) : List (Option Value) :=
  story.filterMap (·.deferred? c)

/-- Who listens to a cell after a story, as long as the cell is open. -/
def listening (c : Nat) (ids : List Nat) (story : List Event) : List Nat :=
  story.foldl (Event.listening c) ids

/-- Those of some calls that are not of listeners added in the course of a story. -/
def standing (c : Nat) (later : List Event) (calls : List (Nat × Option Value)) :
    List (Nat × Option Value) :=
  calls.filter fun call => !(registrations c later).contains call.1

/-- The calls that follow when a value was stored, before the next one is, of listeners that there
were already. -/
def fullRound (c : Nat) (later : List Event) : List (Nat × Option Value) :=
  standing c later (calls c (untilStore c later))

/-- Those of the calls owed that belong to the round for the value that was stored last. -/
def leftOver (c : Nat) (later : List Event) (owed : List (Nat × Option Value)) :
    List (Nat × Option Value) :=
  if (stores c later).isEmpty then standing c later owed else []

variable {c : Nat} {start : Option Value} {ids : List Nat} {story later : List Event} {e : Event}
  {owed : List (Nat × Option Value)}

theorem deferrals_append : deferrals c (story ++ later) = deferrals c story ++ deferrals c later :=
  List.filterMap_append

/-- Only updates that are put off count as such. -/
theorem deferrals_of_quiet (quiet : ∀ e ∈ story, e.amid c = false) : deferrals c story = [] := by
  refine List.filterMap_eq_nil_iff.mpr fun e member => ?_
  have off := quiet e member
  cases e with
  | deferred d value => exact if_neg (by simpa [Event.amid] using off)
  | _ => rfl

theorem listening_concat (e : Event) :
    listening c ids (story ++ [e]) = e.listening c (listening c ids story) := by
  simp [listening]

theorem standing_concat (none : registrations c [e] = []) (calls : List (Nat × Option Value)) :
    standing c (later ++ [e]) calls = standing c later calls := by
  simp [standing, none]

/-- A listener that is added has not been called before. -/
theorem standing_registered {id : Nat} {atOnce : Bool} {calls : List (Nat × Option Value)}
    (earlier : ∀ call ∈ calls, call.1 < id) :
    standing c (later ++ [.registered c id atOnce]) calls = standing c later calls := by
  have registration : registrations c [.registered c id atOnce] = [id] := by
    simp [registrations, Event.registered?]
  refine List.filter_congr fun call member => ?_
  have other : call.1 ≠ id := Nat.ne_of_lt (earlier call member)
  simp [registration, other]

theorem leftOver_nil : leftOver c later [] = [] := by
  simp [leftOver, standing]

/-- The first calls that are owed belong to a round as the others do. -/
theorem leftOver_append (a b : List (Nat × Option Value)) :
    leftOver c later (a ++ b) = leftOver c later a ++ leftOver c later b := by
  simp only [leftOver, standing]
  split <;> simp

theorem leftOver_stored (value : Option Value) :
    leftOver c (later ++ [.stored c value]) owed = [] := by
  simp [leftOver, stores, Event.stored?]

theorem fullRound_concat (none : registrations c [e] = []) :
    fullRound c (later ++ [e]) = fullRound c later ++ leftOver c later (calls c [e]) := by
  rw [fullRound, standing_concat none, callsUntil_concat, fullRound, leftOver]
  split <;> simp [standing]

theorem mem_listening {id : Nat} (listens : id ∈ listening c ids story) :
    id ∈ ids ∨ id ∈ registrations c story := by
  induction story using List.reverseRecOn with
  | nil => exact .inl listens
  | append_singleton story e ih =>
    rw [listening_concat] at listens
    rw [registrations_append]
    -- an event adds the listener that it tells of, or nobody
    have before (still : id ∈ listening c ids story) :
        id ∈ ids ∨ id ∈ registrations c story ++ registrations c [e] :=
      (ih still).imp_right (List.mem_append_left _)
    cases e with
    | registered d other atOnce =>
      rw [Event.listening] at listens
      split at listens
      next same =>
        subst same
        rcases List.mem_append.mp listens with still | new
        · exact before still
        · refine .inr (List.mem_append_right _ ?_)
          rw [List.mem_singleton.mp new]
          simp [registrations, Event.registered?]
      next => exact before listens
    | deregistered d other =>
      rw [Event.listening] at listens
      split at listens
      · exact before (List.mem_filter.mp listens).1
      · exact before listens
    | _ => exact before listens

end Story

open Story

/-- A cell that had the value `start` before the story began, with `ids` listening to it, answers to
the story. The updates `first` were made from outside; of all updates some are done with, others are
just being applied, and the rest wait. -/
structure Line (c : Nat) (start : Option Value) (ids : List Nat) (first : List (Option Value))
    (story : List Event) (applying : List (Option Value)) (owed : List (Nat × Option Value))
    (cell : Cell σ) : Prop where
  queue : ∃ done, first ++ deferrals c story = done ++ (applying ++ cell.deferred) ∧
    stores c story = changes start done
  value : cell.value = valueAfter c start story
  listening : cell.listeners.map Prod.fst = Story.listening c ids story
  unique : (cell.listeners.map Prod.fst).Nodup
  known : ∀ id ∈ ids, id < cell.nextId
  added : ∀ id ∈ registrations c story, id < cell.nextId
  due : ∀ call ∈ calls c story ++ owed, call.1 < cell.nextId
  rounds : ∀ earlier value later, story = earlier ++ .stored c value :: later →
    fullRound c later ++ leftOver c later owed =
      (cell.order.arrange (Story.listening c ids earlier)).map fun id => (id, value)
  heard : ∀ id ∈ ids, id ∈ Story.listening c ids story →
    Story.heard id (calls c story ++ owed) = stores c story

namespace Line

variable {c : Nat} {start : Option Value} {ids : List Nat} {first applying : List (Option Value)}
  {story : List Event} {owed : List (Nat × Option Value)} {cell : Cell σ}

/-- Nothing has happened yet. -/
theorem begin (c : Nat) (first : List (Option Value)) (nothing : cell.deferred = [])
    (unique : (cell.listeners.map Prod.fst).Nodup)
    (known : ∀ id ∈ cell.listeners.map Prod.fst, id < cell.nextId) :
    Line c cell.value (cell.listeners.map Prod.fst) first [] first [] cell where
  queue := ⟨[], by simp [deferrals, nothing], rfl⟩
  value := rfl
  listening := rfl
  unique
  known
  added := nofun
  due := nofun
  rounds earlier value later h := by simp at h
  heard _ _ _ := rfl

/-- The cell changed in nothing that matters to updates and listeners. -/
theorem congr (line : Line c start ids first story applying owed cell) {cell' : Cell σ}
    (value : cell'.value = cell.value) (order : cell'.order = cell.order)
    (nextId : cell'.nextId = cell.nextId) (listeners : cell'.listeners = cell.listeners)
    (deferred : cell'.deferred = cell.deferred) :
    Line c start ids first story applying owed cell' where
  queue := by rw [deferred]; exact line.queue
  value := by rw [value]; exact line.value
  listening := by rw [listeners]; exact line.listening
  unique := by rw [listeners]; exact line.unique
  known := by rw [nextId]; exact line.known
  added := by rw [nextId]; exact line.added
  due := by rw [nextId]; exact line.due
  rounds := by rw [order]; exact line.rounds
  heard := line.heard

/-- An event that neither stores a value nor adds or removes a listener nor puts off an update; if
it is a call it was owed. -/
theorem further (line : Line c start ids first story applying owed cell) {e : Event}
    (noStore : stores c [e] = []) (noRegistration : registrations c [e] = [])
    (quiet : e.amid c = false) {left : List (Nat × Option Value)}
    (called : calls c [e] ++ left = owed) :
    Line c start ids first (story ++ [e]) applying left cell := by
  have all : calls c (story ++ [e]) ++ left = calls c story ++ owed := by
    rw [calls_append, List.append_assoc, called]
  have noDeferral : deferrals c [e] = [] := deferrals_of_quiet (by simpa using quiet)
  have listeners : Story.listening c ids (story ++ [e]) = Story.listening c ids story := by
    rw [listening_concat]
    cases e with
    | registered d id atOnce =>
      have other : c ≠ d := by
        rintro rfl
        simp [registrations, Event.registered?] at noRegistration
      exact if_neg other
    | deregistered d id => exact if_neg (by simpa [Event.amid] using quiet)
    | _ => rfl
  exact {
    queue := by
      obtain ⟨done, inLine, stored⟩ := line.queue
      refine ⟨done, ?_, ?_⟩
      · rw [deferrals_append, noDeferral, List.append_nil, inLine]
      · rw [stores_append, noStore, List.append_nil, stored]
    value := by rw [valueAfter_of_stores_eq_nil noStore, line.value]
    listening := by rw [listeners, line.listening]
    unique := line.unique
    known := line.known
    added := by simpa [noRegistration] using line.added
    due := by
      rw [all]
      exact line.due
    rounds := fun earlier value later h => by
      rcases split_concat h with ⟨_, rfl, _⟩ | ⟨later, rfl, same⟩
      · simp [stores, Event.stored?] at noStore
      · -- what the event adds to the round is what it takes from the calls that are owed
        have rounds := line.rounds earlier value later same
        rw [← called, leftOver_append] at rounds
        have left : leftOver c (later ++ [e]) left = leftOver c later left := by
          simp [leftOver, noStore, standing_concat noRegistration]
        rw [fullRound_concat noRegistration, left, List.append_assoc]
        exact rounds
    heard := fun id known listens => by
      rw [all, stores_append, noStore, List.append_nil]
      exact line.heard id known (listeners ▸ listens) }

/-- An event that does not tell of the cell. -/
theorem silent (line : Line c start ids first story applying owed cell) {e : Event}
    (off : e.about c = false) (quiet : e.amid c = false) :
    Line c start ids first (story ++ [e]) applying owed cell := by
  have alone : ∀ x ∈ [e], x.about c = false := by simpa using off
  obtain ⟨noStore, noCall, noRegistration⟩ := of_silent alone
  exact line.further noStore noRegistration quiet (by rw [noCall, List.nil_append])

theorem silentAll (line : Line c start ids first story applying owed cell) (events : List Event)
    (off : ∀ e ∈ events, e.about c = false) (quiet : ∀ e ∈ events, e.amid c = false) :
    Line c start ids first (story ++ events) applying owed cell := by
  induction events generalizing story with
  | nil => simpa using line
  | cons e rest ih =>
    have one := line.silent (off e List.mem_cons_self) (quiet e List.mem_cons_self)
    have all := ih one (fun x member => off x (List.mem_cons_of_mem _ member))
      fun x member => quiet x (List.mem_cons_of_mem _ member)
    rwa [List.append_assoc] at all

/-- A call that was owed is made. -/
theorem told {id : Nat} {value : Option Value}
    (line : Line c start ids first story applying ((id, value) :: owed) cell) (name : String) :
    Line c start ids first (story ++ [.called c id name value]) applying owed cell := by
  have call : calls c [.called c id name value] = [(id, value)] := by
    simp [calls, Event.called?]
  exact line.further rfl rfl rfl (by rw [call, List.singleton_append])

/-- An update is put off. -/
theorem deferred (line : Line c start ids first story applying owed cell) (value : Option Value) :
    Line c start ids first (story ++ [.deferred c value]) applying owed (cell.defer value) := by
  have noCall : calls c [.deferred c value] = [] := rfl
  have noRegistration : registrations c [.deferred c value] = [] := rfl
  have deferral : deferrals c [.deferred c value] = [value] := by
    simp [deferrals, Event.deferred?]
  have same : Story.listening c ids (story ++ [.deferred c value]) =
      Story.listening c ids story := by
    rw [listening_concat]
    rfl
  exact {
    queue := by
      obtain ⟨done, inLine, stored⟩ := line.queue
      refine ⟨done, ?_, ?_⟩
      · rw [deferrals_append, deferral, ← List.append_assoc, inLine]
        simp [Cell.defer]
      · simpa [stores, Event.stored?] using stored
    value := by rw [valueAfter_of_stores_eq_nil rfl]; exact line.value
    listening := by rw [same]; exact line.listening
    unique := line.unique
    known := line.known
    added := by rw [registrations_append, noRegistration, List.append_nil]; exact line.added
    due := by rw [calls_append, noCall, List.append_nil]; exact line.due
    rounds := fun earlier stored later h => by
      rcases split_concat h with ⟨_, wrong, _⟩ | ⟨later, rfl, earlier'⟩
      · cases wrong
      · have left : leftOver c (later ++ [.deferred c value]) owed = leftOver c later owed := by
          simp [leftOver, standing_concat noRegistration, stores, Event.stored?]
        rw [fullRound_concat noRegistration, noCall, leftOver_nil, List.append_nil, left]
        exact line.rounds earlier stored later earlier'
    heard := fun id known listens => by
      rw [same] at listens
      simpa [calls, stores, Event.called?, Event.stored?] using line.heard id known listens }

/-- The next update in line comes to be applied. -/
theorem turned {value : Option Value} {waiting : List (Option Value)}
    (line : Line c start ids first story [] owed cell) (next : cell.deferred = value :: waiting) :
    Line c start ids first story [value] owed { cell with deferred := waiting } where
  queue := by
    obtain ⟨done, inLine, stored⟩ := line.queue
    exact ⟨done, by simpa [next] using inLine, stored⟩
  value := line.value
  listening := line.listening
  unique := line.unique
  known := line.known
  added := line.added
  due := line.due
  rounds := line.rounds
  heard := line.heard

/-- An update that makes no difference is done with. -/
theorem kept {value : Option Value} (line : Line c start ids first story [value] owed cell)
    (same : (cell.value == value) = true) : Line c start ids first story [] owed cell where
  queue := by
    obtain ⟨done, inLine, stored⟩ := line.queue
    have held : (changes start done).getLastD start = cell.value := by
      rw [← stored, line.value, valueAfter]
    refine ⟨done ++ [value], by simpa using inLine, ?_⟩
    rw [changes_append, held, changes, if_pos same, changes, List.append_nil, stored]
  value := line.value
  listening := line.listening
  unique := line.unique
  known := line.known
  added := line.added
  due := line.due
  rounds := line.rounds
  heard := line.heard

/-- An update is stored, and everybody who listens is owed a call. -/
theorem stored {value : Option Value} (line : Line c start ids first story [value] [] cell)
    (changed : (cell.value == value) = false) :
    Line c start ids first (story ++ [.stored c value]) []
      ((cell.order.arrange (cell.listeners.map Prod.fst)).map fun id => (id, value))
      { cell with value } := by
  have noCall : calls c [.stored c value] = [] := rfl
  have noRegistration : registrations c [.stored c value] = [] := rfl
  have store : stores c [.stored c value] = [value] := by simp [stores, Event.stored?]
  have noDeferral : deferrals c [.stored c value] = [] := rfl
  have same : Story.listening c ids (story ++ [.stored c value]) = Story.listening c ids story := by
    rw [listening_concat]
    rfl
  exact {
    queue := by
      obtain ⟨done, inLine, stored⟩ := line.queue
      have held : (changes start done).getLastD start = cell.value := by
        rw [← stored, line.value, valueAfter]
      have differs : ¬(cell.value == value) = true := by simp [changed]
      refine ⟨done ++ [value], ?_, ?_⟩
      · rw [deferrals_append, noDeferral, List.append_nil, inLine]
        simp
      · rw [stores_append, store, changes_append, held, changes, if_neg differs, changes, stored]
    value := by simp [valueAfter, store]
    listening := by rw [same]; exact line.listening
    unique := line.unique
    known := line.known
    added := by simpa [noRegistration] using line.added
    due := fun call called => by
      rw [calls_append, noCall, List.append_nil] at called
      rcases List.mem_append.mp called with called | called
      · exact line.due call (List.mem_append_left _ called)
      · obtain ⟨id, listens, rfl⟩ := List.mem_map.mp called
        rw [cell.order.mem_arrange, line.listening] at listens
        exact (mem_listening listens).elim (line.known id) (line.added id)
    rounds := fun earlier stored later h => by
      rcases split_concat h with ⟨rfl, same, rfl⟩ | ⟨later, rfl, earlier'⟩
      · -- the round for this value has not begun, and everybody who listens is owed a call
        cases same
        have all (owed : List (Nat × Option Value)) : leftOver c [] owed = owed :=
          List.filter_eq_self.mpr fun _ _ => rfl
        have none : fullRound c [] = [] := rfl
        rw [all, none, List.nil_append, line.listening]
      · have rounds := line.rounds earlier stored later earlier'
        rw [leftOver_nil, List.append_nil] at rounds
        rw [leftOver_stored, List.append_nil, fullRound_concat noRegistration, noCall, leftOver_nil,
          List.append_nil]
        exact rounds
    heard := fun id known listens => by
      rw [same, ← line.listening] at listens
      have heardNow : Story.heard id ((cell.order.arrange (cell.listeners.map Prod.fst)).map
          fun id => (id, value)) = [value] :=
        Ledger.heard_map (cell.order.nodup_arrange line.unique)
          (cell.order.mem_arrange.mpr listens)
      have before := line.heard id known (line.listening ▸ listens)
      rw [List.append_nil] at before
      rw [calls_append, noCall, List.append_nil, heard_append, heardNow, before, stores_append,
        store] }

/-- A listener is added to an open cell; if it is to be called at once it is owed some calls. -/
theorem registered (line : Line c start ids first story applying owed cell)
    (opened : cell.closed = false) (l : Listener σ) (atOnce : Bool)
    (greeting : List (Option Value)) :
    Line c start ids first (story ++ [.registered c cell.nextId atOnce]) applying
      (greeting.map (fun value => (cell.nextId, value)) ++ owed) (cell.register l) := by
  have noStore : stores c [.registered c cell.nextId atOnce] = [] := rfl
  have noCall : calls c [.registered c cell.nextId atOnce] = [] := rfl
  have noDeferral : deferrals c [.registered c cell.nextId atOnce] = [] := rfl
  have registration : registrations c [.registered c cell.nextId atOnce] = [cell.nextId] := by
    simp [registrations, Event.registered?]
  have one : Story.listening c ids (story ++ [.registered c cell.nextId atOnce]) =
      Story.listening c ids story ++ [cell.nextId] := by
    rw [listening_concat]
    exact if_pos rfl
  have listeners : (cell.register l).listeners = cell.listeners ++ [(cell.nextId, l)] := by
    simp [Cell.register, opened]
  -- the number is new
  have earlier : ∀ id ∈ cell.listeners.map Prod.fst, id < cell.nextId := fun id listens => by
    rw [line.listening] at listens
    exact (mem_listening listens).elim (line.known id) (line.added id)
  exact {
    queue := by
      obtain ⟨done, inLine, stored⟩ := line.queue
      refine ⟨done, ?_, ?_⟩
      · rw [deferrals_append, noDeferral, List.append_nil, inLine]
        rfl
      · rw [stores_append, noStore, List.append_nil, stored]
    value := by rw [valueAfter_of_stores_eq_nil noStore]; exact line.value
    listening := by rw [one, listeners, List.map_append, line.listening]; rfl
    unique := by
      rw [listeners, List.map_append, List.nodup_append]
      refine ⟨line.unique, List.pairwise_singleton _ _, fun id listens other new => ?_⟩
      rw [List.map_singleton, List.mem_singleton] at new
      rw [new]
      exact Nat.ne_of_lt (earlier id listens)
    known := fun id known => Nat.lt_succ_of_lt (line.known id known)
    added := fun id known => by
      rw [registrations_append, registration] at known
      rcases List.mem_append.mp known with known | new
      · exact Nat.lt_succ_of_lt (line.added id known)
      · rw [List.mem_singleton.mp new]
        exact Nat.lt_succ_self _
    due := fun call called => by
      rw [calls_append, noCall, List.append_nil] at called
      have known (known : call ∈ calls c story ++ owed) : call.1 < cell.nextId + 1 :=
        Nat.lt_succ_of_lt (line.due call known)
      rcases List.mem_append.mp called with called | called
      · exact known (List.mem_append_left _ called)
      · rcases List.mem_append.mp called with called | called
        · obtain ⟨value, _, rfl⟩ := List.mem_map.mp called
          exact Nat.lt_succ_self _
        · exact known (List.mem_append_right _ called)
    rounds := fun earlier stored later h => by
      rcases split_concat h with ⟨_, wrong, _⟩ | ⟨later, rfl, earlier'⟩
      · cases wrong
      · -- a listener that is added in a round takes no part in it
        have calledBefore : ∀ call ∈ calls c (untilStore c later), call.1 < cell.nextId := by
          intro call called
          refine line.due call (List.mem_append_left _ ?_)
          rw [earlier', calls_append]
          refine List.mem_append_right _ ?_
          have part : calls c (untilStore c later) ⊆ calls c (.stored c stored :: later) :=
            ((List.takeWhile_sublist _).cons _).filterMap _ |>.subset
          exact part called
        have round : fullRound c (later ++ [.registered c cell.nextId atOnce]) =
            fullRound c later := by
          rw [fullRound, callsUntil_concat, noCall, ite_self, List.append_nil,
            standing_registered calledBefore, fullRound]
        have left : leftOver c (later ++ [.registered c cell.nextId atOnce])
            (greeting.map (fun value => (cell.nextId, value)) ++ owed) =
              leftOver c later owed := by
          have greeted : standing c (later ++ [.registered c cell.nextId atOnce])
              (greeting.map fun value => (cell.nextId, value)) = [] := by
            rw [standing, List.filter_eq_nil_iff]
            intro call called
            obtain ⟨value, _, rfl⟩ := List.mem_map.mp called
            simp [registration]
          have others : standing c (later ++ [.registered c cell.nextId atOnce]) owed =
              standing c later owed :=
            standing_registered fun call called => line.due call (List.mem_append_right _ called)
          rw [leftOver_append, leftOver, leftOver, stores_append, noStore, List.append_nil, greeted,
            others, ite_self, List.nil_append, leftOver]
        rw [round, left]
        exact line.rounds earlier stored later earlier'
    heard := fun id known listens => by
      have other : cell.nextId ≠ id := Nat.ne_of_gt (line.known id known)
      rw [one] at listens
      have still : id ∈ Story.listening c ids story := by
        rcases List.mem_append.mp listens with still | new
        · exact still
        · exact absurd (List.mem_singleton.mp new).symm other
      have before := line.heard id known still
      rw [calls_append, noCall, List.append_nil, heard_append, heard_append,
        Ledger.heard_map_of_ne other, List.nil_append, ← heard_append, before, stores_append,
        noStore, List.append_nil] }

/-- A listener is removed. Calls that are owed to it are made all the same. -/
theorem deregistered (line : Line c start ids first story applying owed cell) (id : Nat) :
    Line c start ids first (story ++ [.deregistered c id]) applying owed (cell.deregister id) := by
  have noStore : stores c [.deregistered c id] = [] := rfl
  have noCall : calls c [.deregistered c id] = [] := rfl
  have noRegistration : registrations c [.deregistered c id] = [] := rfl
  have noDeferral : deferrals c [.deregistered c id] = [] := rfl
  have fewer : Story.listening c ids (story ++ [.deregistered c id]) =
      (Story.listening c ids story).filter (· != id) := by
    rw [listening_concat]
    exact if_pos rfl
  have left : (cell.deregister id).listeners.map Prod.fst =
      (cell.listeners.map Prod.fst).filter (· != id) := by
    rw [List.filter_map]
    rfl
  exact {
    queue := by
      obtain ⟨done, inLine, stored⟩ := line.queue
      refine ⟨done, ?_, ?_⟩
      · rw [deferrals_append, noDeferral, List.append_nil, inLine]
        rfl
      · rw [stores_append, noStore, List.append_nil, stored]
    value := by rw [valueAfter_of_stores_eq_nil noStore]; exact line.value
    listening := by rw [fewer, left, line.listening]
    unique := by rw [left]; exact line.unique.filter _
    known := line.known
    added := by rw [registrations_append, noRegistration, List.append_nil]; exact line.added
    due := by rw [calls_append, noCall, List.append_nil]; exact line.due
    rounds := fun earlier stored later h => by
      rcases split_concat h with ⟨_, wrong, _⟩ | ⟨later, rfl, earlier'⟩
      · cases wrong
      · have same : leftOver c (later ++ [.deregistered c id]) owed = leftOver c later owed := by
          simp [leftOver, standing_concat noRegistration, noStore]
        rw [fullRound_concat noRegistration, noCall, leftOver_nil, List.append_nil, same]
        exact line.rounds earlier stored later earlier'
    heard := fun other known listens => by
      rw [fewer] at listens
      have before := line.heard other known (List.mem_filter.mp listens).1
      rw [calls_append, noCall, List.append_nil, stores_append, noStore, List.append_nil]
      exact before }

end Line

end LayeredConfig.Live
