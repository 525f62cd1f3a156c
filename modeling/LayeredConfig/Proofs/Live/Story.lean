import LayeredConfig.Live.World
import Mathlib.Data.List.TakeWhile
/-!
# What a story says of a cell

A story is a list of events, the earliest first. Of one cell it says which values were stored, which
listeners were registered, and who was called with what. The values that a listener was told are
compared with those that were stored since it was registered.
-/
namespace LayeredConfig.Live

/-- The value that the event puts into a cell. -/
def Event.stored? (c : Nat) : Event → Option (Option Value)
  | .stored d value => if c = d then some value else none
  | _ => none

/-- The listener of a cell that the event is a call of, and what it is told. -/
def Event.called? (c : Nat) : Event → Option (Nat × Option Value)
  | .called d id _ value => if c = d then some (id, value) else none
  | _ => none

/-- The listener that the event adds to a cell. -/
def Event.registered? (c : Nat) : Event → Option Nat
  | .registered d id _ => if c = d then some id else none
  | _ => none

/-- The event tells of the values of a cell and of those who hear them. -/
def Event.about (c : Nat) : Event → Bool
  | .stored d _ | .registered d _ _ | .called d _ _ _ => c == d
  | _ => false

/-- The event puts off an update of a cell or takes a listener from it. -/
def Event.amid (c : Nat) : Event → Bool
  | .deferred d _ | .deregistered d _ => c == d
  | _ => false

namespace Event

variable {c : Nat} {e : Event}

theorem silent (off : e.about c = false) :
    e.stored? c = none ∧ e.called? c = none ∧ e.registered? c = none := by
  cases e with
  | stored d value => exact ⟨if_neg (by simpa [about] using off), rfl, rfl⟩
  | called d id name value => exact ⟨rfl, if_neg (by simpa [about] using off), rfl⟩
  | registered d id atOnce => exact ⟨rfl, rfl, if_neg (by simpa [about] using off)⟩
  | _ => exact ⟨rfl, rfl, rfl⟩

theorem called?_of_stored? {value : Option Value} (stored : e.stored? c = some value) :
    e.called? c = none := by
  cases e with
  | called => cases stored
  | _ => rfl

end Event

namespace Story

/-- The values that were stored in a cell. -/
def stores (c : Nat) (story : List Event) : List (Option Value) :=
  story.filterMap (·.stored? c)

/-- The calls of listeners of a cell. -/
def calls (c : Nat) (story : List Event) : List (Nat × Option Value) :=
  story.filterMap (·.called? c)

/-- The listeners that were added to a cell, in the order of their registration. -/
def registrations (c : Nat) (story : List Event) : List Nat :=
  story.filterMap (·.registered? c)

/-- What some calls tell a listener. -/
def heard (id : Nat) (calls : List (Nat × Option Value)) : List (Option Value) :=
  calls.filterMap fun call => if call.1 = id then some call.2 else none

/-- What a listener of a cell was told. -/
def told (c id : Nat) (story : List Event) : List (Option Value) :=
  heard id (calls c story)

/-- The value of a cell that had the value `start` before the story began. -/
def valueAfter (c : Nat) (start : Option Value) (story : List Event) : Option Value :=
  (stores c story).getLastD start

/-- What a listener is told when it is registered after a story: if it is to be called at once, the
value of the cell, provided that there is one. -/
def greeting (c : Nat) (start : Option Value) (story : List Event) (atOnce : Bool) :
    List (Option Value) :=
  if atOnce then (valueAfter c start story).toList.map some else []

/-- The part of a story before the next value is stored in a cell. -/
def untilStore (c : Nat) (story : List Event) : List Event :=
  story.takeWhile fun e => (e.stored? c).isNone

/-- The round of calls for a value that was stored between an earlier and a later part of a story:
those listeners that were registered before and are called before the next value is stored. -/
def round (c : Nat) (earlier later : List Event) : List Nat :=
  ((calls c (untilStore c later)).map Prod.fst).filter (registrations c earlier).contains

variable {c id : Nat} {a b story : List Event}

@[simp] theorem stores_append : stores c (a ++ b) = stores c a ++ stores c b :=
  List.filterMap_append

@[simp] theorem calls_append : calls c (a ++ b) = calls c a ++ calls c b :=
  List.filterMap_append

@[simp] theorem registrations_append :
    registrations c (a ++ b) = registrations c a ++ registrations c b :=
  List.filterMap_append

@[simp] theorem heard_append (a b : List (Nat × Option Value)) :
    heard id (a ++ b) = heard id a ++ heard id b :=
  List.filterMap_append

/-- Events that do not tell of a cell do not count for it. -/
theorem of_silent (silent : ∀ e ∈ story, e.about c = false) :
    stores c story = [] ∧ calls c story = [] ∧ registrations c story = [] := by
  refine ⟨?_, ?_, ?_⟩ <;> refine List.filterMap_eq_nil_iff.mpr fun e member => ?_
  · exact (Event.silent (silent e member)).1
  · exact (Event.silent (silent e member)).2.1
  · exact (Event.silent (silent e member)).2.2

theorem getLast?_cons_stores (start : Option Value) :
    (start :: stores c story).getLast? = some (valueAfter c start story) := by
  rw [List.getLast?_cons, valueAfter, List.getLastD_eq_getLast?]

theorem valueAfter_of_stores_eq_nil {start : Option Value} (none : stores c b = []) :
    valueAfter c start (a ++ b) = valueAfter c start a := by
  rw [valueAfter, stores_append, none, List.append_nil, valueAfter]

theorem untilStore_of_stores_eq_nil (none : stores c story = []) : untilStore c story = story := by
  rw [untilStore, List.takeWhile_eq_self_iff]
  intro e he
  rw [List.filterMap_eq_nil_iff.mp none e he, Option.isNone_none]

theorem untilStore_append_of_stores_ne_nil (some : stores c a ≠ []) :
    untilStore c (a ++ b) = untilStore c a := by
  induction a with
  | nil => exact absurd rfl some
  | cons e rest ih =>
    cases stored : e.stored? c with
    | none =>
      have later : stores c rest ≠ [] := by simpa [stores, stored] using some
      have := ih later
      simp_all [untilStore]
    | some value => simp [untilStore, stored]

/-- One more event: the calls before the next store go on with it until a value is stored. -/
theorem callsUntil_concat (later : List Event) (e : Event) :
    calls c (untilStore c (later ++ [e])) = calls c (untilStore c later) ++
      if (stores c later).isEmpty then calls c [e] else [] := by
  cases stored : (stores c later).isEmpty with
  | true =>
    have none : stores c later = [] := List.isEmpty_iff.mp stored
    have before : untilStore c later = later := untilStore_of_stores_eq_nil none
    cases here : e.stored? c with
    | none =>
      have all : stores c (later ++ [e]) = [] := by
        rw [stores_append, none, stores, List.filterMap_cons, here]
        rfl
      simp [before, untilStore_of_stores_eq_nil all]
    | some value =>
      have stops : untilStore c (later ++ [e]) = later := by
        rw [untilStore, List.takeWhile_append_of_pos fun x hx => ?_, List.takeWhile_cons]
        · simp [here]
        · exact List.takeWhile_eq_self_iff.mp before x hx
      have silent : calls c [e] = [] := by
        rw [calls, List.filterMap_cons, Event.called?_of_stored? here]
        rfl
      simp [before, stops, silent]
  | false =>
    have some : stores c later ≠ [] := fun none => by simp [none] at stored
    simp [untilStore_append_of_stores_ne_nil some]

/-- One more event: a round goes on with it until the next value is stored. -/
theorem round_concat (earlier later : List Event) (e : Event) :
    round c earlier (later ++ [e]) = round c earlier later ++
      if (stores c later).isEmpty then
        ((calls c [e]).map Prod.fst).filter (registrations c earlier).contains else [] := by
  rw [round, callsUntil_concat, List.map_append, List.filter_append, round]
  split <;> rfl

/-- The last event of a story is the one at which the story is taken apart, or it belongs to the
later part. -/
theorem split_concat {e x : Event} {earlier later : List Event}
    (h : story ++ [e] = earlier ++ x :: later) :
    (later = [] ∧ e = x ∧ story = earlier) ∨
      ∃ later', later = later' ++ [e] ∧ story = earlier ++ x :: later' := by
  rcases List.eq_nil_or_concat later with rfl | ⟨later', last, rfl⟩
  · obtain ⟨same, last⟩ := List.append_inj' h rfl
    exact .inl ⟨rfl, List.singleton_inj.mp last, same⟩
  · rw [List.concat_eq_append] at h ⊢
    rw [← List.cons_append, ← List.append_assoc] at h
    obtain ⟨same, last⟩ := List.append_inj' h rfl
    cases List.singleton_inj.mp last
    exact .inr ⟨later', rfl, same⟩

end Story

end LayeredConfig.Live
