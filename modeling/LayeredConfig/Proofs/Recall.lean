import LayeredConfig.Error
import LayeredConfig.TtlCache
/-!
# What a cache recalls

Something that is got under a key may be kept in a cache. What the cache then finds under a key is
decided by the history of the attempts alone: it is what the last attempt that succeeded gave, as
long as the lifetime has not passed since. Sweeps play no part, since they take away only what would
not be found any more, and neither do attempts that failed.

Main statement: `Recalls` holds of a new cache, and every attempt keeps it.
-/
namespace LayeredConfig

/-- An attempt to get something that may be kept. -/
structure Attempt (κ ν : Type) where
  key : κ
  time : Nat
  outcome : Except ConfigError ν

/-- The last of the attempts for a key that succeeded gave `value`, and was made at `time`. The
attempts stand with the latest first. -/
def LastSuccess {κ ν : Type} (attempts : List (Attempt κ ν)) (key : κ) (time : Nat) (value : ν) :
    Prop :=
  ∃ later earlier, attempts = later ++ ⟨key, time, .ok value⟩ :: earlier ∧
    ∀ a ∈ later, a.key = key → ∃ e, a.outcome = .error e

/-- What the last attempt that succeeded gave, if `ttl` has not passed since. -/
def Remembered {κ ν : Type} (ttl : Nat) (attempts : List (Attempt κ ν)) (now : Nat) (key : κ)
    (value : ν) : Prop :=
  ∃ time, LastSuccess attempts key time value ∧ now < time + ttl

section History

variable {κ ν : Type} {attempts : List (Attempt κ ν)} {a : Attempt κ ν} {key : κ}
  {value value' : ν} {ttl now later time : Nat}

theorem not_lastSuccess_nil : ¬ LastSuccess ([] : List (Attempt κ ν)) key time value := by
  rintro ⟨later, earlier, split, -⟩
  simp at split

theorem lastSuccess_cons : LastSuccess (a :: attempts) key time value ↔
    a = ⟨key, time, .ok value⟩ ∨
      (a.key = key → ∃ e, a.outcome = .error e) ∧ LastSuccess attempts key time value := by
  constructor
  · rintro ⟨later, earlier, split, failed⟩
    cases later with
    | nil =>
      rw [List.nil_append, List.cons.injEq] at split
      exact .inl split.1
    | cons first rest =>
      rw [List.cons_append, List.cons.injEq] at split
      obtain ⟨rfl, split⟩ := split
      refine .inr ⟨failed a List.mem_cons_self, rest, earlier, split, ?_⟩
      exact fun b member => failed b (List.mem_cons_of_mem _ member)
  · rintro (rfl | ⟨failed, later, earlier, rfl, others⟩)
    · exact ⟨[], attempts, rfl, List.forall_mem_nil _⟩
    · exact ⟨a :: later, earlier, rfl, List.forall_mem_cons.2 ⟨failed, others⟩⟩

/-- An attempt that succeeded is the last one under its key. -/
theorem remembered_cons_ok : Remembered ttl (⟨key, time, .ok value⟩ :: attempts) now key value' ↔
    value' = value ∧ now < time + ttl := by
  simp only [Remembered, lastSuccess_cons, Attempt.mk.injEq, Except.ok.injEq, true_and,
    reduceCtorEq, exists_false, imp_false, not_true_eq_false, false_and, or_false]
  constructor
  · rintro ⟨_, ⟨rfl, rfl⟩, fresh⟩
    exact ⟨rfl, fresh⟩
  · rintro ⟨rfl, fresh⟩
    exact ⟨time, ⟨rfl, rfl⟩, fresh⟩

/-- An attempt under another key, or one that failed, changes nothing. -/
theorem remembered_cons_of_idle (idle : a.key = key → ∃ e, a.outcome = .error e) :
    Remembered ttl (a :: attempts) now key value ↔ Remembered ttl attempts now key value := by
  have other (t : Nat) : a ≠ ⟨key, t, .ok value⟩ := by
    rintro rfl
    obtain ⟨e, failed⟩ := idle rfl
    cases failed
  simp only [Remembered, lastSuccess_cons, other, false_or, and_iff_right idle]

/-- Nothing is remembered longer than before. -/
theorem Remembered.earlier (remembered : Remembered ttl attempts later key value)
    (order : now ≤ later) : Remembered ttl attempts now key value := by
  obtain ⟨time, last, fresh⟩ := remembered
  exact ⟨time, last, Nat.lt_of_le_of_lt order fresh⟩

/-- The attempts on record once some more were made, one after the other. -/
def recorded {α : Type} (attempt : α → Attempt κ ν) (made : List α)
    (attempts : List (Attempt κ ν)) : List (Attempt κ ν) :=
  (made.map attempt).reverse ++ attempts

theorem recorded_cons {α : Type} (attempt : α → Attempt κ ν) (first : α) (made : List α) :
    recorded attempt (first :: made) attempts =
      recorded attempt made (attempt first :: attempts) := by
  simp [recorded]

/-- Attempts under other keys, and attempts that failed, do not change what is remembered. -/
theorem remembered_recorded {α : Type} {attempt : α → Attempt κ ν} {made : List α}
    (idle : ∀ x ∈ made, (attempt x).key = key → ∃ e, (attempt x).outcome = .error e) :
    Remembered ttl (recorded attempt made attempts) now key value ↔
      Remembered ttl attempts now key value := by
  induction made generalizing attempts with
  | nil => rfl
  | cons first rest ih =>
    obtain ⟨here, others⟩ := List.forall_mem_cons.1 idle
    rw [recorded_cons, ih others, remembered_cons_of_idle here]

/-- Attempts made one after the other, the last one first, none of them later than now. -/
structure InOrder (attempts : List (Attempt κ ν)) (now : Nat) : Prop where
  past : ∀ a ∈ attempts, a.time ≤ now
  descending : attempts.Pairwise fun a b => b.time ≤ a.time

namespace InOrder

theorem nil (now : Nat) : InOrder ([] : List (Attempt κ ν)) now :=
  ⟨List.forall_mem_nil _, .nil⟩

theorem cons (inOrder : InOrder attempts now) (atOnce : a.time = now) :
    InOrder (a :: attempts) now where
  past := List.forall_mem_cons.2 ⟨Nat.le_of_eq atOnce, inOrder.past⟩
  descending := by
    refine List.pairwise_cons.2 ⟨fun b member => ?_, inOrder.descending⟩
    rw [atOnce]
    exact inOrder.past b member

theorem passed (inOrder : InOrder attempts now) (order : now ≤ later) : InOrder attempts later :=
  ⟨fun a member => Nat.le_trans (inOrder.past a member) order, inOrder.descending⟩

/-- It is the same whether some success or the last one is recent enough. -/
theorem remembered_iff (inOrder : InOrder attempts now) : (∃ value, Remembered ttl attempts now key
    value) ↔ ∃ a ∈ attempts, a.key = key ∧ (∃ value, a.outcome = .ok value) ∧
      now < a.time + ttl := by
  constructor
  · rintro ⟨value, time, ⟨later, earlier, rfl, -⟩, fresh⟩
    exact ⟨⟨key, time, .ok value⟩, by simp, rfl, ⟨value, rfl⟩, fresh⟩
  · rintro ⟨a, member, rfl, ⟨value, gave⟩, fresh⟩
    -- by induction on the attempts: a success that comes before `a` is more recent than `a`
    induction attempts with
    | nil => cases member
    | cons b rest ih =>
      obtain ⟨upper, descending⟩ := List.pairwise_cons.1 inOrder.descending
      have past : InOrder rest now :=
        ⟨fun a member => inOrder.past a (List.mem_cons_of_mem _ member), descending⟩
      by_cases same : b.key = a.key
      · rcases b with ⟨key, time, outcome⟩
        cases outcome with
        | ok value' =>
          have order : a.time ≤ time := by
            rcases List.mem_cons.1 member with rfl | member
            · exact Nat.le_refl _
            · exact upper a member
          refine ⟨value', ?_⟩
          dsimp only at same
          subst same
          exact remembered_cons_ok.2 ⟨rfl, by omega⟩
        | error e =>
          have earlier : a ∈ rest := by
            rcases List.mem_cons.1 member with rfl | member
            · cases gave
            · exact member
          obtain ⟨value', remembered⟩ := ih past earlier
          exact ⟨value', (remembered_cons_of_idle fun _ => ⟨e, rfl⟩).2 remembered⟩
      · have earlier : a ∈ rest := by
          rcases List.mem_cons.1 member with rfl | member
          · exact absurd rfl same
          · exact member
        obtain ⟨value', remembered⟩ := ih past earlier
        exact ⟨value', (remembered_cons_of_idle fun here => absurd here same).2 remembered⟩

end InOrder

end History

namespace TtlCache

variable {κ ν : Type} [BEq κ] {c : TtlCache κ ν} {attempts : List (Attempt κ ν)} {key : κ}
  {value : ν} {now later : Nat}

/-- No key has two entries. -/
def Distinct (c : TtlCache κ ν) : Prop := c.entries.Pairwise fun a b => a.key ≠ b.key

/-- What a cache finds, now or later, is what the last success gave, unless that has expired. -/
structure Recalls (c : TtlCache κ ν) (attempts : List (Attempt κ ν)) (now : Nat) : Prop where
  inOrder : InOrder attempts now
  distinct : c.Distinct
  found : ∀ later, now ≤ later → ∀ key value,
    c.get? later key = some value ↔ Remembered c.ttl attempts later key value

namespace Recalls

theorem missing (recalls : c.Recalls attempts now) (order : now ≤ later) (key : κ) :
    c.get? later key = none ↔ ∀ value, ¬ Remembered c.ttl attempts later key value := by
  rw [Option.eq_none_iff_forall_ne_some]
  exact forall_congr' fun value => not_congr (recalls.found later order key value)

/-- A cache without entries recalls nothing. -/
theorem empty (ttl now : Nat) : (⟨ttl, []⟩ : TtlCache κ ν).Recalls [] now where
  inOrder := .nil now
  distinct := .nil
  found later _ key value := by
    have nothing : ¬ Remembered ttl ([] : List (Attempt κ ν)) later key value := by
      rintro ⟨time, last, -⟩
      exact not_lastSuccess_nil last
    simp only [nothing, iff_false]
    exact fun found => by simp [get?] at found

theorem passed (recalls : c.Recalls attempts now) (order : now ≤ later) :
    c.Recalls attempts later where
  inOrder := recalls.inOrder.passed order
  distinct := recalls.distinct
  found after order' := recalls.found after (Nat.le_trans order order')

/-- An attempt that failed leaves the cache as it is. -/
theorem failed (recalls : c.Recalls attempts now) (key : κ) (e : ConfigError) :
    c.Recalls (⟨key, now, .error e⟩ :: attempts) now where
  inOrder := recalls.inOrder.cons rfl
  distinct := recalls.distinct
  found later order key' value' := by
    rw [recalls.found later order, remembered_cons_of_idle fun _ => ⟨e, rfl⟩]

end Recalls

/-! ### What a put changes -/

variable [LawfulBEq κ]

theorem Distinct.find? (distinct : c.Distinct) {e : CacheEntry κ ν} :
    c.entries.find? (fun e => e.key == key) = some e ↔ e ∈ c.entries ∧ e.key = key := by
  constructor
  · intro found
    exact ⟨List.mem_of_find?_eq_some found, by simpa using List.find?_some found⟩
  · rintro ⟨member, rfl⟩
    obtain ⟨ttl, entries⟩ := c
    induction entries with
    | nil => cases member
    | cons first rest ih =>
      obtain ⟨others, distinct⟩ := List.pairwise_cons.1 distinct
      rcases List.mem_cons.1 member with rfl | member
      · simp
      · have other : (first.key == e.key) = false := by simpa using others e member
        rw [List.find?_cons, other]
        exact ih distinct member

/-- What is found is what an entry holds that has not expired. -/
theorem Distinct.get?_eq_some_iff (distinct : c.Distinct) : c.get? now key = some value ↔
    c.isEnabled = true ∧ ∃ e ∈ c.entries, e.key = key ∧ e.value = value ∧
      now < e.insertedAt + c.ttl := by
  unfold get?
  by_cases enabled : c.isEnabled = true
  · simp only [enabled, if_true, true_and]
    constructor
    · intro found
      split at found
      next e first =>
        obtain ⟨member, key⟩ := distinct.find?.1 first
        simp only [isFresh, decide_eq_true_eq, Option.ite_none_right_eq_some,
          Option.some.injEq] at found
        exact ⟨e, member, key, found.2, found.1⟩
      · cases found
    · rintro ⟨e, member, same, rfl, fresh⟩
      rw [distinct.find?.2 ⟨member, same⟩]
      simp [isFresh, fresh]
  · simp [enabled]

/-- What was put is found until its lifetime has passed. -/
theorem get?_put (c : TtlCache κ ν) (key : κ) (value : ν) (order : now ≤ later) :
    (c.put now key value).get? later key = if later < now + c.ttl then some value else none := by
  cases enabled : c.isEnabled with
  | true =>
    by_cases fresh : later < now + c.ttl
    · simp [fresh, get?_put_self enabled fresh]
    · simp [get?, put, enabled, isFresh, fresh]
  | false =>
    have zero : c.ttl = 0 := by simpa [isEnabled] using enabled
    have expired : ¬ later < now + c.ttl := by omega
    simp [put_of_not_isEnabled enabled, get?_of_not_isEnabled enabled, expired]

theorem mem_entries_put (enabled : c.isEnabled = true) {e : CacheEntry κ ν} :
    e ∈ (c.put now key value).entries ↔
      e = ⟨key, value, now⟩ ∨ e ∈ c.entries ∧ now < e.insertedAt + c.ttl ∧ e.key ≠ key := by
  simp only [put, enabled, if_true, invalidate, isFresh, List.mem_cons, List.mem_filter,
    decide_eq_true_eq, Bool.not_eq_true', beq_eq_false_iff_ne, and_assoc]

theorem Distinct.put (distinct : c.Distinct) (now : Nat) (key : κ) (value : ν) :
    (c.put now key value).Distinct := by
  by_cases enabled : c.isEnabled = true
  · simp only [Distinct, TtlCache.put, enabled, if_true, invalidate, List.pairwise_cons]
    constructor
    · intro e member
      have other := (List.mem_filter.1 member).2
      simp only [Bool.not_eq_true', beq_eq_false_iff_ne] at other
      exact other.symm
    · exact (distinct.filter _).filter _
  · rwa [put_of_not_isEnabled (by simpa using enabled)]

/-- What is put under another key cannot be noticed, although it may sweep entries out. -/
theorem Distinct.get?_put_of_ne (distinct : c.Distinct) {other : κ} (differs : other ≠ key)
    (order : now ≤ later) (value : ν) :
    (c.put now key value).get? later other = c.get? later other := by
  by_cases enabled : c.isEnabled = true
  · have stillEnabled : (c.put now key value).isEnabled = true := by
      simpa [isEnabled] using enabled
    ext found
    rw [distinct.get?_eq_some_iff, (distinct.put now key value).get?_eq_some_iff]
    simp only [stillEnabled, enabled, mem_entries_put enabled, ttl_put, true_and]
    constructor
    · rintro ⟨e, rfl | ⟨member, -⟩, same, held, fresh⟩
      · exact absurd same.symm differs
      · exact ⟨e, member, same, held, fresh⟩
    · rintro ⟨e, member, rfl, held, fresh⟩
      exact ⟨e, .inr ⟨member, by omega, differs⟩, rfl, held, fresh⟩
  · rw [put_of_not_isEnabled (by simpa using enabled)]

/-- What an attempt gave is put into the cache. -/
theorem Recalls.succeeded (recalls : c.Recalls attempts now) (key : κ) (value : ν) :
    (c.put now key value).Recalls (⟨key, now, .ok value⟩ :: attempts) now where
  inOrder := recalls.inOrder.cons rfl
  distinct := recalls.distinct.put now key value
  found later order key' value' := by
    rw [ttl_put]
    by_cases here : key' = key
    · subst here
      rw [remembered_cons_ok, get?_put c key' value order]
      by_cases fresh : later < now + c.ttl <;> simp [fresh, eq_comm]
    · rw [recalls.distinct.get?_put_of_ne here order, recalls.found later order,
        remembered_cons_of_idle fun same => absurd same.symm here]

end TtlCache

end LayeredConfig
