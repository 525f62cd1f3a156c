import LayeredConfig.Proofs.Recall
/-!
# A cache answers by its history

A cache is in use: values are put into it, looked for, loaded and taken out, and time passes. Of
every write it is put on record what it wrote and when. Whatever has happened, what the cache finds
under a key is decided by the last write that concerns the key: if that was a put, its value is
found until the lifetime has passed, and else nothing is. Puts under other keys and the sweeps that
they bring with them cannot be noticed.

The invariant is `Reflects`. It speaks of all later times, since time may pass at any moment; one
lemma for each kind of move shows that it is kept.
-/
namespace LayeredConfig.TtlCache

variable {κ ν ε : Type}

/-- What changes the contents of a cache. -/
inductive Write (κ ν : Type) where
  | put (key : κ) (value : ν) (time : Nat)
  | invalidate (key : κ)
  | clear

/-- The write decides what stands under the key from then on. -/
def Write.Concerns (key : κ) : Write κ ν → Prop
  | .put written _ _ => written = key
  | .invalidate removed => removed = key
  | .clear => True

/-- The last of the writes that concern a key. The writes stand with the latest first. -/
def LastWrite (writes : List (Write κ ν)) (key : κ) (w : Write κ ν) : Prop :=
  ∃ later earlier, writes = later ++ w :: earlier ∧ w.Concerns key ∧
    ∀ other ∈ later, ¬ other.Concerns key

/-- A cache in use, with the writes on record. -/
structure Usage (κ ν : Type) where
  cache : TtlCache κ ν
  now : Nat
  writes : List (Write κ ν) := []

/-- What can happen to a cache in use. A loader may take its time and use the cache meanwhile. (If
two loaders overlap, each is a `get` that finds nothing and a `put` later on.) -/
inductive Move (κ ν ε : Type) where
  | put (key : κ) (value : ν)
  | get (key : κ)
  | load (key : κ) (meanwhile : List (Move κ ν ε)) (outcome : Except ε ν)
  | invalidate (key : κ)
  | clear
  | pass (micros : Nat)

/-- The last write that concerns the key has put the value there, and the lifetime has not passed
since. With a lifetime of zero nothing is ever held. -/
def Holds (ttl : Nat) (writes : List (Write κ ν)) (now : Nat) (key : κ) (value : ν) : Prop :=
  ttl ≠ 0 ∧ ∃ time, LastWrite writes key (.put key value time) ∧ now < time + ttl

namespace Usage

variable [BEq κ]

/-- A cache with nothing in it. -/
def opened (ttl start : Nat) : Usage κ ν := ⟨.new ttl, start, []⟩

def find? (u : Usage κ ν) (key : κ) : Option ν := u.cache.get? u.now key

def put (u : Usage κ ν) (key : κ) (value : ν) : Usage κ ν :=
  { u with cache := u.cache.put u.now key value, writes := .put key value u.now :: u.writes }

def invalidate (u : Usage κ ν) (key : κ) : Usage κ ν :=
  { u with cache := u.cache.invalidate key, writes := .invalidate key :: u.writes }

def clear (u : Usage κ ν) : Usage κ ν :=
  { u with cache := u.cache.clear, writes := .clear :: u.writes }

def pass (u : Usage κ ν) (micros : Nat) : Usage κ ν := { u with now := u.now + micros }

mutual

def step (u : Usage κ ν) : Move κ ν ε → Usage κ ν
  | .put key value => u.put key value
  | .get _ => u
  | .load key meanwhile outcome =>
    match u.find? key, outcome with
    | some _, _ => u
    | none, .ok value => (u.after meanwhile).put key value
    | none, .error _ => u.after meanwhile
  | .invalidate key => u.invalidate key
  | .clear => u.clear
  | .pass micros => u.pass micros
termination_by structural m => m

def after (u : Usage κ ν) : List (Move κ ν ε) → Usage κ ν
  | [] => u
  | m :: moves => (u.step m).after moves
termination_by structural moves => moves

end

end Usage

/-! ### The last write -/

section Writes

variable {writes : List (Write κ ν)} {w x : Write κ ν} {key : κ}

theorem not_lastWrite_nil : ¬ LastWrite ([] : List (Write κ ν)) key x := by
  rintro ⟨later, earlier, split, -⟩
  simp at split

theorem lastWrite_cons : LastWrite (w :: writes) key x ↔
    w = x ∧ w.Concerns key ∨ ¬ w.Concerns key ∧ LastWrite writes key x := by
  constructor
  · rintro ⟨later, earlier, split, concerns, spared⟩
    cases later with
    | nil =>
      simp only [List.nil_append, List.cons.injEq] at split
      exact .inl ⟨split.1, split.1 ▸ concerns⟩
    | cons first later =>
      simp only [List.cons_append, List.cons.injEq] at split
      obtain ⟨rfl, rfl⟩ := split
      simp only [List.forall_mem_cons] at spared
      exact .inr ⟨spared.1, later, earlier, rfl, concerns, spared.2⟩
  · rintro (⟨rfl, concerns⟩ | ⟨other, later, earlier, rfl, concerns, spared⟩)
    · exact ⟨[], writes, rfl, concerns, by simp⟩
    · exact ⟨w :: later, earlier, rfl, concerns, by simpa using ⟨other, spared⟩⟩

variable {value value' : ν} {ttl now time : Nat}

/-- A write that does not concern the key leaves the last one as it was. -/
theorem holds_cons_of_not_concerns (other : ¬ w.Concerns key) :
    Holds ttl (w :: writes) now key value ↔ Holds ttl writes now key value := by
  simp [Holds, lastWrite_cons, other]

theorem holds_cons_put : Holds ttl (.put key value time :: writes) now key value' ↔
    ttl ≠ 0 ∧ value = value' ∧ now < time + ttl := by
  simp only [Holds, lastWrite_cons, Write.Concerns, Write.put.injEq, true_and, and_true,
    not_true_eq_false, false_and, or_false]
  constructor
  · rintro ⟨positive, _, ⟨same, rfl⟩, fresh⟩
    exact ⟨positive, same, fresh⟩
  · rintro ⟨positive, same, fresh⟩
    exact ⟨positive, time, ⟨same, rfl⟩, fresh⟩

theorem not_holds_cons_invalidate : ¬ Holds ttl (.invalidate key :: writes) now key value := by
  simp [Holds, lastWrite_cons, Write.Concerns]

theorem not_holds_cons_clear : ¬ Holds ttl (.clear :: writes) now key value := by
  simp [Holds, lastWrite_cons, Write.Concerns]

end Writes

/-! ### What can be found -/

section Lookups

variable [BEq κ] {c : TtlCache κ ν} {key other : κ} {value : ν} {now later : Nat}

@[simp] theorem ttl_invalidate (c : TtlCache κ ν) (key : κ) : (c.invalidate key).ttl = c.ttl := rfl

variable [LawfulBEq κ]

theorem Distinct.get?_invalidate_self (distinct : c.Distinct) (now : Nat) (key : κ) :
    (c.invalidate key).get? now key = none := by
  have distinct' : (c.invalidate key).Distinct := distinct.filter _
  refine Option.eq_none_iff_forall_ne_some.2 fun value found => ?_
  obtain ⟨-, e, member, same, -⟩ := distinct'.get?_eq_some_iff.1 found
  simp [invalidate, same] at member

theorem Distinct.get?_invalidate_of_ne (distinct : c.Distinct) (differs : other ≠ key)
    (now : Nat) : (c.invalidate key).get? now other = c.get? now other := by
  have distinct' : (c.invalidate key).Distinct := distinct.filter _
  ext value
  rw [distinct'.get?_eq_some_iff, distinct.get?_eq_some_iff]
  simp only [invalidate, isEnabled, List.mem_filter]
  constructor
  · rintro ⟨enabled, e, ⟨member, -⟩, found⟩
    exact ⟨enabled, e, member, found⟩
  · rintro ⟨enabled, e, member, rfl, found⟩
    exact ⟨enabled, e, ⟨member, by simpa using differs⟩, rfl, found⟩

/-- Behind a put stands exactly what can be found: the sweep has taken everything else out. -/
theorem Distinct.mem_keys_put_iff (distinct : c.Distinct) (unused : c.ttl = 0 → c.entries = []) :
    other ∈ (c.put now key value).entries.map CacheEntry.key ↔
      ((c.put now key value).get? now other).isSome := by
  simp only [List.mem_map, Option.isSome_iff_exists, (distinct.put now key value).get?_eq_some_iff]
  cases enabled : c.isEnabled with
  | true =>
    have positive : c.ttl ≠ 0 := by simpa [isEnabled] using enabled
    constructor
    · rintro ⟨e, member, rfl⟩
      refine ⟨e.value, by simpa [isEnabled] using positive, e, member, rfl, rfl, ?_⟩
      -- the new entry is fresh, and so are those that the sweep has left
      rw [ttl_put]
      rcases (mem_entries_put enabled).1 member with rfl | ⟨-, fresh, -⟩
      · simpa [Nat.pos_iff_ne_zero] using positive
      · exact fresh
    · rintro ⟨_, -, e, member, same, -⟩
      exact ⟨e, member, same⟩
  | false =>
    have zero : c.ttl = 0 := by simpa [isEnabled] using enabled
    simp [put_of_not_isEnabled enabled, unused zero]

end Lookups

/-! ### Loads -/

section Loads

variable [BEq κ] {u : Usage κ ν} {key : κ} {value : ν}

/-- A loader does not run where something is found. -/
theorem Usage.step_load_of_found (found : u.find? key = some value)
    (meanwhile : List (Move κ ν ε)) (outcome : Except ε ν) :
    u.step (.load key meanwhile outcome) = u := by
  simp [step, found]

theorem Usage.step_load_of_missing (missing : u.find? key = none)
    (meanwhile : List (Move κ ν ε)) (outcome : Except ε ν) :
    u.step (.load key meanwhile outcome) = match outcome with
      | .ok value => (u.after meanwhile).put key value
      | .error _ => u.after meanwhile := by
  cases outcome <;> simp [step, missing]

end Loads

/-! ### What a cache reflects -/

/-- What a cache finds, now or later, is what the writes on record hold. -/
structure Usage.Reflects [BEq κ] (ttl : Nat) (u : Usage κ ν) : Prop where
  lifetime : u.cache.ttl = ttl
  distinct : u.cache.Distinct
  unused : ttl = 0 → u.cache.entries = []
  found : ∀ later, u.now ≤ later → ∀ key value,
    u.cache.get? later key = some value ↔ Holds ttl u.writes later key value

namespace Usage.Reflects

variable [BEq κ] {ttl : Nat} {u : Usage κ ν}

theorem opened (ttl start : Nat) : (opened ttl start : Usage κ ν).Reflects ttl where
  lifetime := rfl
  distinct := .nil
  unused _ := rfl
  found later _ key value := by
    have nothing : (new ttl : TtlCache κ ν).get? later key = none := get?_clear (new ttl) later key
    simp [Usage.opened, nothing, Holds, not_lastWrite_nil]

theorem pass (reflects : u.Reflects ttl) (micros : Nat) : (u.pass micros).Reflects ttl where
  lifetime := reflects.lifetime
  distinct := reflects.distinct
  unused := reflects.unused
  found later order := reflects.found later (Nat.le_of_add_right_le order)

theorem clear (reflects : u.Reflects ttl) : u.clear.Reflects ttl where
  lifetime := reflects.lifetime
  distinct := .nil
  unused _ := rfl
  found later _ key value := by
    simp [Usage.clear, not_holds_cons_clear]

variable [LawfulBEq κ]

theorem invalidate (reflects : u.Reflects ttl) (key : κ) : (u.invalidate key).Reflects ttl where
  lifetime := reflects.lifetime
  distinct := reflects.distinct.filter _
  unused zero := by
    simp [Usage.invalidate, TtlCache.invalidate, reflects.unused zero]
  found later order other value := by
    simp only [Usage.invalidate]
    by_cases here : other = key
    · subst here
      simp [reflects.distinct.get?_invalidate_self, not_holds_cons_invalidate]
    · have spared : ¬ Write.Concerns other (.invalidate key : Write κ ν) :=
        fun same => here same.symm
      rw [reflects.distinct.get?_invalidate_of_ne here, holds_cons_of_not_concerns spared]
      exact reflects.found later order other value

theorem put (reflects : u.Reflects ttl) (key : κ) (value : ν) : (u.put key value).Reflects ttl where
  lifetime := (ttl_put u.cache u.now key value).trans reflects.lifetime
  distinct := reflects.distinct.put u.now key value
  unused zero := by
    have disabled : u.cache.isEnabled = false := by simp [isEnabled, reflects.lifetime, zero]
    rw [Usage.put, put_of_not_isEnabled disabled]
    exact reflects.unused zero
  found later order other value' := by
    have since : u.now ≤ later := order
    simp only [Usage.put]
    by_cases here : other = key
    · subst here
      rw [get?_put u.cache other value since, reflects.lifetime, holds_cons_put]
      by_cases fresh : later < u.now + ttl
      · have positive : ttl ≠ 0 := by omega
        simp [fresh, positive]
      · simp [fresh]
    · have spared : ¬ Write.Concerns other (.put key value u.now) := fun same => here same.symm
      rw [reflects.distinct.get?_put_of_ne here since, holds_cons_of_not_concerns spared]
      exact reflects.found later order other value'

end Usage.Reflects

mutual

theorem Usage.Reflects.step [BEq κ] [LawfulBEq κ] {ttl : Nat} :
    ∀ (m : Move κ ν ε) {u : Usage κ ν}, u.Reflects ttl → (u.step m).Reflects ttl
  | .put key value, u, reflects => by
    rw [Usage.step]
    exact reflects.put key value
  | .get _, u, reflects => by
    rw [Usage.step]
    exact reflects
  | .load key meanwhile outcome, u, reflects => by
    -- a loader that runs makes its own moves first
    have ran : (u.after meanwhile).Reflects ttl := Reflects.after meanwhile reflects
    cases found : u.find? key with
    | some _ =>
      rw [step_load_of_found found]
      exact reflects
    | none =>
      rw [step_load_of_missing found]
      cases outcome with
      | ok value => exact ran.put key value
      | error _ => exact ran
  | .invalidate key, u, reflects => by
    rw [Usage.step]
    exact reflects.invalidate key
  | .clear, u, reflects => by
    rw [Usage.step]
    exact reflects.clear
  | .pass micros, u, reflects => by
    rw [Usage.step]
    exact reflects.pass micros
termination_by structural m => m

theorem Usage.Reflects.after [BEq κ] [LawfulBEq κ] {ttl : Nat} :
    ∀ (moves : List (Move κ ν ε)) {u : Usage κ ν}, u.Reflects ttl → (u.after moves).Reflects ttl
  | [], u, reflects => by
    rw [Usage.after]
    exact reflects
  | m :: moves, u, reflects => by
    rw [Usage.after]
    exact Reflects.after moves (Reflects.step m reflects)
termination_by structural moves => moves

end

/-! ### What a cache answers -/

namespace Usage

variable [BEq κ]

/-- The entries are those of the keys under which something is found, one for each. -/
structure Swept (u : Usage κ ν) : Prop where
  keys : ∀ key, key ∈ u.cache.entries.map CacheEntry.key ↔ (u.find? key).isSome
  once : (u.cache.entries.map CacheEntry.key).Nodup

theorem Reflects.swept [LawfulBEq κ] {ttl : Nat} {u : Usage κ ν} (reflects : u.Reflects ttl)
    (key : κ) (value : ν) : (u.put key value).Swept where
  keys _ := reflects.distinct.mem_keys_put_iff fun zero =>
    reflects.unused (reflects.lifetime.symm.trans zero)
  once := List.pairwise_map.2 (reflects.put key value).distinct

/-- A cache answers by the writes on record. -/
structure Answers (ε : Type) (ttl : Nat) (u : Usage κ ν) : Prop where
  found : ∀ key value, u.find? key = some value ↔ Holds ttl u.writes u.now key value
  /-- Where something is found it is returned, and the loader makes no move. -/
  hit : ∀ key value, u.find? key = some value →
    (∀ load : Unit → Except ε ν, u.cache.getOrLoad u.now key load = (.ok value, u.cache)) ∧
    ∀ (meanwhile : List (Move κ ν ε)) (outcome : Except ε ν),
      u.step (.load key meanwhile outcome) = u
  /-- Elsewhere the loader runs. What it gives is returned and put, unless it fails. -/
  miss : ∀ key, u.find? key = none →
    (∀ (load : Unit → Except ε ν) value, load () = .ok value →
      u.cache.getOrLoad u.now key load = (.ok value, (u.put key value).cache)) ∧
    (∀ (load : Unit → Except ε ν) e, load () = .error e →
      u.cache.getOrLoad u.now key load = (.error e, u.cache)) ∧
    ∀ meanwhile : List (Move κ ν ε),
      (∀ value, u.step (.load key meanwhile (.ok value)) = (u.after meanwhile).put key value ∧
        (u.step (.load key meanwhile (.ok value))).Swept) ∧
      ∀ e, u.step (.load key meanwhile (.error e)) = u.after meanwhile
  /-- Right behind a put nothing is kept that is not found. -/
  swept : ∀ key value, (u.put key value).Swept
  unused : ttl = 0 → u.cache.entries = []

/-- Whatever has happened, a cache answers by its last writes. -/
theorem found_as_last_written [LawfulBEq κ] (ttl start : Nat) (moves : List (Move κ ν ε)) :
    ((opened ttl start : Usage κ ν).after moves).Answers ε ttl := by
  have reflects : ((opened ttl start : Usage κ ν).after moves).Reflects ttl :=
    Reflects.after moves (.opened ttl start)
  generalize (opened ttl start : Usage κ ν).after moves = u at reflects
  constructor
  · intro key value
    exact reflects.found u.now (Nat.le_refl _) key value
  · intro key value found
    exact ⟨getOrLoad_of_get? found, step_load_of_found found⟩
  · intro key missing
    have missing' : u.cache.get? u.now key = none := missing
    refine ⟨fun load value gave => ?_, fun load e failed => ?_, fun meanwhile => ?_⟩
    · simp [getOrLoad, missing', gave, put]
    · simp [getOrLoad, missing', failed]
    · have ran : (u.after meanwhile).Reflects ttl := Reflects.after meanwhile reflects
      simp only [step_load_of_missing missing, true_and, implies_true, and_true]
      exact fun value => ran.swept key value
  · exact reflects.swept
  · exact reflects.unused

/-- A value expires in the very moment in which a loader puts another one, and is swept out. -/
theorem found_as_last_written_overtaken :
    let moves : List (Move String Nat String) := [.put "a" 1, .pass 9,
      .load "b" [.pass 1, .put "c" 2, .invalidate "d"] (.ok 3), .pass 9,
      .load "b" [.clear] (.ok 4), .load "d" [.put "e" 5] (.error "late")]
    let u := (opened 10 0).after moves
    u.Answers String 10 ∧ u.now = 19 ∧ ¬ Holds 10 u.writes 19 "a" 1 ∧ Holds 10 u.writes 19 "b" 3 ∧
      u.cache.entries.map CacheEntry.key = ["e", "b", "c"] := by
  intro moves u
  have answers : u.Answers String 10 := found_as_last_written 10 0 moves
  refine ⟨answers, by decide, ?_, ?_, by decide⟩
  · intro holds
    have found := (answers.found "a" 1).2 holds
    revert found
    decide
  · exact (answers.found "b" 3).1 (by decide)

end Usage

end LayeredConfig.TtlCache
