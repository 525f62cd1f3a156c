/-!
# Caches whose entries expire

A cache keeps what was put into it for a fixed time. Expired entries are not found, and they are
swept out when something is put into the cache. With a lifetime of zero nothing is ever kept. Times
are counted in microseconds from an arbitrary start.
-/
namespace LayeredConfig

/-- An entry with the time at which it was put. -/
structure CacheEntry (κ ν : Type) where
  key : κ
  value : ν
  insertedAt : Nat

/-- A cache with the lifetime of its entries. -/
structure TtlCache (κ ν : Type) where
  ttl : Nat
  entries : List (CacheEntry κ ν) := []

namespace TtlCache

variable {κ ν ε : Type} [BEq κ]

def new (ttl : Nat) : TtlCache κ ν := ⟨ttl, []⟩

/-- An empty cache from a lifetime in milliseconds, where a negative one counts as zero. -/
def ofMillis (ttl : Int) : TtlCache κ ν := new (ttl.toNat * 1000)

def isEnabled (c : TtlCache κ ν) : Bool := c.ttl != 0

/-- The entry has not expired. -/
def isFresh (c : TtlCache κ ν) (now : Nat) (e : CacheEntry κ ν) : Bool :=
  now < e.insertedAt + c.ttl

/-- The value under a key, unless it has expired. -/
def get? (c : TtlCache κ ν) (now : Nat) (key : κ) : Option ν :=
  if c.isEnabled then
    match c.entries.find? (fun e => e.key == key) with
    | some e => if c.isFresh now e then some e.value else none
    | none => none
  else none

/-- The cache without the entry of a key. -/
def invalidate (c : TtlCache κ ν) (key : κ) : TtlCache κ ν :=
  { c with entries := c.entries.filter fun e => !(e.key == key) }

def clear (c : TtlCache κ ν) : TtlCache κ ν :=
  { c with entries := [] }

/-- The cache with a value under a key; expired entries are swept out. -/
def put (c : TtlCache κ ν) (now : Nat) (key : κ) (value : ν) : TtlCache κ ν :=
  if c.isEnabled then
    let fresh : TtlCache κ ν := { c with entries := c.entries.filter (c.isFresh now) }
    { c with entries := ⟨key, value, now⟩ :: (fresh.invalidate key).entries }
  else c

/-- The value under a key, or else the one that `load` gives, which is put into the cache. If `load`
fails the cache stays as it is. -/
def getOrLoad (c : TtlCache κ ν) (now : Nat) (key : κ) (load : Unit → Except ε ν) :
    Except ε ν × TtlCache κ ν :=
  match c.get? now key with
  | some value => (.ok value, c)
  | none =>
    match load () with
    | .ok value => (.ok value, c.put now key value)
    | .error e => (.error e, c)

/-- The number of entries, expired ones included. -/
def size (c : TtlCache κ ν) : Nat := c.entries.length

/-! ### What is found -/

@[simp] theorem get?_clear (c : TtlCache κ ν) (now : Nat) (key : κ) :
    c.clear.get? now key = none := by
  unfold get? clear
  cases isEnabled (⟨c.ttl, []⟩ : TtlCache κ ν) <;> rfl

@[simp] theorem ttl_put (c : TtlCache κ ν) (now : Nat) (key : κ) (value : ν) :
    (c.put now key value).ttl = c.ttl := by
  unfold put
  split <;> rfl

/-- With a lifetime of zero nothing is kept. -/
theorem put_of_not_isEnabled {c : TtlCache κ ν} (h : c.isEnabled = false) (now : Nat) (key : κ)
    (value : ν) : c.put now key value = c := by
  simp [put, h]

theorem get?_of_not_isEnabled {c : TtlCache κ ν} (h : c.isEnabled = false) (now : Nat) (key : κ) :
    c.get? now key = none := by
  simp [get?, h]

/-- What was put is found as long as its lifetime has not passed. -/
theorem get?_put_self [ReflBEq κ] {c : TtlCache κ ν} (h : c.isEnabled = true) {put now : Nat}
    (fresh : now < put + c.ttl) (key : κ) (value : ν) :
    (c.put put key value).get? now key = some value := by
  have enabled : (c.ttl != 0) = true := h
  simp [get?, TtlCache.put, isEnabled, enabled, isFresh, fresh]

/-- A loader runs exactly where nothing is found. -/
theorem getOrLoad_of_get? {c : TtlCache κ ν} {now : Nat} {key : κ} {value : ν}
    (h : c.get? now key = some value) (load : Unit → Except ε ν) :
    c.getOrLoad now key load = (.ok value, c) := by
  simp [getOrLoad, h]

end TtlCache
end LayeredConfig
