import LlmService.Basic
import Mathlib.Data.List.AList
import Mathlib.Data.List.MinMax
import Mathlib.Data.Prod.Lex

/-!
# TTLCache

`app/utils/cache.py`. The store is an association list, which carries that
its keys are distinct; the order of the Python dictionary plays no part, since
no two entries share an `access_seq`. Methods that read the clock take its
reading, and those that change the cache return it.
-/

namespace LlmService

structure CacheEntry (V : Type) where
  value : V
  expiresAt : Seconds
  accessCount : Nat := 1
  lastAccessed : Seconds := 0
  accessSeq : Nat := 0

structure TTLCache (V : Type) where
  maxSize : Nat := 10000
  defaultTtl : Int := 300
  store : AList (fun _ : String => CacheEntry V) := ∅
  hits : Nat := 0
  misses : Nat := 0
  evictions : Nat := 0
  seq : Nat := 0

namespace TTLCache

variable {V : Type} (c : TTLCache V) (key : String) (now : Seconds)

def get : Option V × TTLCache V :=
  match c.store.lookup key with
  | none => (none, { c with misses := c.misses + 1 })
  | some entry =>
    if entry.expiresAt < now then
      (none,
        { c with
          store := c.store.erase key
          misses := c.misses + 1
          evictions := c.evictions + 1 })
    else
      let entry' :=
        { entry with
          accessCount := entry.accessCount + 1
          lastAccessed := now
          accessSeq := c.seq + 1 }
      (some entry.value,
        { c with store := c.store.replace key entry', seq := c.seq + 1, hits := c.hits + 1 })

/-- `contains`: a `get`, which also marks the entry as used. -/
def contains : Bool × TTLCache V :=
  let (value, c) := c.get key now
  (value.isSome, c)

def delete : Bool × TTLCache V :=
  ((c.store.lookup key).isSome, { c with store := c.store.erase key })

def clear : TTLCache V :=
  { c with store := ∅, hits := 0, misses := 0, evictions := 0, seq := 0 }

def size : Nat := c.store.keys.length

/-- The keys that `evict_expired` collects. -/
def expiredKeys : List String :=
  (c.store.entries.filter fun entry => entry.2.expiresAt < now).map Sigma.fst

def evictExpired : TTLCache V :=
  (c.expiredKeys now).foldl
    (fun c key => { c with store := c.store.erase key, evictions := c.evictions + 1 }) c

/-- The key whose entry has the least `(access_seq, last_accessed)`. -/
def oldestKey : Option String :=
  (c.store.entries.argmin fun entry => toLex (entry.2.accessSeq, entry.2.lastAccessed)).map
    Sigma.fst

def evictLru : TTLCache V :=
  let c := c.evictExpired now
  if c.size < c.maxSize then c
  else
    match c.oldestKey with
    | none => c
    | some key => { c with store := c.store.erase key, evictions := c.evictions + 1 }

def set (value : V) (ttl : Option Int := none) : TTLCache V :=
  let expiresAt := now + (ttl.getD c.defaultTtl : Int)
  let c := if c.size ≥ c.maxSize ∧ key ∉ c.store then c.evictLru now else c
  { c with
    seq := c.seq + 1
    store :=
      c.store.insert key { value, expiresAt, lastAccessed := now, accessSeq := c.seq + 1 } }

/-- What was just set is found until its time is over. -/
theorem contains_set {now' : Seconds} (value : V) (ttl : Option Int)
    (h : now' ≤ now + (ttl.getD c.defaultTtl : Int)) :
    ((c.set key now value ttl).contains key now').1 = true := by
  simp only [set, contains, get, AList.lookup_insert, not_lt.mpr h, if_false]
  rfl

end TTLCache

end LlmService
