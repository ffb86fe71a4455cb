import BinaryName.Cache.Bounded

/-!
# Least-recently-used caches

A cache that keeps its entries in a list, from the most to the least recently used.  Every entry
takes one place, and a cache whose capacity is below one holds nothing at all.
-/

namespace BinaryName

/-- A cache from keys to values. -/
structure LruCache (κ ν : Type) where
  /-- The number of places. -/
  capacity : Int
  /-- The entries, most recently used first. -/
  entries : List (κ × ν)
  deriving DecidableEq, Repr

namespace LruCache

variable {κ ν : Type}

/-- A cache without entries. -/
def empty (capacity : Int) : LruCache κ ν := { capacity, entries := [] }

variable [DecidableEq κ]

/-- The value of a key. -/
def get? (cache : LruCache κ ν) (key : κ) : Option ν :=
  (cache.entries.find? (·.1 = key)).map Prod.snd

/-- The cache after a key that has the given value has been used. -/
def touch (cache : LruCache κ ν) (key : κ) (value : ν) : LruCache κ ν :=
  { cache with entries := (key, value) :: cache.entries.filter (·.1 ≠ key) }

/-- The value of a key, and the cache after it has been looked up. -/
def get (cache : LruCache κ ν) (key : κ) : Option ν × LruCache κ ν :=
  match cache.get? key with
  | some value => (some value, cache.touch key value)
  | none => (none, cache)

/-- The cache with a value stored, if it has room for one entry.  The least recently used entries
make place. -/
def store? (cache : LruCache κ ν) (key : κ) (value : ν) : Option (LruCache κ ν) :=
  if cache.capacity < 1 then
    none
  else
    let others := cache.entries.filter (·.1 ≠ key)
    some { cache with entries := (key, value) :: others.take (cache.capacity - 1).toNat }

instance : BoundedCache (LruCache κ ν) κ ν where
  empty := empty
  get := get
  store? := store?
  size cache := cache.entries.length
  keys cache := cache.entries.map Prod.fst

end LruCache

end BinaryName
