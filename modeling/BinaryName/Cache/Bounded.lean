/-!
# Caches of bounded size

What a program can do with a cache, whatever the cache is made of.  A cache has a number of places
and gives some of its entries up for new ones; which ones is its own affair.
-/

namespace BinaryName

/-- Caches of a type, from keys to values. -/
class BoundedCache (σ : Type) (κ ν : outParam Type) where
  /-- A cache with the given number of places and without entries. -/
  empty : Int → σ
  /-- Look up a key, of which the cache may take note. -/
  get : σ → κ → Option ν × σ
  /-- Store a value under a key, unless there is no room for it at all. -/
  store? : σ → κ → ν → Option σ
  /-- The number of entries. -/
  size : σ → Nat
  /-- The keys of the entries, in any order. -/
  keys : σ → List κ

end BinaryName
