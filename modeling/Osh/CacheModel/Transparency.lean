import Osh.CacheModel.Functions

/-!
# The cache against memory without one

What a program reads through the cache is compared with what it would read from memory
directly. There is nothing to compare: no cache can be initialised, and from any cache
whatever the first access raises.

## Main definitions

* `values`: what a sequence of accesses reads through the cache.
* `directValues`: what it reads from memory.
* `Transparent`: the two are the same.
-/
namespace Osh.CacheModel
open Osh.Python

/-- A call of `write_data_to_cache` or `read_data_from_cache`. -/
inductive Access where
  | write (address data : ℤ)
  | read (address : ℤ)

def Access.address : Access → ℤ
  | write address _ => address
  | read address => address

/-- The values that the accesses read, in order. -/
def values (memory : Memory) (cache : Cache) : List Access → Py (List ℤ)
  | [] => .ok []
  | .write address data :: accesses => do
      let (memory, cache) ← writeDataToCache memory cache address data
      values memory cache accesses
  | .read address :: accesses => do
      let (data, memory, cache) ← readDataFromCache memory address cache
      return data :: (← values memory cache accesses)

/-- The accesses from `init_cache` on. -/
def cachedValues (v : Version) (CACHE_SZ : ℤ) (memory : Memory) (accesses : List Access) :
    Py (List ℤ) := do
  values memory (← initCache v CACHE_SZ) accesses

/-- The values that the accesses read when there is no cache. -/
def directValues (memory : Memory) : List Access → List ℤ
  | [] => []
  | .write address data :: accesses => directValues (memory.set address.toNat data) accesses
  | .read address :: accesses =>
      memory.getD address.toNat 0 :: directValues memory accesses

/-- Every call returns, and every read gives the latest value written. -/
def Transparent (v : Version) (CACHE_SZ : ℤ) (memory : Memory) (accesses : List Access) : Prop :=
  cachedValues v CACHE_SZ memory accesses = .ok (directValues memory accesses)

section
variable (v : Version) (CACHE_SZ : ℤ) (memory : Memory) (cache : Cache) (access : Access)
  (accesses : List Access)

/-- From any cache the first access raises. -/
theorem raises_values : Raises (values memory cache (access :: accesses)) := by
  cases access with
  | write address data => exact Raises.bind_left (raises_writeDataToCache address data memory cache)
  | read address => exact Raises.bind_left (raises_readDataFromCache address memory cache)

/-- **The cache is never transparent**: `init_cache` raises, and so would the first access to
a cache that came from elsewhere. -/
theorem not_transparent : ¬ Transparent v CACHE_SZ memory accesses ∧ Raises (initCache v CACHE_SZ) ∧
    ∀ cache access, Raises (values memory cache (access :: accesses)) := by
  refine ⟨?_, raises_initCache v CACHE_SZ, ?_⟩
  · exact (Raises.bind_left (raises_initCache v CACHE_SZ)).ne_ok _
  · intro cache access
    exact raises_values memory cache access accesses

end

/-- One read, of the first word, with a cache of four lines. -/
theorem first_read_raises :
    ¬ ∀ (v : Version) (CACHE_SZ : ℤ) (memory : Memory) (accesses : List Access),
      0 < CACHE_SZ → 16 ∣ CACHE_SZ →
      (∀ access ∈ accesses, 0 ≤ access.address ∧ access.address < memory.length) →
      Transparent v CACHE_SZ memory accesses := by
  intro hclaim
  have htransparent := hclaim .three 64 (List.replicate 64 0) [.read 0] (by decide) (by decide)
    (by simp [Access.address])
  cases htransparent

end Osh.CacheModel
