import Osh.CacheModel.Bookkeeping

/-!
# Eviction

What `write_to_mem_on_evict` is for: one line goes back to memory and its location to the
stack. On a cache that `cache_is_full` calls full it raises instead, since `evict_location`
assigns to an item of a tuple; on any other cache, one without a free location included, it
changes nothing.

## Main definitions

* `Full`: a cache that is full, by the test of the code or because no location is free.
* `Evicts`: the effect of an eviction.
-/
namespace Osh.CacheModel
open Osh.Python

/-- `cache_is_full`, or nothing is left on the stack of free locations. -/
def Full (cache : Cache) : Prop :=
  cacheIsFull cache.locationStack.locationStackPtr = true ∨ live cache = []

/-- The lookup tables are inverse to each other, and what they name exists: each location
holds sixteen words, and the location used last is one of them. -/
structure Tables (cache : Cache) : Prop where
  inverse : ∀ line loc,
    cache.addressToCacheLoc line = some loc ↔ cache.cacheLocToAddress loc = some line
  stored : ∀ line loc, cache.addressToCacheLoc line = some loc →
    ∃ words : List ℤ, getItem cache.cacheStorage loc = .ok words ∧ words.length = 16
  lastUsed : Mapped cache cache.locationStack.lastUsedLoc

/-- The memory has room for every cached line. -/
def Covers (memory : Memory) (cache : Cache) : Prop :=
  ∀ line loc, cache.addressToCacheLoc line = some loc →
    0 ≤ line ∧ line * 16 + 16 ≤ memory.length

/-- The line at `loc` goes back to memory, at its sixteen words and nowhere else; `loc` is the
next location to be taken and is in neither table any more; the other lines stay. -/
structure EvictsLine (memory : Memory) (cache : Cache) (line loc : ℤ) (memory' : Memory)
    (cache' : Cache) : Prop where
  cached : cache.cacheLocToAddress loc = some line
  written : ∀ i : ℕ, i < 16 → ∃ words : List ℤ,
    getItem cache.cacheStorage loc = .ok words ∧ getItem memory' (line * 16 + i) = getItem words i
  length : memory'.length = memory.length
  elsewhere : ∀ k : ℤ, ¬ (line * 16 ≤ k ∧ k < line * 16 + 16) → 0 ≤ k →
    getItem memory' k = getItem memory k
  next : ∃ locationStack, getNextFreeLocation cache'.locationStack = .ok (loc, locationStack)
  line_gone : cache'.addressToCacheLoc line = none
  loc_gone : cache'.cacheLocToAddress loc = none
  others : ∀ line' loc', cache.addressToCacheLoc line' = some loc' → line' ≠ line →
    cache'.addressToCacheLoc line' = some loc' ∧ cache'.cacheLocToAddress loc' = some line' ∧
      getItem cache'.cacheStorage loc' = getItem cache.cacheStorage loc'

/-- `write_to_mem_on_evict` returns, and one line is evicted. -/
def Evicts (memory : Memory) (cache : Cache) (address data : ℤ) : Prop :=
  ∃ memory' cache', writeToMemOnEvict memory cache address data = .ok (memory', cache') ∧
    ∃ line loc, EvictsLine memory cache line loc memory' cache'

section
variable (memory : Memory) (cache : Cache) (address data : ℤ)

/-- A location that is still in the table has not been evicted. -/
theorem EvictsLine.ne_cache {line loc : ℤ} {memory memory' : Memory} {cache cache' : Cache}
    (h : EvictsLine memory cache line loc memory' cache') : cache' ≠ cache := by
  rintro rfl
  have hsome := h.cached
  rw [h.loc_gone] at hsome
  cases hsome

/-- **No cache has a line evicted.** With the stack pointer at 0 the call raises, and with the
stack pointer anywhere else memory and cache are returned as they were. -/
theorem not_evicts : ¬ Evicts memory cache address data ∧
    (cache.locationStack.locationStackPtr = 0 →
      Raises (writeToMemOnEvict memory cache address data)) ∧
    (cache.locationStack.locationStackPtr ≠ 0 →
      writeToMemOnEvict memory cache address data = .ok (memory, cache)) := by
  refine ⟨?_, raises_writeToMemOnEvict address data memory cache,
    writeToMemOnEvict_eq address data memory cache⟩
  rintro ⟨memory', cache', hrun, line, loc, h⟩
  by_cases hptr : cache.locationStack.locationStackPtr = 0
  · exact (raises_writeToMemOnEvict address data memory cache hptr).ne_ok _ hrun
  · rw [writeToMemOnEvict_eq address data memory cache hptr] at hrun
    cases hrun
    exact h.ne_cache rfl

end

/-- A cache of two lines, of which location 1 holds line 2; the stack pointer is 0. -/
def fullCache : Cache where
  cacheStorage := [List.replicate 16 0, List.replicate 16 7]
  addressToCacheLoc := fun line => if line = 2 then some 1 else none
  cacheLocToAddress := fun loc => if loc = 1 then some 2 else none
  locationStack := ⟨[0, 1], 0, 1⟩

theorem tables_fullCache : Tables fullCache := by
  refine ⟨?_, ?_, rfl⟩
  · intro line loc
    simp only [fullCache, Option.ite_none_right_eq_some, Option.some.injEq]
    constructor
    · rintro ⟨rfl, rfl⟩
      exact ⟨rfl, rfl⟩
    · rintro ⟨rfl, rfl⟩
      exact ⟨rfl, rfl⟩
  · intro line loc h
    obtain ⟨-, hloc⟩ := Option.ite_none_right_eq_some.mp h
    cases hloc
    exact ⟨List.replicate 16 7, rfl, rfl⟩

theorem covers_fullCache : Covers (List.replicate 64 0) fullCache := by
  intro line loc h
  obtain ⟨rfl, -⟩ := Option.ite_none_right_eq_some.mp h
  decide

/-- The eviction from `fullCache` raises. -/
theorem fullCache_raises :
    ¬ ∀ (memory : Memory) (cache : Cache) (address data : ℤ),
      Full cache → Tables cache → Covers memory cache → Evicts memory cache address data := by
  intro hclaim
  obtain ⟨memory', cache', hrun, -⟩ := hclaim (List.replicate 64 0) fullCache 0 0 (.inl rfl)
    tables_fullCache covers_fullCache
  exact (raises_writeToMemOnEvict 0 0 _ fullCache rfl).ne_ok _ hrun

end Osh.CacheModel
