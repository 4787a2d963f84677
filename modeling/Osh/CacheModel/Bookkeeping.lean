import Osh.CacheModel.Functions

/-!
# The cache's bookkeeping

Two tables map lines to locations and back, and a stack holds the locations that are
free. Of the operations that should keep the three in step, only `write_to_mem_on_evict`
returns at all, and only when it has nothing to do; and `cache_is_full` calls a cache
full that still has one free location.

## Main definitions

* `Bookkeeping`: the tables are inverse to each other, and a location is mapped or free.
* `Operation`: the operations, and when they apply.
* `KeepsBookkeeping`: an operation returns a cache in order, and `cache_is_full` is right.
-/
namespace Osh.CacheModel
open Osh.Python

/-- The live part of the stack of free locations. -/
def live (cache : Cache) : List ℤ :=
  cache.locationStack.locationStackStorage.take (cache.locationStack.locationStackPtr + 1).toNat

/-- The location holds a line. -/
def Mapped (cache : Cache) (loc : ℤ) : Prop := (cache.cacheLocToAddress loc).isSome

/-- The tables are inverse to each other, and each of the `n` locations is mapped or once in
the live part of the stack, but not both. -/
structure Bookkeeping (n : ℕ) (cache : Cache) : Prop where
  inverse : ∀ line loc,
    cache.addressToCacheLoc line = some loc ↔ cache.cacheLocToAddress loc = some line
  location : ∀ loc : ℤ, 0 ≤ loc → loc < n →
    Mapped cache loc ∧ (live cache).count loc = 0 ∨ ¬ Mapped cache loc ∧ (live cache).count loc = 1

/-- One of the `n` locations is free. -/
def HasFree (n : ℕ) (cache : Cache) : Prop := ∃ loc : ℤ, 0 ≤ loc ∧ loc < n ∧ loc ∈ live cache

inductive Operation where
  | readFromMemOnMiss (address : ℤ)
  | writeToMemOnEvict (address data : ℤ)
  | updateCacheEntry (address data : ℤ)
  | writeDataToCache (address data : ℤ)
  | readDataFromCache (address : ℤ)

namespace Operation

def run (memory : Memory) (cache : Cache) : Operation → Py (Memory × Cache)
  | readFromMemOnMiss address => CacheModel.readFromMemOnMiss memory cache address
  | writeToMemOnEvict address data => CacheModel.writeToMemOnEvict memory cache address data
  | updateCacheEntry address data => CacheModel.updateCacheEntry cache address data
  | writeDataToCache address data => CacheModel.writeDataToCache memory cache address data
  | readDataFromCache address => do
      let (_, memory, cache) ← CacheModel.readDataFromCache memory address cache
      return (memory, cache)

/-- A miss needs an uncached line and a cache that is not full, an update a cached line. -/
def Applies (memory : Memory) (cache : Cache) : Operation → Prop
  | readFromMemOnMiss address =>
      0 ≤ address ∧ address < memory.length ∧ cache.addressToCacheLoc (lineOf address) = none ∧
        cacheIsFull cache.locationStack.locationStackPtr = false
  | updateCacheEntry address _ => ∃ loc, cache.addressToCacheLoc (lineOf address) = some loc
  | writeToMemOnEvict address _ | writeDataToCache address _ | readDataFromCache address =>
      0 ≤ address ∧ address < memory.length

end Operation

/-- The operation returns a cache that is in order, and `cache_is_full` tells whether no
location is free. -/
def KeepsBookkeeping (n : ℕ) (memory : Memory) (cache : Cache) (op : Operation) : Prop :=
  (∃ memory' cache', op.run memory cache = .ok (memory', cache') ∧ Bookkeeping n cache') ∧
    (cacheIsFull cache.locationStack.locationStackPtr = true ↔ ¬ HasFree n cache)

section
variable {n : ℕ} {memory : Memory} {cache : Cache} {op : Operation}

/-- The operations that return, and on which caches. -/
theorem run_returns {p : Memory × Cache} (h : op.run memory cache = .ok p) :
    (∃ address data, op = .writeToMemOnEvict address data) ∧
      cache.locationStack.locationStackPtr ≠ 0 := by
  cases op with
  | readFromMemOnMiss address => exact absurd h ((raises_readFromMemOnMiss _ _ _).ne_ok p)
  | writeToMemOnEvict address data =>
      refine ⟨⟨address, data, rfl⟩, ?_⟩
      intro hfull
      exact (raises_writeToMemOnEvict address data _ _ hfull).ne_ok p h
  | updateCacheEntry address data => exact absurd h ((raises_updateCacheEntry _ _ _).ne_ok p)
  | writeDataToCache address data => exact absurd h ((raises_writeDataToCache _ _ _ _).ne_ok p)
  | readDataFromCache address =>
      exact absurd h ((Raises.bind_left (raises_readDataFromCache _ _ _)).ne_ok p)

/-- **The bookkeeping is kept** by `write_to_mem_on_evict` alone, and only when the stack
pointer is not 0 and some location is free. -/
theorem bookkeeping_kept_iff (h : Bookkeeping n cache) : KeepsBookkeeping n memory cache op ↔
    (∃ address data, op = .writeToMemOnEvict address data) ∧
      cache.locationStack.locationStackPtr ≠ 0 ∧ HasFree n cache := by
  constructor
  · rintro ⟨⟨memory', cache', hrun, -⟩, hfull⟩
    obtain ⟨hop, hptr⟩ := run_returns hrun
    refine ⟨hop, hptr, ?_⟩
    by_contra hnone
    have hzero : cacheIsFull cache.locationStack.locationStackPtr = true := hfull.mpr hnone
    exact hptr (of_decide_eq_true hzero)
  · rintro ⟨⟨address, data, rfl⟩, hptr, hfree⟩
    refine ⟨⟨memory, cache, writeToMemOnEvict_eq address data _ _ hptr, h⟩, ?_⟩
    constructor
    · intro hzero
      exact absurd (of_decide_eq_true hzero) hptr
    · intro hnone
      exact absurd hfree hnone

end

/-! A cache of three lines, one of which holds line 3 of memory. -/
section

def threeLines : Cache where
  cacheStorage := List.replicate 3 (List.replicate 16 0)
  addressToCacheLoc := fun line => if line = 3 then some 2 else none
  cacheLocToAddress := fun loc => if loc = 2 then some 3 else none
  locationStack := ⟨[0, 1, 2], 1, 2⟩

theorem bookkeeping_threeLines : Bookkeeping 3 threeLines := by
  constructor
  · intro line loc
    show (if line = 3 then some 2 else none) = some loc ↔
      (if loc = 2 then some 3 else none) = some line
    split_ifs <;> simp <;> omega
  · intro loc hlow hhigh
    obtain rfl | rfl | rfl : loc = 0 ∨ loc = 1 ∨ loc = 2 := by omega
    · exact .inr ⟨Bool.false_ne_true, rfl⟩
    · exact .inr ⟨Bool.false_ne_true, rfl⟩
    · exact .inl ⟨rfl, rfl⟩

theorem bookkeeping_kept_iff_threeLines :
    KeepsBookkeeping 3 (List.replicate 64 0) threeLines (.writeToMemOnEvict 0 0) ∧
      ¬ KeepsBookkeeping 3 (List.replicate 64 0) threeLines (.updateCacheEntry 50 1) := by
  constructor
  · rw [bookkeeping_kept_iff bookkeeping_threeLines]
    exact ⟨⟨0, 0, rfl⟩, by decide, 0, by decide, by decide, by decide⟩
  · rw [bookkeeping_kept_iff bookkeeping_threeLines]
    rintro ⟨⟨address, data, hop⟩, -⟩
    cases hop

/-- The first miss raises. -/
theorem miss_raises_threeLines :
    ¬ ∀ (n : ℕ) (memory : Memory) (cache : Cache) (op : Operation),
      Bookkeeping n cache → op.Applies memory cache → KeepsBookkeeping n memory cache op := by
  intro hclaim
  obtain ⟨⟨memory', cache', hrun, -⟩, -⟩ := hclaim 3 (List.replicate 64 0) threeLines
    (.readFromMemOnMiss 0) bookkeeping_threeLines ⟨by decide, by decide, rfl, rfl⟩
  obtain ⟨⟨address, data, hop⟩, -⟩ := run_returns hrun
  cases hop

end
end Osh.CacheModel
