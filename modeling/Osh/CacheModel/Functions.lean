import Mathlib.Logic.Function.Basic
import Osh.Lib.Python

/-!
# The cache model

The functions of `cache_model.py`, statement by statement, with the exceptions that they
raise: several of them return or read a name that nothing defines, and one assigns to an
item of a tuple. Lists and dictionaries are values here. What a call has changed in place
before it raises is not recorded.

## Main definitions

* `Cache`, `LocationStack`: the tuples that the functions pass around.
* `initCache`, `writeDataToCache`, `readDataFromCache` and the functions they call.
-/
namespace Osh.CacheModel
open Osh.Python

abbrev Memory := List ℤ

/-- The tuple `(location_stack_storage, location_stack_ptr, last_used_loc)`. -/
structure LocationStack where
  locationStackStorage : List ℤ
  locationStackPtr : ℤ
  lastUsedLoc : ℤ

/-- The tuple `(cache_storage, address_to_cache_loc, cache_loc_to_address, location_stack)`. -/
structure Cache where
  cacheStorage : List (List ℤ)
  addressToCacheLoc : ℤ → Option ℤ
  cacheLocToAddress : ℤ → Option ℤ
  locationStack : LocationStack

/-- `address >> 4` -/
def lineOf (address : ℤ) : ℤ := address / 16

/-- `address & 0xF` -/
def wordOf (address : ℤ) : ℤ := address % 16

/-- `location_stack` is a local variable of this function, read before it is assigned. -/
def initCache (v : Version) (CACHE_SZ : ℤ) : Py Cache := do
  let cacheStorage ← repeatList [List.replicate 16 0] (← div v CACHE_SZ 16)
  let locationStackStorage ← range (← div v CACHE_SZ 16)
  let locationStackPtr ← ((← div v CACHE_SZ 16).sub 1).integer
  let lastUsedLoc ← getItem (← unassigned) locationStackPtr
  return {
    cacheStorage, addressToCacheLoc := fun _ => none, cacheLocToAddress := fun _ => none,
    locationStack := ⟨locationStackStorage, locationStackPtr, lastUsedLoc⟩ }

/-- The location is read into `loc`, and `location` is returned. -/
def getNextFreeLocation (locationStack : LocationStack) : Py (ℤ × LocationStack) := do
  let _loc ← getItem locationStack.locationStackStorage locationStack.locationStackPtr
  let locationStackPtr := locationStack.locationStackPtr - 1
  let location ← undefinedName
  return (location, { locationStack with locationStackPtr })

/-- `location_stack` is the tuple, not the list in it. -/
def evictLocation (locationStack : LocationStack) : Py LocationStack := do
  let locationStackPtr := locationStack.locationStackPtr + 1
  setTupleItem
  return { locationStack with locationStackPtr }

def cacheIsFull (locationStackPtr : ℤ) : Bool := locationStackPtr = 0

/-- The loop that copies a cache line to memory. -/
def copyLine (memory : Memory) (evictedAddress : ℤ) (cacheLine : List ℤ) : Py Memory :=
  (List.range 16).foldlM (fun memory (i : ℕ) => do
    let cdata ← getItem cacheLine i
    setItem memory (evictedAddress * 16 + i) cdata) memory

/-- What `evict_location` returns is overwritten by the tuple that was passed. -/
def writeToMemOnEvict (memory : Memory) (cache : Cache) (_address _data : ℤ) :
    Py (Memory × Cache) := do
  let lastUsedLoc := cache.locationStack.lastUsedLoc
  let memory ←
    if cacheIsFull cache.locationStack.locationStackPtr then do
      let _locationStack ← evictLocation cache.locationStack
      let evictedAddress ← lookup cache.cacheLocToAddress lastUsedLoc
      let cacheLine ← getItem cache.cacheStorage lastUsedLoc
      copyLine memory evictedAddress cacheLine
    else pure memory
  return (memory, cache)

/-- The stack pointer is left as it was, too. -/
def readFromMemOnMiss (memory : Memory) (cache : Cache) (address : ℤ) :
    Py (Memory × Cache) := do
  let (loc, _locationStack) ← getNextFreeLocation cache.locationStack
  let cacheLine ← (List.range 16).mapM fun (i : ℕ) => getItem memory (lineOf address * 16 + i)
  let cacheStorage ← setItem cache.cacheStorage loc cacheLine
  return (memory, {
    cacheStorage
    addressToCacheLoc := Function.update cache.addressToCacheLoc (lineOf address) (some loc)
    cacheLocToAddress := Function.update cache.cacheLocToAddress loc (some (lineOf address))
    locationStack := { cache.locationStack with lastUsedLoc := loc } })

/-- `memory` is not an argument of this function. -/
def updateCacheEntry (cache : Cache) (address data : ℤ) : Py (Memory × Cache) := do
  let loc ← lookup cache.addressToCacheLoc (lineOf address)
  let cacheLine ← getItem cache.cacheStorage loc
  let cacheLine ← setItem cacheLine (wordOf address) data
  let cacheStorage ← setItem cache.cacheStorage loc cacheLine
  let locationStack := { cache.locationStack with lastUsedLoc := loc }
  let memory ← undefinedName
  return (memory, { cache with cacheStorage, locationStack })

def fetchCacheEntry (cache : Cache) (address : ℤ) : Py ℤ := do
  let loc ← lookup cache.addressToCacheLoc (lineOf address)
  let cacheLine ← getItem cache.cacheStorage loc
  getItem cacheLine (wordOf address)

/-- The table of lines is searched for the address itself. -/
def writeDataToCache (memory : Memory) (cache : Cache) (address data : ℤ) :
    Py (Memory × Cache) := do
  let (memory, cache) ←
    if cacheIsFull cache.locationStack.locationStackPtr then
      writeToMemOnEvict memory cache address data
    else pure (memory, cache)
  if cache.addressToCacheLoc address = none then readFromMemOnMiss memory cache address
  else do
    let (memory, cache) ← updateCacheEntry cache address data
    let _loc ← lookup cache.addressToCacheLoc (lineOf address)
    return (memory, cache)

/-- Every read starts with an eviction; `location_stack_ptr` is not defined here, and `data` is a
local variable, assigned at the end. -/
def readDataFromCache (memory : Memory) (address : ℤ) (cache : Cache) :
    Py (ℤ × Memory × Cache) := do
  let _locationStack ← evictLocation cache.locationStack
  let (memory, cache) ←
    if cache.addressToCacheLoc address = none then do
      let locationStackPtr ← undefinedName
      let (memory, cache) ←
        if cacheIsFull locationStackPtr then do
          writeToMemOnEvict memory cache address (← unassigned)
        else pure (memory, cache)
      readFromMemOnMiss memory cache address
    else pure (memory, cache)
  let data ← fetchCacheEntry cache address
  return (data, memory, cache)

/-! ## What the functions raise -/

section
variable (v : Version) (CACHE_SZ address data : ℤ) (memory : Memory) (cache : Cache)
  (locationStack : LocationStack)

theorem raises_initCache : Raises (initCache v CACHE_SZ) := by
  refine Raises.bind_right fun _ => Raises.bind_right fun _ => ?_
  refine Raises.bind_right fun _ => Raises.bind_right fun _ => ?_
  refine Raises.bind_right fun _ => Raises.bind_right fun _ => ?_
  exact Raises.bind_left (raises_error .unboundLocalError)

theorem raises_getNextFreeLocation : Raises (getNextFreeLocation locationStack) :=
  Raises.bind_right fun _ => Raises.bind_left (raises_error .nameError)

theorem raises_evictLocation : Raises (evictLocation locationStack) :=
  Raises.bind_left (raises_error .typeError)

/-- An eviction from a full cache raises. -/
theorem raises_writeToMemOnEvict (h : cache.locationStack.locationStackPtr = 0) :
    Raises (writeToMemOnEvict memory cache address data) := by
  have hfull : cacheIsFull cache.locationStack.locationStackPtr = true := decide_eq_true h
  simp only [writeToMemOnEvict, hfull, if_true]
  exact Raises.bind_left (raises_evictLocation _)

/-- On a cache that is not full nothing is done. -/
theorem writeToMemOnEvict_eq (h : cache.locationStack.locationStackPtr ≠ 0) :
    writeToMemOnEvict memory cache address data = .ok (memory, cache) := by
  have hfull : cacheIsFull cache.locationStack.locationStackPtr = false := decide_eq_false h
  rw [writeToMemOnEvict, hfull]
  rfl

theorem raises_readFromMemOnMiss : Raises (readFromMemOnMiss memory cache address) :=
  Raises.bind_left (raises_getNextFreeLocation _)

theorem raises_updateCacheEntry : Raises (updateCacheEntry cache address data) := by
  refine Raises.bind_right fun _ => Raises.bind_right fun _ => ?_
  refine Raises.bind_right fun _ => Raises.bind_right fun _ => ?_
  exact Raises.bind_left (raises_error .nameError)

/-- A write raises, whether it hits or misses. -/
theorem raises_writeDataToCache : Raises (writeDataToCache memory cache address data) := by
  -- whatever the eviction returns, a miss goes on to read memory and a hit to update the line
  have hrest : ∀ p : Memory × Cache, Raises
      (if p.2.addressToCacheLoc address = none then readFromMemOnMiss p.1 p.2 address
      else do
        let (memory, cache) ← updateCacheEntry p.2 address data
        let _loc ← lookup cache.addressToCacheLoc (lineOf address)
        return (memory, cache)) := by
    intro p
    refine Raises.ite (fun _ => raises_readFromMemOnMiss _ _ _) fun _ => ?_
    exact Raises.bind_left (raises_updateCacheEntry _ _ _)
  exact Raises.ite (fun _ => Raises.bind_right hrest) fun _ => Raises.bind_right hrest

/-- A read raises, whether it hits or misses. -/
theorem raises_readDataFromCache : Raises (readDataFromCache memory address cache) :=
  Raises.bind_left (raises_evictLocation _)

end
end Osh.CacheModel
