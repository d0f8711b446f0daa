import Gmsol.Library.BinarySearch
import Gmsol.Library.FixedArray

/-!
# The fixed-size map container

The map that `fixed_map!` generates keeps its entries sorted by key in the
first `count` slots of an array.  A key of the caller is first converted to a
fixed-size one.  The value types of the program have the all-zero value as
their default, so that a zeroed map consists of default entries.
-/

namespace Gmsol.Container

open Fallible FixedArray

structure Entry (K V : Type) where
  key : K
  value : V
deriving DecidableEq, Repr

instance {K V : Type} [Inhabited K] [Inhabited V] : Inhabited (Entry K V) :=
  ⟨{ key := default, value := default }⟩

inductive GeneralError
  | alreadyExist
  | exceedMaxLengthLimit
deriving DecidableEq, Repr

/-- The number of values of the counter. -/
def countRange : ℕ := 2 ^ 32

def increment (count : ℕ) : Except Panic ℕ :=
  if count + 1 < countRange then .ok (count + 1) else .error .arithmeticOverflow

def decrement (count : ℕ) : Except Panic ℕ :=
  if 1 ≤ count then .ok (count - 1) else .error .arithmeticOverflow

structure FixedMap (N : ℕ) (K V : Type) where
  data : Vector (Entry K V) N
  count : ℕ
deriving DecidableEq

/-- The value that an update through a mutable reference leaves behind is given
as a function of the value before. -/
inductive Operation (Q K V : Type)
  | get (key : Q)
  | insert (key : Q) (value : V)
  | insertWithOptions (key : Q) (value : V) (new : Bool)
  | getMut (key : Q) (update : V → V)
  | entriesMut (update : K → V → V)
  | remove (key : Q)
  | clear

inductive Output (V : Type)
  | value (found : Option V)
  | inserted (outcome : Except GeneralError (Option V))
  | done

namespace FixedMap

variable {N : ℕ} {Q K V : Type} [LinearOrder K] [Inhabited K] [Inhabited V]

def zeroed : FixedMap N K V where
  data := Vector.replicate N default
  count := 0

def len (map : FixedMap N K V) : ℕ := map.count

def isEmpty (map : FixedMap N K V) : Bool := map.count = 0

def compareAt (map : FixedMap N K V) (key : K) (index : ℕ) : Ordering :=
  match map.data[index]? with
  | some entry => cmp entry.key key
  | none => .gt

def binarySearch (map : FixedMap N K V) (key : K) :
    Except Panic (Except ℕ ℕ) := do
  ensure (map.len ≤ N) .indexOutOfBounds
  .ok (binarySearchBy (map.compareAt key) map.len)

def entries (map : FixedMap N K V) : List (K × V) :=
  (map.data.toList.take map.len).map fun entry => (entry.key, entry.value)

section Operations

variable (toKey : Q → K)

def get (map : FixedMap N K V) (key : Q) : Except Panic (Option V) := do
  match ← map.binarySearch (toKey key) with
  | .ok index =>
    let entry ← readAt map.data index
    .ok (some entry.value)
  | .error _ => .ok none

/-- The value before the update, and the map after it. -/
def getMut (map : FixedMap N K V) (key : Q) (update : V → V) :
    Except Panic (FixedMap N K V × Option V) := do
  match ← map.binarySearch (toKey key) with
  | .ok index =>
    let entry ← readAt map.data index
    let data ← writeAt map.data index
      { entry with value := update entry.value }
    .ok ({ map with data }, some entry.value)
  | .error _ => .ok (map, none)

def insertWithOptions (map : FixedMap N K V) (key : Q) (value : V) (new : Bool) :
    Except Panic (FixedMap N K V × Except GeneralError (Option V)) := do
  match ← map.binarySearch (toKey key) with
  | .ok index =>
    if new then .ok (map, .error .alreadyExist)
    else
      let entry ← readAt map.data index
      let data ← writeAt map.data index { entry with value }
      .ok ({ map with data }, .ok (some entry.value))
  | .error index =>
    if N ≤ map.len then .ok (map, .error .exceedMaxLengthLimit)
    else
      let data ← shiftUp index (map.len - index) map.data
      let data ← writeAt data index { key := toKey key, value }
      let count ← increment map.count
      .ok ({ data, count }, .ok none)

def insert (map : FixedMap N K V) (key : Q) (value : V) :
    Except Panic (FixedMap N K V × Option V) := do
  match ← map.insertWithOptions toKey key value false with
  | (map, .ok previous) => .ok (map, previous)
  | (_, .error _) => .error .expectFailed

def remove (map : FixedMap N K V) (key : Q) :
    Except Panic (FixedMap N K V × Option V) := do
  match ← map.binarySearch (toKey key) with
  | .ok index =>
    let entry ← readAt map.data index
    let data ← writeAt map.data index { entry with value := default }
    let data ← shiftDown index (map.len - index) data
    let last ← decrement map.len
    let data ← writeAt data last default
    let count ← decrement map.count
    .ok ({ data, count }, some entry.value)
  | .error _ => .ok (map, none)

end Operations

/-- Every live entry is visited, and no other slot. -/
def entriesMut (map : FixedMap N K V) (update : K → V → V) : FixedMap N K V where
  data := map.data.mapIdx fun index entry =>
    if index < map.len then { entry with value := update entry.key entry.value }
    else entry
  count := map.count

def clear (map : FixedMap N K V) : Except Panic (FixedMap N K V) := do
  let data ← fill default 0 map.len map.data
  .ok { data, count := 0 }

section Run

variable (toKey : Q → K)

def step (map : FixedMap N K V) :
    Operation Q K V → Except Panic (FixedMap N K V × Output V)
  | .get key => do
    let found ← map.get toKey key
    .ok (map, .value found)
  | .insert key value => do
    let (map, previous) ← map.insert toKey key value
    .ok (map, .inserted (.ok previous))
  | .insertWithOptions key value new => do
    let (map, outcome) ← map.insertWithOptions toKey key value new
    .ok (map, .inserted outcome)
  | .getMut key update => do
    let (map, found) ← map.getMut toKey key update
    .ok (map, .value found)
  | .entriesMut update => .ok (map.entriesMut update, .done)
  | .remove key => do
    let (map, removed) ← map.remove toKey key
    .ok (map, .value removed)
  | .clear => do
    let map ← map.clear
    .ok (map, .done)

/-- Performs operations one after the other and lists what they return. -/
def run (map : FixedMap N K V) :
    List (Operation Q K V) → Except Panic (FixedMap N K V × List (Output V))
  | [] => .ok (map, [])
  | operation :: operations => do
    let (map, output) ← map.step toKey operation
    let (map, outputs) ← run map operations
    .ok (map, output :: outputs)

end Run

end FixedMap

end Gmsol.Container
