import Gmsol.Container.FixedMap

/-!
# The container as a finite map

The abstract map is a `Finmap` from fixed-size keys to values, with a bound on
the number of its keys.  `Represents` relates the container to it; every
operation of the container that does not stop the program keeps the relation
and returns what the finite map returns.
-/

namespace Gmsol.Container

open Fallible FixedArray

abbrev FiniteMap (K V : Type) := Finmap fun _ : K => V

namespace FiniteMap

variable {Q K V : Type} [LinearOrder K]

theorem keys_insert (map : FiniteMap K V) (key : K) (value : V) :
    (map.insert key value).keys = Insert.insert key map.keys := by
  ext other
  rw [Finmap.mem_keys, Finmap.mem_insert, Finset.mem_insert, Finmap.mem_keys]

theorem lookup_insert_iff (map : FiniteMap K V) (key other : K)
    (value found : V) :
    (map.insert key value).lookup other = some found ↔
      (other = key ∧ found = value) ∨
        (other ≠ key ∧ map.lookup other = some found) := by
  by_cases hsame : other = key
  · subst hsame
    rw [Finmap.lookup_insert]
    simp [eq_comm]
  · rw [Finmap.lookup_insert_of_ne map hsame]
    simp [hsame]

theorem lookup_erase_iff (map : FiniteMap K V) (key other : K) (found : V) :
    (map.erase key).lookup other = some found ↔
      other ≠ key ∧ map.lookup other = some found := by
  by_cases hsame : other = key
  · subst hsame
    rw [Finmap.lookup_erase]
    simp
  · rw [Finmap.lookup_erase_ne hsame]
    simp [hsame]

/-- Updates the value of every key. -/
def mapValues (map : FiniteMap K V) (update : K → V → V) : FiniteMap K V where
  entries := map.entries.map fun entry => ⟨entry.1, update entry.1 entry.2⟩
  nodupKeys := by
    rw [← Multiset.nodup_keys]
    simpa [Multiset.keys, Multiset.map_map, Function.comp_def] using
      Multiset.nodup_keys.mpr map.nodupKeys

omit [LinearOrder K] in
theorem keys_mapValues (map : FiniteMap K V) (update : K → V → V) :
    (map.mapValues update).keys = map.keys := by
  apply Finset.eq_of_veq
  simp [Finmap.keys, mapValues, Multiset.keys, Multiset.map_map]

theorem lookup_mapValues_iff (map : FiniteMap K V) (update : K → V → V)
    (key : K) (found : V) :
    (map.mapValues update).lookup key = some found ↔
      ∃ value, map.lookup key = some value ∧ found = update key value := by
  simp only [Finmap.lookup_eq_some_iff, mapValues, Multiset.mem_map]
  constructor
  · rintro ⟨⟨other, value⟩, hmem, hentry⟩
    obtain ⟨rfl, hfound⟩ := Sigma.mk.inj_iff.mp hentry
    exact ⟨value, hmem, (eq_of_heq hfound).symm⟩
  · rintro ⟨value, hmem, rfl⟩
    exact ⟨⟨key, value⟩, hmem, rfl⟩

/-- Insertion into a map of at most `capacity` keys. -/
def insertBounded (capacity : ℕ) (map : FiniteMap K V) (key : K) (value : V)
    (new : Bool) : FiniteMap K V × Except GeneralError (Option V) :=
  match map.lookup key with
  | some previous =>
    if new then (map, .error .alreadyExist)
    else (map.insert key value, .ok (some previous))
  | none =>
    if capacity ≤ map.keys.card then (map, .error .exceedMaxLengthLimit)
    else (map.insert key value, .ok none)

def updateValue (map : FiniteMap K V) (key : K) (update : V → V) :
    FiniteMap K V :=
  match map.lookup key with
  | some value => map.insert key (update value)
  | none => map

section Run

variable (capacity : ℕ) (toKey : Q → K)

def step (map : FiniteMap K V) : Operation Q K V → FiniteMap K V × Output V
  | .get key => (map, .value (map.lookup (toKey key)))
  | .insert key value =>
    let result := map.insertBounded capacity (toKey key) value false
    (result.1, .inserted result.2)
  | .insertWithOptions key value new =>
    let result := map.insertBounded capacity (toKey key) value new
    (result.1, .inserted result.2)
  | .getMut key update =>
    (map.updateValue (toKey key) update, .value (map.lookup (toKey key)))
  | .entriesMut update => (map.mapValues update, .done)
  | .remove key => (map.erase (toKey key), .value (map.lookup (toKey key)))
  | .clear => (∅, .done)

def run (map : FiniteMap K V) :
    List (Operation Q K V) → FiniteMap K V × List (Output V)
  | [] => (map, [])
  | operation :: operations =>
    let next := map.step capacity toKey operation
    let result := run next.1 operations
    (result.1, next.2 :: result.2)

/-- The container can carry out the operation: it never removes a key when it
is full, an insertion that must succeed finds room for a new key, and the
counter can count a new key. -/
def Safe (map : FiniteMap K V) : Operation Q K V → Prop
  | .insert key _ => toKey key ∈ map ∨
      map.keys.card < capacity ∧ map.keys.card + 1 < countRange
  | .insertWithOptions key _ _ => toKey key ∈ map ∨
      capacity ≤ map.keys.card ∨ map.keys.card + 1 < countRange
  | .remove key => toKey key ∉ map ∨ map.keys.card < capacity
  | .get _ | .getMut _ _ | .entriesMut _ | .clear => True

/-- Every operation is safe for the finite map that it finds. -/
def SafeRun (map : FiniteMap K V) : List (Operation Q K V) → Prop
  | [] => True
  | operation :: operations => map.Safe capacity toKey operation ∧
      SafeRun (map.step capacity toKey operation).1 operations

end Run

end FiniteMap

end Gmsol.Container
