import Gmsol.Library.Fallible

/-!
# Insertion-ordered maps

A map that keeps its entries in the order in which they were inserted.  Writing
to a key that is present keeps its place; what is summed over all values changes
by what the one written value changes.
-/

namespace Gmsol

universe u v

/-- The entries in the order of their insertion; no key occurs twice. -/
structure IndexMap (K : Type u) (V : Type v) where
  entries : List (K × V)
  nodup : (entries.map Prod.fst).Nodup

namespace IndexMap

variable {K : Type u} {V : Type v}

def empty : IndexMap K V := ⟨[], List.nodup_nil⟩

def keys (map : IndexMap K V) : List K := map.entries.map Prod.fst

variable [DecidableEq K]

def find (key : K) : List (K × V) → Option V
  | [] => none
  | entry :: rest => if entry.1 = key then some entry.2 else find key rest

def get (map : IndexMap K V) (key : K) : Option V := find key map.entries

/-- Inserts an entry for a key that has none. -/
def insertVacant (map : IndexMap K V) (key : K) (value : V)
    (hvacant : key ∉ map.keys) : IndexMap K V where
  entries := map.entries ++ [(key, value)]
  nodup := by
    rw [List.map_append, List.nodup_append]
    refine ⟨map.nodup, List.nodup_singleton _, fun first hfirst second hsecond => ?_⟩
    rintro rfl
    obtain rfl : first = key := by simpa using hsecond
    exact hvacant hfirst

def overwrite (key : K) (value : V) (entries : List (K × V)) : List (K × V) :=
  entries.map fun entry => if entry.1 = key then (key, value) else entry

theorem overwrite_keys (key : K) (value : V) (entries : List (K × V)) :
    (overwrite key value entries).map Prod.fst = entries.map Prod.fst := by
  rw [overwrite, List.map_map]
  apply List.map_congr_left
  intro entry _
  by_cases hsame : entry.1 = key <;> simp [hsame]

/-- Writes through a reference to the value of a key. -/
def set (map : IndexMap K V) (key : K) (value : V) : IndexMap K V where
  entries := overwrite key value map.entries
  nodup := by
    rw [overwrite_keys]
    exact map.nodup

@[simp]
theorem keys_set (map : IndexMap K V) (key : K) (value : V) :
    (map.set key value).keys = map.keys :=
  overwrite_keys key value map.entries

omit [DecidableEq K] in
@[simp]
theorem keys_insertVacant (map : IndexMap K V) (key : K) (value : V)
    (hvacant : key ∉ map.keys) :
    (map.insertVacant key value hvacant).keys = map.keys ++ [key] := by
  simp [keys, insertVacant]

omit [DecidableEq K] in
/-- The map with the same keys and other values. -/
def mapValues {W : Type*} (map : IndexMap K V) (change : V → W) : IndexMap K W where
  entries := map.entries.map fun entry => (entry.1, change entry.2)
  nodup := by
    rw [List.map_map]
    exact map.nodup

theorem find_eq_none {key : K} {entries : List (K × V)} :
    find key entries = none ↔ key ∉ entries.map Prod.fst := by
  induction entries with
  | nil => simp [find]
  | cons entry rest ih =>
      by_cases hsame : entry.1 = key
      · simp [find, hsame]
      · simp only [find, if_neg hsame, ih, List.map_cons, List.mem_cons, not_or]
        exact ⟨fun hrest => ⟨Ne.symm hsame, hrest⟩, fun hboth => hboth.2⟩

theorem get_eq_none {map : IndexMap K V} {key : K} :
    map.get key = none ↔ key ∉ map.keys :=
  find_eq_none

theorem mem_keys_of_get {map : IndexMap K V} {key : K} {value : V}
    (hget : map.get key = some value) : key ∈ map.keys := by
  by_contra habsent
  rw [get_eq_none.mpr habsent] at hget
  exact absurd hget (by simp)

theorem find_append (key : K) (front back : List (K × V)) :
    find key (front ++ back) = (find key front).or (find key back) := by
  induction front with
  | nil => rfl
  | cons entry rest ih =>
      by_cases hsame : entry.1 = key
      · simp [find, hsame]
      · simp [find, hsame, ih]

theorem get_insertVacant (map : IndexMap K V) (key other : K) (value : V)
    (hvacant : key ∉ map.keys) :
    (map.insertVacant key value hvacant).get other =
      if other = key then some value else map.get other := by
  simp only [get, insertVacant, find_append]
  by_cases hsame : other = key
  · subst hsame
    rw [find_eq_none.mpr hvacant]
    simp [find]
  · rw [if_neg hsame]
    simp [find, Ne.symm hsame]

theorem find_overwrite_of_ne {key other : K} (hother : other ≠ key) (value : V)
    (entries : List (K × V)) :
    find other (overwrite key value entries) = find other entries := by
  induction entries with
  | nil => rfl
  | cons entry rest ih =>
      rw [overwrite] at ih ⊢
      rw [List.map_cons]
      by_cases hentry : entry.1 = key
      · simp [find, hentry, Ne.symm hother, ih]
      · simp [find, hentry, ih]

theorem find_overwrite_self {key : K} (value : V) {entries : List (K × V)}
    (hpresent : key ∈ entries.map Prod.fst) :
    find key (overwrite key value entries) = some value := by
  induction entries with
  | nil => exact absurd hpresent (by simp)
  | cons entry rest ih =>
      rw [overwrite] at ih ⊢
      rw [List.map_cons]
      by_cases hentry : entry.1 = key
      · simp [find, hentry]
      · have hrest : key ∈ rest.map Prod.fst := by
          rcases List.mem_cons.mp hpresent with heq | hmem
          · exact absurd heq.symm hentry
          · exact hmem
        simpa [find, hentry] using ih hrest

theorem get_set {map : IndexMap K V} {key : K} (hpresent : key ∈ map.keys)
    (value : V) (other : K) :
    (map.set key value).get other =
      if other = key then some value else map.get other := by
  by_cases hother : other = key
  · subst hother
    rw [if_pos rfl]
    exact find_overwrite_self value hpresent
  · rw [if_neg hother]
    exact find_overwrite_of_ne hother value map.entries

theorem get_of_mem {map : IndexMap K V} {entry : K × V}
    (hmem : entry ∈ map.entries) : map.get entry.1 = some entry.2 := by
  obtain ⟨entries, hnodup⟩ := map
  simp only [get] at hmem ⊢
  induction entries with
  | nil => exact absurd hmem (by simp)
  | cons first rest ih =>
      rw [List.map_cons, List.nodup_cons] at hnodup
      rcases List.mem_cons.mp hmem with rfl | hrest
      · rw [find, if_pos rfl]
      · rw [find, if_neg, ih hnodup.2 hrest]
        intro hsame
        exact hnodup.1 (hsame ▸ List.mem_map_of_mem hrest)

theorem mem_of_find {key : K} {value : V} {entries : List (K × V)}
    (hfind : find key entries = some value) : (key, value) ∈ entries := by
  induction entries with
  | nil => exact absurd hfind (by simp [find])
  | cons entry rest ih =>
      rw [find] at hfind
      split at hfind
      · rename_i hsame
        obtain rfl := Option.some.inj hfind
        obtain rfl := hsame
        exact List.mem_cons_self
      · exact List.mem_cons_of_mem entry (ih hfind)

theorem mem_values_of_get {map : IndexMap K V} {key : K} {value : V}
    (hget : map.get key = some value) : value ∈ map.entries.map Prod.snd :=
  List.mem_map.mpr ⟨(key, value), mem_of_find hget, rfl⟩

theorem get_set_of_ne (map : IndexMap K V) {key other : K} (hother : other ≠ key)
    (value : V) : (map.set key value).get other = map.get other :=
  find_overwrite_of_ne hother value map.entries

/-- The later of two writes wins where both go to the same key. -/
theorem get_set_set {map : IndexMap K V} {first second : K}
    (hfirst : first ∈ map.keys) (hsecond : second ∈ map.keys)
    (firstValue secondValue : V) (other : K) :
    ((map.set first firstValue).set second secondValue).get other =
      if other = second then some secondValue
      else if other = first then some firstValue else map.get other := by
  rw [get_set (by rw [keys_set]; exact hsecond), get_set hfirst]

/-- Writes the value of a key, whether the key has one or not. -/
def insert (map : IndexMap K V) (key : K) (value : V) : IndexMap K V :=
  if hvacant : key ∉ map.keys then map.insertVacant key value hvacant
  else map.set key value

theorem get_insert (map : IndexMap K V) (key : K) (value : V) (other : K) :
    (map.insert key value).get other =
      if other = key then some value else map.get other := by
  rw [insert]
  split
  · exact get_insertVacant map key other value _
  · rename_i hpresent
    exact get_set (not_not.mp hpresent) value other

@[simp]
theorem get_empty (key : K) : (empty : IndexMap K V).get key = none := rfl

theorem mem_keys_iff {map : IndexMap K V} {key : K} :
    key ∈ map.keys ↔ ∃ value, map.get key = some value := by
  rw [← Option.isSome_iff_exists, ← not_iff_not, ← get_eq_none,
    Option.not_isSome_iff_eq_none]

theorem get_mapValues {W : Type*} (map : IndexMap K V) (change : V → W) (key : K) :
    (map.mapValues change).get key = (map.get key).map change := by
  obtain ⟨entries, hnodup⟩ := map
  simp only [get, mapValues]
  clear hnodup
  induction entries with
  | nil => rfl
  | cons entry rest ih =>
      by_cases hsame : entry.1 = key
      · simp [find, hsame]
      · simpa [find, hsame] using ih

omit [DecidableEq K] in
@[simp]
theorem keys_mapValues {W : Type*} (map : IndexMap K V) (change : V → W) :
    (map.mapValues change).keys = map.keys := by
  simp [keys, mapValues, Function.comp_def]

omit [DecidableEq K] in
theorem mapValues_insertVacant {W : Type*} (map : IndexMap K V) (change : V → W) (key : K)
    (value : V) (hvacant : key ∉ map.keys) :
    (map.insertVacant key value hvacant).mapValues change =
      (map.mapValues change).insertVacant key (change value)
        (by rw [keys_mapValues]; exact hvacant) := by
  simp [mapValues, insertVacant]

/-- The entries are what the keys and the lookups say. -/
theorem entries_eq_filterMap (map : IndexMap K V) :
    map.entries = map.keys.filterMap fun key => (map.get key).map (Prod.mk key) := by
  have hentry (entry : K × V) (hmem : entry ∈ map.entries) :
      (map.get entry.1).map (Prod.mk entry.1) = some entry := by
    rw [get_of_mem hmem]
    rfl
  rw [keys, List.filterMap_map]
  exact ((List.filterMap_congr hentry).trans List.filterMap_some).symm

/-- Maps with the same keys in the same order are the same when their lookups are. -/
theorem ext_get {first second : IndexMap K V} (hkeys : first.keys = second.keys)
    (hget : ∀ key, first.get key = second.get key) : first = second := by
  obtain ⟨entries, hnodup⟩ := first
  congr
  rw [entries_eq_filterMap second, ← hkeys, ← funext hget]
  exact entries_eq_filterMap ⟨entries, hnodup⟩

/-! ## Sums over all values -/

section Total

variable {M : Type*} [AddCommMonoid M]

/-- The sum of a measure of all values. -/
def total (map : IndexMap K V) (measure : V → M) : M :=
  (map.entries.map fun entry => measure entry.2).sum

omit [DecidableEq K] in
theorem total_insertVacant (map : IndexMap K V) (measure : V → M) (key : K)
    (value : V) (hvacant : key ∉ map.keys) :
    (map.insertVacant key value hvacant).total measure =
      map.total measure + measure value := by
  simp [total, insertVacant]

/-- The sum over the keys, in their order. -/
theorem total_eq_sum_get (map : IndexMap K V) (measure : V → M) :
    map.total measure = (map.keys.map fun key => (map.get key).elim 0 measure).sum := by
  unfold total keys
  rw [List.map_map]
  congr 1
  apply List.map_congr_left
  intro entry hentry
  rw [Function.comp_apply, get_of_mem hentry, Option.elim_some]

theorem total_eq_zero {map : IndexMap K V} {measure : V → M}
    (hzero : ∀ {key value}, map.get key = some value → measure value = 0) :
    map.total measure = 0 := by
  apply List.sum_eq_zero
  intro value hvalue
  obtain ⟨entry, hentry, rfl⟩ := List.mem_map.mp hvalue
  exact hzero (get_of_mem hentry)

theorem overwrite_of_not_mem {key : K} (value : V) {entries : List (K × V)}
    (habsent : key ∉ entries.map Prod.fst) :
    overwrite key value entries = entries := by
  rw [overwrite]
  apply (List.map_congr_left fun entry hentry => ?_).trans (List.map_id entries)
  rw [if_neg fun heq : entry.1 = key =>
    habsent (heq ▸ List.mem_map_of_mem hentry)]
  rfl

/-- One write replaces the measure of the old value by that of the new one. -/
theorem total_set (map : IndexMap K V) (measure : V → M) {key : K} {old : V}
    (hget : map.get key = some old) (value : V) :
    (map.set key value).total measure + measure old =
      map.total measure + measure value := by
  obtain ⟨entries, hnodup⟩ := map
  simp only [get, set, total] at hget ⊢
  induction entries with
  | nil => exact absurd hget (by simp [find])
  | cons entry rest ih =>
      rw [List.map_cons, List.nodup_cons] at hnodup
      by_cases hentry : entry.1 = key
      · obtain rfl : entry.2 = old := by simpa [find, hentry] using hget
        have hrest := overwrite_of_not_mem value (hentry ▸ hnodup.1)
        rw [overwrite] at hrest
        rw [overwrite, List.map_cons, if_pos hentry, hrest]
        simp only [List.map_cons, List.sum_cons]
        abel
      · rw [find, if_neg hentry] at hget
        have hsum := ih hnodup.2 hget
        rw [overwrite, List.map_cons, if_neg hentry]
        simp only [List.map_cons, List.sum_cons, add_assoc]
        rw [overwrite] at hsum
        rw [hsum]

end Total

end IndexMap

end Gmsol
