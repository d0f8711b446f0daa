import Gmsol.Container.FiniteMap

/-!
# The container refines a finite map

A container represents a finite map when its live entries are sorted by key and
are the entries of the map, and every other slot holds the default entry.
-/

namespace Gmsol.Container

open Fallible FixedArray

variable {N : ℕ} {Q K V : Type} [LinearOrder K] [Inhabited K] [Inhabited V]

structure Represents (map : FixedMap N K V) (model : FiniteMap K V) : Prop where
  count_le : map.count ≤ N
  card_eq : model.keys.card = map.count
  sorted : ∀ {first second : ℕ} {lower upper : Entry K V}, first < second →
    second < map.count → map.data[first]? = some lower →
    map.data[second]? = some upper → lower.key < upper.key
  vacant : ∀ {slot : ℕ}, map.count ≤ slot → slot < N →
    map.data[slot]? = some default
  lookup_iff : ∀ key value, model.lookup key = some value ↔
    ∃ slot, slot < map.count ∧ map.data[slot]? = some ⟨key, value⟩

theorem represents_zeroed :
    Represents (FixedMap.zeroed : FixedMap N K V) ∅ where
  count_le := Nat.zero_le N
  card_eq := by simp [FixedMap.zeroed]
  sorted := by
    intro first second lower upper _ hsecond
    exact absurd hsecond (Nat.not_lt_zero second)
  vacant := by
    intro slot _ hslot
    simp [FixedMap.zeroed, hslot]
  lookup_iff := by
    intro key value
    simp [FixedMap.zeroed]

namespace Represents

variable {map : FixedMap N K V} {model : FiniteMap K V}

/-! ## Searching -/

omit [Inhabited K] [Inhabited V] in
theorem compareAt_eq {slot : ℕ} {entry : Entry K V} (key : K)
    (hentry : map.data[slot]? = some entry) :
    map.compareAt key slot = cmp entry.key key := by
  simp [FixedMap.compareAt, hentry]

theorem exists_entry (hrep : Represents map model) {slot : ℕ}
    (hslot : slot < map.count) : ∃ entry, map.data[slot]? = some entry :=
  exists_getElem? map.data (hslot.trans_le hrep.count_le)

theorem key_le (hrep : Represents map model) {first second : ℕ}
    {lower upper : Entry K V} (hle : first ≤ second)
    (hsecond : second < map.count) (hlower : map.data[first]? = some lower)
    (hupper : map.data[second]? = some upper) : lower.key ≤ upper.key := by
  rcases hle.eq_or_lt with rfl | hlt
  · rw [hlower] at hupper
    exact le_of_eq (congrArg Entry.key (Option.some.inj hupper))
  · exact (hrep.sorted hlt hsecond hlower hupper).le

theorem sortedBy (hrep : Represents map model) (key : K) :
    SortedBy (map.compareAt key) map.count where
  lt_of_lt := by
    intro first second hle hsecond hcompare
    obtain ⟨lower, hlower⟩ := hrep.exists_entry (hle.trans_lt hsecond)
    obtain ⟨upper, hupper⟩ := hrep.exists_entry hsecond
    rw [compareAt_eq key hupper, cmp_eq_lt_iff] at hcompare
    rw [compareAt_eq key hlower, cmp_eq_lt_iff]
    exact (hrep.key_le hle hsecond hlower hupper).trans_lt hcompare
  gt_of_gt := by
    intro first second hle hsecond hcompare
    obtain ⟨lower, hlower⟩ := hrep.exists_entry (hle.trans_lt hsecond)
    obtain ⟨upper, hupper⟩ := hrep.exists_entry hsecond
    rw [compareAt_eq key hlower, cmp_eq_gt_iff] at hcompare
    rw [compareAt_eq key hupper, cmp_eq_gt_iff]
    exact hcompare.trans_le (hrep.key_le hle hsecond hlower hupper)

/-- What a search for a key finds. -/
inductive Search (map : FixedMap N K V) (model : FiniteMap K V) (key : K) :
    Except ℕ ℕ → Prop
  | found {index : ℕ} {value : V} (index_lt : index < map.count)
      (entry : map.data[index]? = some ⟨key, value⟩)
      (lookup : model.lookup key = some value) :
      Search map model key (.ok index)
  | missing {index : ℕ} (index_le : index ≤ map.count)
      (below : ∀ slot entry, slot < index → map.data[slot]? = some entry →
        entry.key < key)
      (above : ∀ slot entry, index ≤ slot → slot < map.count →
        map.data[slot]? = some entry → key < entry.key)
      (lookup : model.lookup key = none) :
      Search map model key (.error index)

theorem binarySearch (hrep : Represents map model) (key : K) :
    ∃ result, map.binarySearch key = .ok result ∧
      Search map model key result := by
  refine ⟨binarySearchBy (map.compareAt key) map.len, ?_, ?_⟩
  · have hlen : ensure (map.len ≤ N) Panic.indexOutOfBounds = .ok () :=
      ensure_eq_ok.mpr hrep.count_le
    rw [FixedMap.binarySearch, hlen]
    rfl
  · have hspec := binarySearchBy_spec (hrep.sortedBy key)
    cases hresult : binarySearchBy (map.compareAt key) map.len with
    | ok index =>
        simp only [FixedMap.len] at hresult
        rw [hresult] at hspec
        obtain ⟨hindex, hcompare⟩ := hspec
        obtain ⟨entry, hentry⟩ := hrep.exists_entry hindex
        rw [compareAt_eq key hentry, cmp_eq_eq_iff] at hcompare
        obtain ⟨found, value⟩ := entry
        obtain rfl : found = key := hcompare
        exact .found hindex hentry
          ((hrep.lookup_iff found value).mpr ⟨index, hindex, hentry⟩)
    | error index =>
        simp only [FixedMap.len] at hresult
        rw [hresult] at hspec
        obtain ⟨hindex, hbelow, habove⟩ := hspec
        have hlower : ∀ slot entry, slot < index →
            map.data[slot]? = some entry → entry.key < key := by
          intro slot entry hslot hentry
          rw [← cmp_eq_lt_iff, ← compareAt_eq key hentry]
          exact hbelow slot hslot
        have hupper : ∀ slot entry, index ≤ slot → slot < map.count →
            map.data[slot]? = some entry → key < entry.key := by
          intro slot entry hslot hcount hentry
          apply (cmp_eq_gt_iff entry.key key).mp
          rw [← compareAt_eq key hentry]
          exact habove slot hslot hcount
        refine .missing hindex hlower hupper ?_
        -- An entry with the key would have to lie on neither side of the index.
        rw [Option.eq_none_iff_forall_ne_some]
        intro value hlookup
        obtain ⟨slot, hslot, hentry⟩ := (hrep.lookup_iff key value).mp hlookup
        rcases lt_or_ge slot index with hlt | hge
        · exact lt_irrefl key (hlower slot _ hlt hentry)
        · exact lt_irrefl key (hupper slot _ hge hslot hentry)

/-! ## Changing the represented map -/

theorem slot_eq_of_key_eq (hrep : Represents map model) {first second : ℕ}
    {left right : Entry K V} (hfirst : first < map.count)
    (hsecond : second < map.count) (hleft : map.data[first]? = some left)
    (hright : map.data[second]? = some right) (hkey : left.key = right.key) :
    first = second := by
  rcases lt_trichotomy first second with hlt | heq | hgt
  · exact absurd hkey (hrep.sorted hlt hsecond hleft hright).ne
  · exact heq
  · exact absurd hkey (hrep.sorted hgt hfirst hright hleft).ne'

/-- Replacing the value of a live entry. -/
theorem replace (hrep : Represents map model) {index : ℕ} {key : K}
    {previous : V} (value : V) (hindex : index < map.count)
    (hentry : map.data[index]? = some ⟨key, previous⟩) (hN : index < N) :
    Represents { map with data := map.data.set index ⟨key, value⟩ }
      (model.insert key value) where
  count_le := hrep.count_le
  card_eq := by
    have hmem : key ∈ model.keys := Finmap.mem_keys.mpr
      (Finmap.mem_of_lookup_eq_some
        ((hrep.lookup_iff key previous).mpr ⟨index, hindex, hentry⟩))
    rw [FiniteMap.keys_insert, Finset.insert_eq_of_mem hmem]
    exact hrep.card_eq
  sorted := by
    -- Every slot keeps its key.
    have hold : ∀ {slot : ℕ} {entry : Entry K V},
        (map.data.set index ⟨key, value⟩)[slot]? = some entry →
        ∃ old, map.data[slot]? = some old ∧ old.key = entry.key := by
      intro slot entry hslot
      rw [getElem?_set] at hslot
      split_ifs at hslot with hsame
      · subst hsame
        obtain rfl := Option.some.inj hslot
        exact ⟨_, hentry, rfl⟩
      · exact ⟨entry, hslot, rfl⟩
    intro first second lower upper hlt hsecond hlower hupper
    obtain ⟨oldLower, hlower, hlowerKey⟩ := hold hlower
    obtain ⟨oldUpper, hupper, hupperKey⟩ := hold hupper
    rw [← hlowerKey, ← hupperKey]
    exact hrep.sorted hlt hsecond hlower hupper
  vacant := by
    intro slot hcount hslot
    rw [getElem?_set, if_neg (by rintro rfl; exact absurd hcount hindex.not_ge)]
    exact hrep.vacant hcount hslot
  lookup_iff := by
    intro other found
    rw [FiniteMap.lookup_insert_iff]
    constructor
    · rintro (⟨rfl, rfl⟩ | ⟨hne, hlookup⟩)
      · exact ⟨index, hindex, by rw [getElem?_set, if_pos rfl]⟩
      · obtain ⟨slot, hslot, hfound⟩ := (hrep.lookup_iff other found).mp hlookup
        refine ⟨slot, hslot, ?_⟩
        rw [getElem?_set, if_neg ?_]
        · exact hfound
        · rintro rfl
          rw [hentry] at hfound
          exact hne (congrArg Entry.key (Option.some.inj hfound)).symm
    · rintro ⟨slot, hslot, hfound⟩
      rw [getElem?_set] at hfound
      split_ifs at hfound with hsame
      · obtain ⟨rfl, rfl⟩ := Entry.mk.inj (Option.some.inj hfound)
        exact .inl ⟨rfl, rfl⟩
      · refine .inr ⟨?_, (hrep.lookup_iff other found).mpr ⟨slot, hslot, hfound⟩⟩
        rintro rfl
        exact hsame
          (hrep.slot_eq_of_key_eq hslot hindex hfound hentry rfl)

/-- Every slot after a new entry has been placed at `index`. -/
structure Placed (map after : FixedMap N K V) (index : ℕ) (entry : Entry K V) :
    Prop where
  count_eq : after.count = map.count + 1
  before : ∀ slot, slot < index → after.data[slot]? = map.data[slot]?
  placed : after.data[index]? = some entry
  moved : ∀ slot, index ≤ slot → slot < map.count →
    after.data[slot + 1]? = map.data[slot]?
  rest : ∀ slot, map.count < slot → after.data[slot]? = map.data[slot]?

theorem place (hrep : Represents map model) {after : FixedMap N K V}
    {index : ℕ} {key : K} {value : V} (hindex : index ≤ map.count)
    (hroom : map.count < N)
    (hbelow : ∀ slot entry, slot < index → map.data[slot]? = some entry →
      entry.key < key)
    (habove : ∀ slot entry, index ≤ slot → slot < map.count →
      map.data[slot]? = some entry → key < entry.key)
    (hlookup : model.lookup key = none)
    (hplaced : Placed map after index ⟨key, value⟩) :
    Represents after (model.insert key value) := by
  have hmoved : ∀ {slot : ℕ}, index < slot → slot < after.count →
      after.data[slot]? = map.data[slot - 1]? := by
    intro slot hlt hcount
    rw [hplaced.count_eq] at hcount
    have := hplaced.moved (slot - 1) (by omega) (by omega)
    rwa [Nat.sub_add_cancel (by omega)] at this
  have hnew : key ∉ model := Finmap.lookup_eq_none.mp hlookup
  refine ⟨?_, ?_, ?_, ?_, ?_⟩
  · rw [hplaced.count_eq]
    exact hroom
  · rw [FiniteMap.keys_insert, Finset.card_insert_of_notMem, hrep.card_eq,
      hplaced.count_eq]
    rwa [Finmap.mem_keys]
  · intro first second lower upper hlt hsecond hlower hupper
    have hcount := hplaced.count_eq
    -- The new entry separates the entries below the key from those above it.
    rcases lt_trichotomy first index with hfirst | rfl | hfirst
    · rw [hplaced.before first hfirst] at hlower
      rcases lt_trichotomy second index with hcase | rfl | hcase
      · rw [hplaced.before second hcase] at hupper
        exact hrep.sorted hlt (by omega) hlower hupper
      · rw [hplaced.placed] at hupper
        obtain rfl := Option.some.inj hupper
        exact hbelow first lower hfirst hlower
      · rw [hmoved hcase hsecond] at hupper
        exact hrep.sorted (by omega) (by omega) hlower hupper
    · rw [hplaced.placed] at hlower
      obtain rfl := Option.some.inj hlower
      rw [hmoved hlt hsecond] at hupper
      exact habove (second - 1) upper (by omega) (by omega) hupper
    · rw [hmoved hfirst (by omega)] at hlower
      rw [hmoved (by omega) hsecond] at hupper
      exact hrep.sorted (by omega) (by omega) hlower hupper
  · intro slot hcount hslot
    rw [hplaced.count_eq] at hcount
    rw [hplaced.rest slot (by omega)]
    exact hrep.vacant (by omega) hslot
  · intro other found
    rw [FiniteMap.lookup_insert_iff]
    constructor
    · rintro (⟨rfl, rfl⟩ | ⟨-, hother⟩)
      · exact ⟨index, by rw [hplaced.count_eq]; omega, hplaced.placed⟩
      · obtain ⟨slot, hslot, hfound⟩ := (hrep.lookup_iff other found).mp hother
        rcases lt_or_ge slot index with hlt | hge
        · refine ⟨slot, by rw [hplaced.count_eq]; omega, ?_⟩
          rw [hplaced.before slot hlt]
          exact hfound
        · refine ⟨slot + 1, by rw [hplaced.count_eq]; omega, ?_⟩
          rw [hplaced.moved slot hge hslot]
          exact hfound
    · rintro ⟨slot, hslot, hfound⟩
      have hkept : ∀ old, old < map.count →
          map.data[old]? = some ⟨other, found⟩ →
          other = key ∧ found = value ∨
            other ≠ key ∧ model.lookup other = some found := by
        intro old hold hentry
        have hfound := (hrep.lookup_iff other found).mpr ⟨old, hold, hentry⟩
        refine .inr ⟨?_, hfound⟩
        rintro rfl
        exact hnew (Finmap.mem_of_lookup_eq_some hfound)
      rw [hplaced.count_eq] at hslot
      rcases lt_trichotomy slot index with hlt | rfl | hgt
      · rw [hplaced.before slot hlt] at hfound
        exact hkept slot (by omega) hfound
      · rw [hplaced.placed] at hfound
        obtain ⟨rfl, rfl⟩ := Entry.mk.inj (Option.some.inj hfound)
        exact .inl ⟨rfl, rfl⟩
      · rw [hmoved hgt (by rw [hplaced.count_eq]; omega)] at hfound
        exact hkept (slot - 1) (by omega) hfound

/-- Every slot after the entry at `index` has been taken out. -/
structure Taken (map after : FixedMap N K V) (index : ℕ) : Prop where
  count_eq : after.count + 1 = map.count
  before : ∀ slot, slot < index → after.data[slot]? = map.data[slot]?
  moved : ∀ slot, index ≤ slot → slot < after.count →
    after.data[slot]? = map.data[slot + 1]?
  last : after.data[after.count]? = some default
  rest : ∀ slot, map.count ≤ slot → after.data[slot]? = map.data[slot]?

theorem take (hrep : Represents map model) {after : FixedMap N K V}
    {index : ℕ} {key : K} {value : V} (hindex : index < map.count)
    (hentry : map.data[index]? = some ⟨key, value⟩)
    (htaken : Taken map after index) :
    Represents after (model.erase key) := by
  have hcount := htaken.count_eq
  have hcount_le := hrep.count_le
  have hmem : key ∈ model.keys := Finmap.mem_keys.mpr
    (Finmap.mem_of_lookup_eq_some
      ((hrep.lookup_iff key value).mpr ⟨index, hindex, hentry⟩))
  -- Where an entry of the new container stood before.
  have hold : ∀ {slot : ℕ}, slot < after.count →
      ∃ old, old < map.count ∧ old ≠ index ∧
        after.data[slot]? = map.data[old]? ∧
        (slot < index → old = slot) ∧ (index ≤ slot → old = slot + 1) := by
    intro slot hslot
    rcases lt_or_ge slot index with hlt | hge
    · exact ⟨slot, by omega, hlt.ne, htaken.before slot hlt, fun _ => rfl,
        by omega⟩
    · exact ⟨slot + 1, by omega, by omega, htaken.moved slot hge hslot,
        by omega, fun _ => rfl⟩
  refine ⟨by omega, ?_, ?_, ?_, ?_⟩
  · rw [Finmap.keys_erase, Finset.card_erase_of_mem hmem, hrep.card_eq]
    omega
  · intro first second lower upper hlt hsecond hlower hupper
    obtain ⟨oldFirst, -, -, hfirstEq, hfirstLt, hfirstGe⟩ :=
      hold (hlt.trans hsecond)
    obtain ⟨oldSecond, hsecondLt, -, hsecondEq, hsecondBelow, hsecondAbove⟩ :=
      hold hsecond
    rw [hfirstEq] at hlower
    rw [hsecondEq] at hupper
    exact hrep.sorted (by omega) hsecondLt hlower hupper
  · intro slot hslot hN
    rcases hslot.eq_or_lt with rfl | hgt
    · exact htaken.last
    · rw [htaken.rest slot (by omega)]
      exact hrep.vacant (by omega) hN
  · intro other found
    rw [FiniteMap.lookup_erase_iff]
    constructor
    · rintro ⟨hne, hlookup⟩
      obtain ⟨slot, hslot, hfound⟩ := (hrep.lookup_iff other found).mp hlookup
      rcases lt_trichotomy slot index with hlt | rfl | hgt
      · refine ⟨slot, by omega, ?_⟩
        rw [htaken.before slot hlt]
        exact hfound
      · rw [hentry] at hfound
        exact absurd (congrArg Entry.key (Option.some.inj hfound)).symm hne
      · refine ⟨slot - 1, by omega, ?_⟩
        rw [htaken.moved (slot - 1) (by omega) (by omega),
          Nat.sub_add_cancel (by omega)]
        exact hfound
    · rintro ⟨slot, hslot, hfound⟩
      obtain ⟨old, holdLt, holdNe, holdEq, -, -⟩ := hold hslot
      rw [holdEq] at hfound
      refine ⟨?_, (hrep.lookup_iff other found).mpr ⟨old, holdLt, hfound⟩⟩
      rintro rfl
      exact holdNe (hrep.slot_eq_of_key_eq holdLt hindex hfound hentry rfl)

/-- Updating the values of all live entries. -/
theorem entriesMut (hrep : Represents map model) (update : K → V → V) :
    Represents (map.entriesMut update) (model.mapValues update) := by
  have hlive : ∀ {slot : ℕ}, slot < map.count →
      (map.entriesMut update).data[slot]? = map.data[slot]?.map fun entry =>
        { entry with value := update entry.key entry.value } := by
    intro slot hslot
    simp [FixedMap.entriesMut, FixedMap.len, hslot]
  refine ⟨hrep.count_le, ?_, ?_, ?_, ?_⟩
  · rw [FiniteMap.keys_mapValues]
    exact hrep.card_eq
  · intro first second lower upper hlt hsecond hlower hupper
    rw [hlive (hlt.trans hsecond), Option.map_eq_some_iff] at hlower
    rw [hlive hsecond, Option.map_eq_some_iff] at hupper
    obtain ⟨oldLower, holdLower, rfl⟩ := hlower
    obtain ⟨oldUpper, holdUpper, rfl⟩ := hupper
    change oldLower.key < oldUpper.key
    exact hrep.sorted hlt hsecond holdLower holdUpper
  · intro slot hslot hN
    have hkept : ¬slot < map.count := hslot.not_gt
    simpa [FixedMap.entriesMut, FixedMap.len, hkept] using hrep.vacant hslot hN
  · intro key found
    rw [FiniteMap.lookup_mapValues_iff]
    constructor
    · rintro ⟨value, hlookup, rfl⟩
      obtain ⟨slot, hslot, hentry⟩ := (hrep.lookup_iff key value).mp hlookup
      exact ⟨slot, hslot, by rw [hlive hslot, hentry]; rfl⟩
    · rintro ⟨slot, hslot, hfound⟩
      rw [hlive hslot, Option.map_eq_some_iff] at hfound
      obtain ⟨⟨other, value⟩, hentry, hupdated⟩ := hfound
      obtain ⟨rfl, rfl⟩ := Entry.mk.inj hupdated
      exact ⟨value, (hrep.lookup_iff other value).mpr ⟨slot, hslot, hentry⟩, rfl⟩

/-! ## Listing the keys -/

omit [LinearOrder K] [Inhabited K] [Inhabited V] in
theorem getElem?_keys (map : FixedMap N K V) (slot : ℕ) :
    (map.entries.map Prod.fst)[slot]? =
      if slot < map.count then (map.data[slot]?).map Entry.key else none := by
  rw [FixedMap.entries, List.map_map, List.getElem?_map, List.getElem?_take,
    Vector.getElem?_toList, FixedMap.len]
  split <;> rfl

theorem mem_keys_iff (hrep : Represents map model) (key : K) :
    key ∈ map.entries.map Prod.fst ↔ ∃ value, model.lookup key = some value := by
  simp only [List.mem_iff_getElem?, getElem?_keys, hrep.lookup_iff]
  constructor
  · rintro ⟨slot, hslot⟩
    split at hslot
    · rename_i hlive
      obtain ⟨⟨found, value⟩, hentry, rfl⟩ := Option.map_eq_some_iff.mp hslot
      exact ⟨value, slot, hlive, hentry⟩
    · exact absurd hslot (by simp)
  · rintro ⟨value, slot, hlive, hentry⟩
    exact ⟨slot, by rw [if_pos hlive, hentry]; rfl⟩

theorem nodup_keys (hrep : Represents map model) :
    (map.entries.map Prod.fst).Nodup := by
  rw [List.nodup_iff_getElem?_ne_getElem?]
  intro first second hlt hsecond heq
  rw [List.length_map, FixedMap.entries, List.length_map, List.length_take] at hsecond
  have hlive : second < map.count := by
    rw [FixedMap.len] at hsecond
    omega
  rw [getElem?_keys, getElem?_keys, if_pos hlive, if_pos (hlt.trans hlive)] at heq
  obtain ⟨lower, hlower⟩ := hrep.exists_entry (hlt.trans hlive)
  obtain ⟨upper, hupper⟩ := hrep.exists_entry hlive
  rw [hlower, hupper, Option.map_some, Option.map_some, Option.some.injEq] at heq
  exact (hrep.sorted hlt hlive hlower hupper).ne heq

/-! ## Operations -/

section Operations

variable {toKey : Q → K}

/-- The container returns the given output and represents the given map. -/
def Returns {β : Type} (result : Except Panic (FixedMap N K V × β))
    (expected : FiniteMap K V × β) : Prop :=
  ∃ after, result = .ok (after, expected.2) ∧ Represents after expected.1

theorem get (hrep : Represents map model) (key : Q) :
    map.get toKey key = .ok (model.lookup (toKey key)) := by
  obtain ⟨result, hsearch, hfound⟩ := hrep.binarySearch (toKey key)
  rw [FixedMap.get, hsearch]
  cases hfound with
  | found hindex hentry hlookup =>
      rw [hlookup]
      simp [bind, Except.bind, readAt_eq_ok.mpr hentry]
  | missing hindex hbelow habove hlookup =>
      rw [hlookup]
      rfl

theorem getMut (hrep : Represents map model) (key : Q) (update : V → V) :
    Returns (map.getMut toKey key update)
      (model.updateValue (toKey key) update, model.lookup (toKey key)) := by
  obtain ⟨result, hsearch, hfound⟩ := hrep.binarySearch (toKey key)
  rw [FixedMap.getMut, hsearch]
  cases hfound with
  | found hindex hentry hlookup =>
      have hN := hindex.trans_le hrep.count_le
      simp only [FiniteMap.updateValue, hlookup, bind, Except.bind,
        readAt_eq_ok.mpr hentry, writeAt_eq_ok.mpr ⟨hN, rfl⟩]
      exact ⟨_, rfl, hrep.replace _ hindex hentry hN⟩
  | missing hindex hbelow habove hlookup =>
      refine ⟨map, by rw [hlookup]; rfl, ?_⟩
      simp only [FiniteMap.updateValue, hlookup]
      exact hrep

omit [LinearOrder K] [Inhabited K] [Inhabited V] in
/-- The loop of an insertion and the write after it place the new entry. -/
theorem placed_of_shiftUp {index : ℕ} (entry : Entry K V)
    (hindex : index ≤ map.count) (hroom : map.count < N) :
    ∃ shifted data, shiftUp index (map.len - index) map.data = .ok shifted ∧
      writeAt shifted index entry = .ok data ∧
      Placed map { data, count := map.count + 1 } index entry := by
  have hN := hindex.trans_lt hroom
  obtain ⟨shifted, hshifted, hslots⟩ :=
    shiftUp_spec index (map.count - index) map.data (by omega)
  refine ⟨shifted, shifted.set index entry, hshifted,
    writeAt_eq_ok.mpr ⟨hN, rfl⟩, rfl, ?_, ?_, ?_, ?_⟩
  · intro slot hslot
    rw [getElem?_set, if_neg hslot.ne, hslots, if_neg (by omega)]
  · rw [getElem?_set, if_pos rfl]
  · intro slot hge hcount
    rw [getElem?_set, if_neg (by omega), hslots, if_pos (by omega),
      Nat.add_sub_cancel]
  · intro slot hslot
    rw [getElem?_set, if_neg (by omega), hslots, if_neg (by omega)]

theorem insertWithOptions (hrep : Represents map model) (key : Q) (value : V)
    (new : Bool) (hsafe : model.Safe N toKey
      (.insertWithOptions key value new : Operation Q K V)) :
    Returns (map.insertWithOptions toKey key value new)
      (model.insertBounded N (toKey key) value new) := by
  obtain ⟨result, hsearch, hfound⟩ := hrep.binarySearch (toKey key)
  rw [FixedMap.insertWithOptions, hsearch]
  cases hfound with
  | found hindex hentry hlookup =>
      have hN := hindex.trans_le hrep.count_le
      simp only [FiniteMap.insertBounded, hlookup, bind, Except.bind]
      cases new with
      | true => exact ⟨map, rfl, hrep⟩
      | false =>
          refine ⟨_, ?_, hrep.replace value hindex hentry hN⟩
          simp only [readAt_eq_ok.mpr hentry, writeAt_eq_ok.mpr ⟨hN, rfl⟩]
          rfl
  | missing hindex hbelow habove hlookup =>
      simp only [FiniteMap.insertBounded, hlookup, bind, Except.bind,
        hrep.card_eq, FixedMap.len]
      by_cases hfull : N ≤ map.count
      · simp only [hfull, ↓reduceIte]
        exact ⟨map, rfl, hrep⟩
      · simp only [hfull, ↓reduceIte]
        have hroom : map.count < N := by omega
        obtain ⟨shifted, data, hshifted, hdata, hplaced⟩ :=
          placed_of_shiftUp ⟨toKey key, value⟩ hindex hroom
        have hcount : increment map.count = .ok (map.count + 1) := by
          have hmissing := Finmap.lookup_eq_none.mp hlookup
          have hfits := (hsafe.resolve_left hmissing).resolve_left (by
            rw [hrep.card_eq]
            exact hfull)
          rw [hrep.card_eq] at hfits
          rw [increment, if_pos hfits]
        refine ⟨_, ?_, hrep.place hindex hroom hbelow habove hlookup hplaced⟩
        simp only [FixedMap.len] at hshifted
        simp only [hshifted, hdata, hcount]

omit [LinearOrder K] in
/-- The loop of a removal and the write after it take out the entry. -/
theorem taken_of_shiftDown {index : ℕ} (hindex : index < map.count)
    (hroom : map.count < N) (cleared : Entry K V) :
    ∃ shifted data, shiftDown index (map.len - index)
        (map.data.set index cleared) = .ok shifted ∧
      writeAt shifted (map.len - 1) default = .ok data ∧
      Taken map { data, count := map.count - 1 } index := by
  obtain ⟨shifted, hshifted, hslots⟩ := shiftDown_spec index
    (map.count - index) (map.data.set index cleared) (by omega)
  have hlast : map.count - 1 < N := by omega
  refine ⟨shifted, shifted.set (map.count - 1) default, hshifted,
    writeAt_eq_ok.mpr ⟨hlast, rfl⟩, ?_, ?_, ?_, ?_, ?_⟩
  · exact Nat.sub_add_cancel (by omega)
  · intro slot hslot
    rw [getElem?_set, if_neg (by omega), hslots, if_neg (by omega), getElem?_set,
      if_neg hslot.ne]
  · intro slot hge hslot
    dsimp only at hslot
    rw [getElem?_set, if_neg (by omega), hslots, if_pos (by omega), getElem?_set,
      if_neg (by omega)]
  · rw [getElem?_set, if_pos rfl]
  · intro slot hslot
    rw [getElem?_set, if_neg (by omega), hslots, if_neg (by omega), getElem?_set,
      if_neg (by omega)]

theorem decrement_eq {count : ℕ} (hpos : 0 < count) :
    decrement count = .ok (count - 1) := by
  rw [decrement, if_pos (Nat.one_le_iff_ne_zero.mpr hpos.ne')]

theorem remove (hrep : Represents map model) (key : Q)
    (hsafe : model.Safe N toKey (.remove key : Operation Q K V)) :
    Returns (map.remove toKey key)
      (model.erase (toKey key), model.lookup (toKey key)) := by
  obtain ⟨result, hsearch, hfound⟩ := hrep.binarySearch (toKey key)
  rw [FixedMap.remove, hsearch]
  cases hfound with
  | @found index value hindex hentry hlookup =>
      have hpresent := Finmap.mem_of_lookup_eq_some hlookup
      have hroom : map.count < N := by
        rw [← hrep.card_eq]
        exact hsafe.resolve_left (not_not_intro hpresent)
      obtain ⟨shifted, data, hshifted, hdata, htaken⟩ :=
        taken_of_shiftDown hindex hroom ⟨toKey key, default⟩
      simp only [FixedMap.len] at hshifted hdata
      refine ⟨_, ?_, hrep.take hindex hentry htaken⟩
      simp only [bind, Except.bind, readAt_eq_ok.mpr hentry,
        writeAt_eq_ok.mpr ⟨hindex.trans hroom, rfl⟩, FixedMap.len, hshifted,
        decrement_eq (Nat.zero_lt_of_lt hindex), hdata, hlookup]
  | missing hindex hbelow habove hlookup =>
      have habsent : toKey key ∉ model := Finmap.lookup_eq_none.mp hlookup
      refine ⟨map, by rw [hlookup]; rfl, ?_⟩
      rw [show model.erase (toKey key) = model from Finmap.ext_lookup ?_]
      · exact hrep
      · intro other
        by_cases hsame : other = toKey key
        · rw [hsame, Finmap.lookup_erase, hlookup]
        · exact Finmap.lookup_erase_ne hsame

theorem clear (hrep : Represents map model) :
    ∃ after, map.clear = .ok after ∧ Represents after ∅ := by
  obtain ⟨data, hdata, hslots⟩ :=
    fill_spec default 0 map.count map.data (by simpa using hrep.count_le)
  refine ⟨{ data, count := 0 }, ?_, Nat.zero_le N, rfl, ?_, ?_, ?_⟩
  · rw [FixedMap.clear, FixedMap.len, hdata]
    rfl
  · intro first second lower upper _ hsecond
    exact absurd hsecond (Nat.not_lt_zero second)
  · intro slot _ hslot
    rw [hslots]
    by_cases hlive : slot < map.count
    · rw [if_pos (by omega)]
    · rw [if_neg (by omega)]
      exact hrep.vacant (by omega) hslot
  · intro key value
    simp

/-! ## Unsafe operations -/

/-- A new key does not fit. -/
theorem insertWithOptions_panics (hrep : Represents map model) (key : Q)
    (value : V) (new : Bool) (hrefused : ¬model.Safe N toKey
      (.insertWithOptions key value new : Operation Q K V)) :
    map.insertWithOptions toKey key value new = .error .arithmeticOverflow := by
  simp only [FiniteMap.Safe, not_or] at hrefused
  obtain ⟨habsent, hroom, hfits⟩ := hrefused
  rw [hrep.card_eq] at hroom hfits
  obtain ⟨result, hsearch, hfound⟩ := hrep.binarySearch (toKey key)
  rw [FixedMap.insertWithOptions, hsearch]
  cases hfound with
  | found hindex hentry hlookup =>
      exact absurd (Finmap.mem_of_lookup_eq_some hlookup) habsent
  | missing hindex hbelow habove hlookup =>
      obtain ⟨shifted, data, hshifted, hdata, -⟩ :=
        placed_of_shiftUp ⟨toKey key, value⟩ hindex (not_le.mp hroom)
      simp only [bind, Except.bind, FixedMap.len, hroom, ↓reduceIte]
      simp only [FixedMap.len] at hshifted
      simp only [hshifted, hdata, increment, if_neg hfits]

/-- The loop of a removal reads behind the last slot of a full container. -/
theorem remove_panics (hrep : Represents map model) (key : Q)
    (hrefused : ¬model.Safe N toKey (.remove key : Operation Q K V)) :
    map.remove toKey key = .error .indexOutOfBounds := by
  simp only [FiniteMap.Safe, not_or, not_not, not_lt] at hrefused
  obtain ⟨hpresent, hfull⟩ := hrefused
  rw [hrep.card_eq] at hfull
  obtain ⟨result, hsearch, hfound⟩ := hrep.binarySearch (toKey key)
  rw [FixedMap.remove, hsearch]
  cases hfound with
  | @found index value hindex hentry hlookup =>
      have hN := hindex.trans_le hrep.count_le
      have hcount := le_antisymm hrep.count_le hfull
      simp only [bind, Except.bind, readAt_eq_ok.mpr hentry,
        writeAt_eq_ok.mpr ⟨hN, rfl⟩, FixedMap.len]
      rw [shiftDown_panics index _ _ (by omega) (by omega)]
  | missing hindex hbelow habove hlookup =>
      exact absurd hpresent (Finmap.lookup_eq_none.mp hlookup)

end Operations

/-! ## Runs -/

section Run

variable {toKey : Q → K}

/-- An operation failed without stopping the program. -/
def Failed : Output V → Prop
  | .inserted (.error _) => True
  | .inserted (.ok _) | .value _ | .done => False

/-- A safe operation returns what the finite map returns and keeps the
relation to it. -/
theorem step (hrep : Represents map model) (operation : Operation Q K V)
    (hsafe : model.Safe N toKey operation) :
    Returns (map.step toKey operation) (model.step N toKey operation) := by
  cases operation with
  | get key =>
      refine ⟨map, ?_, hrep⟩
      simp [FixedMap.step, hrep.get key, bind, Except.bind, FiniteMap.step]
  | insert key value =>
      have hsafe' : model.Safe N toKey
          (.insertWithOptions key value false : Operation Q K V) :=
        hsafe.imp id fun hroom => .inr hroom.2
      obtain ⟨after, hafter, hrep'⟩ :=
        hrep.insertWithOptions key value false hsafe'
      refine ⟨after, ?_, hrep'⟩
      have hok : ∃ previous,
          (model.insertBounded N (toKey key) value false).2 = .ok previous := by
        simp only [FiniteMap.insertBounded]
        cases hlookup : model.lookup (toKey key) with
        | some previous => exact ⟨some previous, rfl⟩
        | none =>
            have hroom := hsafe.resolve_left (Finmap.lookup_eq_none.mp hlookup)
            refine ⟨none, ?_⟩
            simp only [if_neg hroom.1.not_ge]
      obtain ⟨previous, hprevious⟩ := hok
      rw [hprevious] at hafter
      simp [FixedMap.step, FixedMap.insert, hafter, bind, Except.bind,
        FiniteMap.step, hprevious]
  | insertWithOptions key value new =>
      obtain ⟨after, hafter, hrep'⟩ := hrep.insertWithOptions key value new hsafe
      refine ⟨after, ?_, hrep'⟩
      simp [FixedMap.step, hafter, bind, Except.bind, FiniteMap.step]
  | getMut key update =>
      obtain ⟨after, hafter, hrep'⟩ : Returns (map.getMut toKey key update) _ :=
        hrep.getMut key update
      refine ⟨after, ?_, hrep'⟩
      simp [FixedMap.step, hafter, bind, Except.bind, FiniteMap.step]
  | entriesMut update => exact ⟨_, rfl, hrep.entriesMut update⟩
  | remove key =>
      obtain ⟨after, hafter, hrep'⟩ := hrep.remove key hsafe
      refine ⟨after, ?_, hrep'⟩
      simp [FixedMap.step, hafter, bind, Except.bind, FiniteMap.step]
  | clear =>
      obtain ⟨after, hafter, hrep'⟩ := hrep.clear
      refine ⟨after, ?_, hrep'⟩
      simp [FixedMap.step, hafter, bind, Except.bind, FiniteMap.step]

/-- An operation that is not safe stops the program. -/
theorem step_panics (hrep : Represents map model) (operation : Operation Q K V)
    (hrefused : ¬model.Safe N toKey operation) :
    ∃ panic, map.step toKey operation = .error panic := by
  cases operation with
  | get key => exact absurd trivial hrefused
  | insert key value =>
      by_cases hfits : model.Safe N toKey
          (.insertWithOptions key value false : Operation Q K V)
      · simp only [FiniteMap.Safe, not_or, not_and] at hrefused hfits
        obtain ⟨habsent, hroom⟩ := hrefused
        have hfull : N ≤ model.keys.card := by
          rcases hfits.resolve_left habsent with hfull | hcount
          · exact hfull
          · exact not_lt.mp fun hlt => hroom hlt hcount
        obtain ⟨after, hafter, -⟩ :
            Returns (map.insertWithOptions toKey key value false) _ :=
          hrep.insertWithOptions key value false (.inr (.inl hfull))
        have hfailed : (model.insertBounded N (toKey key) value false).2 =
            .error .exceedMaxLengthLimit := by
          simp only [FiniteMap.insertBounded, Finmap.lookup_eq_none.mpr habsent,
            if_pos hfull]
        rw [hfailed] at hafter
        exact ⟨.expectFailed, by
          simp [FixedMap.step, FixedMap.insert, hafter, bind, Except.bind]⟩
      · have hpanic := hrep.insertWithOptions_panics key value false hfits
        exact ⟨_, by simp [FixedMap.step, FixedMap.insert, hpanic, bind,
          Except.bind]; rfl⟩
  | insertWithOptions key value new =>
      have hpanic := hrep.insertWithOptions_panics key value new hrefused
      exact ⟨_, by simp [FixedMap.step, hpanic, bind, Except.bind]; rfl⟩
  | getMut key update => exact absurd trivial hrefused
  | entriesMut update => exact absurd trivial hrefused
  | remove key =>
      have hpanic := hrep.remove_panics key hrefused
      exact ⟨_, by simp [FixedMap.step, hpanic, bind, Except.bind]; rfl⟩
  | clear => exact absurd trivial hrefused

end Run

end Represents

end Gmsol.Container
