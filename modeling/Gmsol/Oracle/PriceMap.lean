import Gmsol.Oracle.TokenConfig

/-!
# The price map of the oracle

The oracle keeps one small price for each token, in a container with room for
512 tokens.  A price map always represents a finite map, so that clearing it
leaves the zeroed container.
-/

namespace Gmsol.Oracle

open Gmsol.Fallible Gmsol.Container Gmsol.FixedArray

/-- The largest and the smallest price of a token. -/
structure PriceRange where
  min : Decimal
  max : Decimal
  deriving DecidableEq, Repr

structure SmallPrices where
  decimalMultiplier : ℕ
  flags : ℕ
  min : ℕ
  max : ℕ
  deriving DecidableEq, Repr

namespace SmallPrices

/-- The default value is the zeroed one. -/
instance : Inhabited SmallPrices := ⟨⟨0, 0, 0, 0⟩⟩

def syntheticFlags : ℕ := 255

def fromPrice (price : PriceRange) (isSynthetic : Bool) :
    Except CoreError SmallPrices := do
  ensure (price.min.decimalMultiplier = price.max.decimalMultiplier) .invalidArgument
  ensure (price.min.value ≠ 0) .invalidArgument
  ensure (price.min.value ≤ price.max.value) .invalidArgument
  return {
    decimalMultiplier := price.min.decimalMultiplier
    flags := if isSynthetic then syntheticFlags else 0
    min := price.min.value
    max := price.max.value }

def isSynthetic (prices : SmallPrices) : Bool := prices.flags = syntheticFlags

/-- The prices are positive and in order. -/
def Valid (prices : SmallPrices) : Prop := 0 < prices.min ∧ prices.min ≤ prices.max

theorem fromPrice_eq_ok {price : PriceRange} {isSynthetic : Bool}
    {prices : SmallPrices} (hprices : fromPrice price isSynthetic = .ok prices) :
    prices.Valid ∧ prices.min = price.min.value ∧ prices.max = price.max.value ∧
      prices.decimalMultiplier = price.min.decimalMultiplier ∧
      prices.decimalMultiplier = price.max.decimalMultiplier ∧
      prices.isSynthetic = isSynthetic := by
  simp only [fromPrice, bind_eq_ok, ensure_eq_ok, pure_eq_ok] at hprices
  obtain ⟨_, hmultiplier, _, hpositive, _, hordered, rfl⟩ := hprices
  refine ⟨⟨Nat.pos_of_ne_zero hpositive, hordered⟩, rfl, rfl, rfl, hmultiplier, ?_⟩
  cases isSynthetic <;> rfl

end SmallPrices

/-! ## Containers that represent a finite map -/

section Represented

variable {N : ℕ} {Q K V : Type} [LinearOrder K] [Inhabited K] [Inhabited V]
  {toKey : Q → K} {map after : FixedMap N K V} {model other : FiniteMap K V}

/-- A container represents one finite map only. -/
theorem represents_unique (hmodel : Represents map model)
    (hother : Represents map other) : model = other := by
  apply Finmap.ext_lookup
  intro key
  apply Option.ext
  intro value
  rw [hmodel.lookup_iff, hother.lookup_iff]

/-- The zeroed container is the only one that represents the empty map. -/
theorem eq_zeroed_of_represents_empty (hempty : Represents map ∅) :
    map = FixedMap.zeroed := by
  obtain ⟨data, count⟩ := map
  obtain rfl : 0 = count := by simpa using hempty.card_eq
  rw [FixedMap.zeroed]
  congr 1
  apply Vector.ext
  intro slot hslot
  have hvacant := hempty.vacant (Nat.zero_le slot) hslot
  rw [Vector.getElem?_eq_getElem hslot, Option.some.injEq] at hvacant
  rw [hvacant, Vector.getElem_replicate]

/-- An insertion that returns was safe. -/
theorem safe_of_insert (hrep : Represents map model) {key : Q} {value : V}
    {previous : Option V} (hinsert : map.insert toKey key value = .ok (after, previous)) :
    model.Safe N toKey (.insert key value : Operation Q K V) := by
  by_contra hrefused
  obtain ⟨panic, hpanic⟩ := hrep.step_panics _ hrefused
  simp [FixedMap.step, hinsert, bind, Except.bind] at hpanic

omit [Inhabited K] [Inhabited V] in
theorem insertBounded_of_safe {key : Q} {value : V}
    (hsafe : model.Safe N toKey (.insert key value : Operation Q K V)) :
    model.insertBounded N (toKey key) value false =
      (model.insert (toKey key) value, .ok (model.lookup (toKey key))) := by
  rw [FiniteMap.insertBounded]
  cases hlookup : model.lookup (toKey key) with
  | some previous => rfl
  | none =>
      have hroom := hsafe.resolve_left (Finmap.lookup_eq_none.mp hlookup)
      simp only [if_neg hroom.1.not_ge]

/-- A safe insertion inserts into the finite map. -/
theorem insert_of_safe (hrep : Represents map model) {key : Q} {value : V}
    (hsafe : model.Safe N toKey (.insert key value : Operation Q K V)) :
    ∃ after, map.insert toKey key value = .ok (after, model.lookup (toKey key)) ∧
      Represents after (model.insert (toKey key) value) := by
  obtain ⟨after, hstep, hafter⟩ := hrep.step _ hsafe
  simp only [FiniteMap.step, insertBounded_of_safe hsafe] at hstep hafter
  refine ⟨after, ?_, hafter⟩
  simp only [FixedMap.step, bind_eq_ok, Except.ok.injEq, Prod.mk.injEq,
    Output.inserted.injEq] at hstep
  obtain ⟨⟨found, previous⟩, hinsert, rfl, rfl⟩ := hstep
  exact hinsert

end Represented

/-! ## The price map -/

/-- The container and the fact that it represents a finite map. -/
structure PriceMap where
  map : FixedMap 512 Pubkey SmallPrices
  represented : ∃ model, Represents map model

namespace PriceMap

def maxTokens : ℕ := 512

def zeroed : PriceMap := ⟨FixedMap.zeroed, ∅, represents_zeroed⟩

def isEmpty (prices : PriceMap) : Bool := prices.map.isEmpty

def get (prices : PriceMap) (token : Pubkey) : Except Panic (Option SmallPrices) :=
  prices.map.get id token

theorem represented_of_insert {prices : PriceMap} {token : Pubkey}
    {value : SmallPrices} {done : FixedMap 512 Pubkey SmallPrices × Option SmallPrices}
    (hinsert : prices.map.insert id token value = .ok done) :
    ∃ model, Represents done.1 model := by
  obtain ⟨model, hrep⟩ := prices.represented
  obtain ⟨after, hafter, hrepAfter⟩ :=
    insert_of_safe hrep (safe_of_insert hrep hinsert)
  obtain rfl := Except.ok.inj (hinsert.symm.trans hafter)
  exact ⟨_, hrepAfter⟩

def insert (prices : PriceMap) (token : Pubkey) (value : SmallPrices) :
    Except Panic (PriceMap × Option SmallPrices) :=
  match hinsert : prices.map.insert id token value with
  | .ok done => .ok (⟨done.1, represented_of_insert hinsert⟩, done.2)
  | .error panic => .error panic

theorem represented_of_clear {prices : PriceMap}
    {after : FixedMap 512 Pubkey SmallPrices}
    (hclear : prices.map.clear = .ok after) : ∃ model, Represents after model := by
  obtain ⟨model, hrep⟩ := prices.represented
  obtain ⟨cleared, hcleared, hrepCleared⟩ := hrep.clear
  obtain rfl := Except.ok.inj (hclear.symm.trans hcleared)
  exact ⟨_, hrepCleared⟩

def clear (prices : PriceMap) : Except Panic PriceMap :=
  match hclear : prices.map.clear with
  | .ok map => .ok ⟨map, represented_of_clear hclear⟩
  | .error panic => .error panic

/-! ## What the price map holds -/

/-- The finite map that the container represents. -/
noncomputable def contents (prices : PriceMap) : FiniteMap Pubkey SmallPrices :=
  prices.represented.choose

theorem represents (prices : PriceMap) :
    Represents prices.map prices.contents :=
  prices.represented.choose_spec

theorem get_eq (prices : PriceMap) (token : Pubkey) :
    prices.get token = .ok (prices.contents.lookup token) :=
  prices.represents.get token

theorem contents_zeroed : zeroed.contents = ∅ :=
  represents_unique zeroed.represents represents_zeroed

/-- The insertion of a price, as long as there is room. -/
theorem insert_eq (prices : PriceMap) (token : Pubkey) (value : SmallPrices)
    (hroom : token ∈ prices.contents ∨ prices.contents.keys.card < maxTokens) :
    ∃ after, prices.insert token value = .ok (after, prices.contents.lookup token) ∧
      after.contents = prices.contents.insert token value := by
  have hsafe : prices.contents.Safe 512 id
      (.insert token value : Operation Pubkey Pubkey SmallPrices) := by
    refine hroom.imp id fun hcard => ⟨hcard, ?_⟩
    have hlimit : 512 + 1 < countRange := by decide
    omega
  obtain ⟨after, hinsert, hrep⟩ := insert_of_safe prices.represents hsafe
  refine ⟨⟨after, _, hrep⟩, ?_, represents_unique (represents ⟨after, _, hrep⟩) hrep⟩
  rw [insert]
  split
  · rename_i done hdone
    obtain rfl := Except.ok.inj (hinsert.symm.trans hdone)
    rfl
  · rename_i panic hpanic
    exact absurd (hinsert.symm.trans hpanic) (by simp)

theorem contents_of_insert {prices after : PriceMap} {token : Pubkey}
    {value : SmallPrices} {previous : Option SmallPrices}
    (hinsert : prices.insert token value = .ok (after, previous)) :
    after.contents = prices.contents.insert token value := by
  rw [insert] at hinsert
  split at hinsert
  · rename_i done hdone
    obtain ⟨inserted, hinserted, hrep⟩ :=
      insert_of_safe prices.represents (safe_of_insert prices.represents hdone)
    obtain rfl := Except.ok.inj (hdone.symm.trans hinserted)
    obtain ⟨rfl, _⟩ := Prod.mk.inj (Except.ok.inj hinsert)
    exact represents_unique (represents ⟨inserted, _, hrep⟩) hrep
  · cases hinsert

/-- Clearing a price map leaves the zeroed one. -/
theorem clear_eq (prices : PriceMap) : prices.clear = .ok zeroed := by
  obtain ⟨after, hclear, hrep⟩ := prices.represents.clear
  obtain rfl := eq_zeroed_of_represents_empty hrep
  rw [clear]
  split
  · rename_i map hmap
    obtain rfl := Except.ok.inj (hclear.symm.trans hmap)
    rfl
  · rename_i panic hpanic
    exact absurd (hclear.symm.trans hpanic) (by simp)

end PriceMap

end Gmsol.Oracle
