import Gmsol.Model.Price

/-!
# Pools and price impact

A pool holds a long and a short amount.  In a pure market, whose two tokens
are one and the same, a pool keeps a single amount and shows half of it on each
side.  Which pools are pure is fixed when the market is initialised, so the
flag is an index of the type and a pool with the wrong flag cannot be built.
-/

namespace Gmsol.Model

open Gmsol.Fallible

structure Pool (isPure : Bool) where
  longTokenAmount : ℕ
  shortTokenAmount : ℕ
  deriving DecidableEq, Repr

/-- Delta amounts for either side of a pool. -/
structure Delta where
  long : Option ℤ
  short : Option ℤ

namespace Delta

def newOneSide (isLong : Bool) (amount : ℤ) : Delta :=
  if isLong then ⟨some amount, none⟩ else ⟨none, some amount⟩

def newBothSides (isLongFirst : Bool) (first second : ℤ) : Delta :=
  if isLongFirst then ⟨some first, some second⟩ else ⟨some second, some first⟩

end Delta

namespace Pool

variable {isPure : Bool}

/-- The pool of an empty market. -/
def empty : Pool isPure := ⟨0, 0⟩

def longAmount (pool : Pool isPure) : ℕ :=
  if isPure then pool.longTokenAmount ⌈/⌉ 2 else pool.longTokenAmount

def shortAmount (pool : Pool isPure) : ℕ :=
  if isPure then pool.longTokenAmount / 2 else pool.shortTokenAmount

def amount (pool : Pool isPure) (isLong : Bool) : ℕ :=
  if isLong then pool.longAmount else pool.shortAmount

section Updates

variable [MarketNum]

/-- `u128::checked_add_signed`. -/
def checkedAddSigned (value : ℕ) (delta : ℤ) : Option ℕ :=
  if 0 ≤ value + delta then narrow (value + delta).toNat else none

def applyDeltaToLongAmount (pool : Pool isPure) (delta : ℤ) :
    Result (Pool isPure) := do
  let amount ← okOr (checkedAddSigned pool.longTokenAmount delta)
    (.computation "apply delta to long amount")
  return { pool with longTokenAmount := amount }

def applyDeltaToShortAmount (pool : Pool isPure) (delta : ℤ) :
    Result (Pool isPure) :=
  if isPure then do
    let amount ← okOr (checkedAddSigned pool.longTokenAmount delta)
      (.computation "apply delta to short amount")
    return { pool with longTokenAmount := amount }
  else do
    let amount ← okOr (checkedAddSigned pool.shortTokenAmount delta)
      (.computation "apply delta to short amount")
    return { pool with shortTokenAmount := amount }

def applyDeltaAmount (pool : Pool isPure) (isLong : Bool) (delta : ℤ) :
    Result (Pool isPure) :=
  if isLong then pool.applyDeltaToLongAmount delta
  else pool.applyDeltaToShortAmount delta

def checkedApplyDelta (pool : Pool isPure) (delta : Delta) :
    Result (Pool isPure) := do
  let afterLong ← (match delta.long with
    | some amount => pool.applyDeltaToLongAmount amount
    | none => .ok pool)
  match delta.short with
    | some amount => afterLong.applyDeltaToShortAmount amount
    | none => .ok afterLong

end Updates

end Pool

structure PriceImpactParams where
  exponent : ℕ
  positiveFactor : ℕ
  negativeFactor : ℕ
  deriving DecidableEq, Repr

/-- The positive factor never exceeds the negative one. -/
def PriceImpactParams.adjustedFactors (params : PriceImpactParams) : ℕ × ℕ :=
  if params.positiveFactor > params.negativeFactor then
    (params.negativeFactor, params.negativeFactor)
  else (params.positiveFactor, params.negativeFactor)

/-- Usd values of the two sides of a pool. -/
structure PoolValue where
  longTokenUsdValue : ℕ
  shortTokenUsdValue : ℕ
  deriving DecidableEq, Repr

def PoolValue.diffValue (value : PoolValue) : ℕ :=
  diff value.longTokenUsdValue value.shortTokenUsdValue

/-- The usd values of a pool before and after a change. -/
structure PoolDelta where
  current : PoolValue
  next : PoolValue
  deltaLong : ℤ
  deltaShort : ℤ
  deriving DecidableEq, Repr

namespace PoolDelta

variable [MarketNum]

def tryNew (longAmount shortAmount : ℕ) (deltaLongTokenUsdValue
    deltaShortTokenUsdValue : ℤ) (longTokenPrice shortTokenPrice : ℕ) :
    Result PoolDelta := do
  let currentLong ← okOr (checkedMul longAmount longTokenPrice) .overflow
  let currentShort ← okOr (checkedMul shortAmount shortTokenPrice) .overflow
  let nextLong ← okOr (checkedAddWithSigned currentLong deltaLongTokenUsdValue)
    (.computation "next delta long usd value")
  let nextShort ← okOr (checkedAddWithSigned currentShort deltaShortTokenUsdValue)
    (.computation "next delta short usd value")
  return {
    current := ⟨currentLong, currentShort⟩
    next := ⟨nextLong, nextShort⟩
    deltaLong := deltaLongTokenUsdValue
    deltaShort := deltaShortTokenUsdValue }

def tryFromDeltaAmounts (longAmount shortAmount : ℕ) (longDeltaAmount
    shortDeltaAmount : ℤ) (longTokenPrice shortTokenPrice : ℕ) :
    Result PoolDelta := do
  let deltaLong ← okOr (checkedMulWithSigned longTokenPrice longDeltaAmount)
    (.computation "delta long token usd value")
  let deltaShort ← okOr (checkedMulWithSigned shortTokenPrice shortDeltaAmount)
    (.computation "delta short token usd value")
  tryNew longAmount shortAmount deltaLong deltaShort longTokenPrice shortTokenPrice

/-- Whether the larger side stays the larger side; equality counts as short. -/
def isSameSideRebalance (delta : PoolDelta) : Bool :=
  decide (delta.current.longTokenUsdValue ≤ delta.current.shortTokenUsdValue) ==
    decide (delta.next.longTokenUsdValue ≤ delta.next.shortTokenUsdValue)

def priceImpactForSameSideRebalance (delta : PoolDelta)
    (params : PriceImpactParams) : Result ℤ := do
  let initialDiff := delta.current.diffValue
  let nextDiff := delta.next.diffValue
  let hasPositiveImpact := decide (nextDiff < initialDiff)
  let factors := params.adjustedFactors
  let factor := if hasPositiveImpact then factors.1 else factors.2
  let initial ← applyFactors initialDiff factor params.exponent
  let next ← applyFactors nextDiff factor params.exponent
  let impact ← toSigned (diff initial next)
  if hasPositiveImpact then .ok impact
  else
    okOr (signedNeg impact) (.computation "same side rebalance: negating delta")

def priceImpactForCrossOverRebalance (delta : PoolDelta)
    (params : PriceImpactParams) : Result ℤ := do
  let factors := params.adjustedFactors
  let positiveImpact ←
    applyFactors delta.current.diffValue factors.1 params.exponent
  let negativeImpact ←
    applyFactors delta.next.diffValue factors.2 params.exponent
  let impact ← toSigned (diff positiveImpact negativeImpact)
  if positiveImpact > negativeImpact then .ok impact
  else
    okOr (signedNeg impact) (.computation "cross over rebalance: negating delta")

def priceImpact (delta : PoolDelta) (params : PriceImpactParams) : Result ℤ :=
  if delta.isSameSideRebalance then delta.priceImpactForSameSideRebalance params
  else delta.priceImpactForCrossOverRebalance params

end PoolDelta

end Gmsol.Model
