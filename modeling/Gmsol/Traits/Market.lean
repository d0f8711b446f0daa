import Gmsol.Action.Swap

/-!
# Markets by their interface

A market is whatever answers the questions of the market interface, and each
answer may be an error.  What the interface derives from the answers is written
once for all markets; a view of a market that answers some of the questions
itself is a market again.
-/

namespace Gmsol.Traits

open Gmsol.Fallible Gmsol.Model

/-- The program goes on, with a value or with an error. -/
def Returns {α : Type} (result : Result α) : Prop :=
  FailsOnly (fun error => ∀ message, error ≠ .panic message) result

/-- A balance with a long and a short amount to which deltas can be applied. -/
class PoolOps (P : Type) where
  longAmount : P → Result ℕ
  shortAmount : P → Result ℕ
  checkedApplyDelta : P → Delta → Result P
  returns_longAmount : ∀ pool, Returns (longAmount pool)
  returns_shortAmount : ∀ pool, Returns (shortAmount pool)
  returns_checkedApplyDelta : ∀ pool delta, Returns (checkedApplyDelta pool delta)

namespace PoolOps

variable {P : Type} [PoolOps P]

def amount (pool : P) (isLong : Bool) : Result ℕ :=
  if isLong then longAmount pool else shortAmount pool

def usdValue [MarketNum] (pool : P) (isLong : Bool) (price : ℕ) : Result ℕ := do
  let amount ← amount pool isLong
  okOr (checkedMul amount price) .overflow

end PoolOps

/-- The answers of a market. -/
structure BaseMarket (P : Type) where
  liquidityPool : Result P
  claimableFeePool : Result P
  swapImpactPool : Result P
  openInterestPool : Bool → Result P
  openInterestInTokensPool : Bool → Result P
  collateralSumPool : Bool → Result P
  usdToAmountDivisor : ℕ
  maxPoolAmount : Bool → Result ℕ
  pnlFactorConfig : PnlFactorKind → Bool → Result ℕ
  reserveFactor : Result ℕ
  openInterestReserveFactor : Result ℕ
  maxOpenInterest : Bool → Result ℕ
  ignoreOpenInterestForUsageFactor : Result Bool

/-- The market answers every question, if only with an error. -/
structure BaseMarket.Answers {P : Type} (market : BaseMarket P) : Prop where
  liquidityPool : Returns market.liquidityPool
  claimableFeePool : Returns market.claimableFeePool
  swapImpactPool : Returns market.swapImpactPool
  openInterestPool : ∀ isLong, Returns (market.openInterestPool isLong)
  openInterestInTokensPool : ∀ isLong,
    Returns (market.openInterestInTokensPool isLong)
  maxPoolAmount : ∀ isLong, Returns (market.maxPoolAmount isLong)
  pnlFactorConfig : ∀ kind isLong, Returns (market.pnlFactorConfig kind isLong)
  reserveFactor : Returns market.reserveFactor

namespace BaseMarket

variable [MarketNum] {P : Type} [PoolOps P]

def poolValueWithoutPnlForOneSide (market : BaseMarket P) (prices : Prices)
    (isLong maximize : Bool) : Result ℕ := do
  let pool ← market.liquidityPool
  PoolOps.usdValue pool isLong
    ((prices.collateralTokenPrice isLong).pickPrice maximize)

/-- One side of two merged pools: both amounts of the pool of the side. -/
def mergedAmount (long short : P) (isLong : Bool) : Result ℕ := do
  let pool := if isLong then long else short
  let longAmount ← PoolOps.longAmount pool
  let shortAmount ← PoolOps.shortAmount pool
  okOr (checkedAdd longAmount shortAmount) .overflow

def openInterestAmount (market : BaseMarket P) (isLong : Bool) : Result ℕ := do
  let long ← market.openInterestPool true
  let short ← market.openInterestPool false
  mergedAmount long short isLong

def openInterestInTokensAmount (market : BaseMarket P) (isLong : Bool) :
    Result ℕ := do
  let long ← market.openInterestInTokensPool true
  let short ← market.openInterestInTokensPool false
  mergedAmount long short isLong

def pnl (market : BaseMarket P) (indexTokenPrice : Price)
    (isLong maximize : Bool) : Result ℤ := do
  let openInterest ← market.openInterestAmount isLong
  let openInterestInTokens ← market.openInterestInTokensAmount isLong
  if openInterest = 0 ∧ openInterestInTokens = 0 then return 0
  else
    let price := indexTokenPrice.pickPriceForPnl isLong maximize
    let value ← okOr (checkedMul openInterestInTokens price)
      (.computation "calculating open interest value")
    if isLong then
      let signedValue ← toSigned value
      let signedInterest ← toSigned openInterest
      okOr (signedSub signedValue signedInterest)
        (.computation "calculating pnl for long")
    else
      let signedInterest ← toSigned openInterest
      let signedValue ← toSigned value
      okOr (signedSub signedInterest signedValue)
        (.computation "calculating pnl for short")

def pnlFactorWithPoolValue (market : BaseMarket P) (prices : Prices)
    (isLong maximize : Bool) : Result (ℤ × ℕ) := do
  let poolValue ← market.poolValueWithoutPnlForOneSide prices isLong !maximize
  let pnl ← market.pnl prices.indexTokenPrice isLong maximize
  let factor ← okOr (divToFactorSigned pnl poolValue)
    (.computation "calculating pnl factor")
  return (factor, poolValue)

/-- Whether the pnl factor exceeds the configured one of the given kind. -/
def pnlFactorExceeded (market : BaseMarket P) (prices : Prices)
    (kind : PnlFactorKind) (isLong : Bool) : Result Bool := do
  let factorAndValue ← market.pnlFactorWithPoolValue prices isLong true
  let maxPnlFactor ← market.pnlFactorConfig kind isLong
  return decide (0 < factorAndValue.1 ∧ factorAndValue.1.natAbs > maxPnlFactor)

def validatePnlFactor (market : BaseMarket P) (prices : Prices)
    (kind : PnlFactorKind) (isLong : Bool) : Result Unit := do
  let exceeded ← market.pnlFactorExceeded prices kind isLong
  ensure (exceeded = false) (.pnlFactorExceeded kind (getMsgBySide isLong))

def validateMaxPnl (market : BaseMarket P) (prices : Prices)
    (longKind shortKind : PnlFactorKind) : Result Unit := do
  market.validatePnlFactor prices longKind true
  market.validatePnlFactor prices shortKind false

def validatePoolAmount (market : BaseMarket P) (isLongToken : Bool) :
    Result Unit := do
  let pool ← market.liquidityPool
  let amount ← PoolOps.amount pool isLongToken
  let maxPoolAmount ← market.maxPoolAmount isLongToken
  ensure (amount ≤ maxPoolAmount) (.maxPoolAmountExceeded (getMsgBySide isLongToken))

/-- Longs reserve the value of their tokens, shorts their open interest. -/
def reservedValue (market : BaseMarket P) (indexTokenPrice : Price)
    (isLong : Bool) : Result ℕ :=
  if isLong then do
    let tokens ← market.openInterestInTokensAmount true
    okOr (checkedMul tokens (indexTokenPrice.pickPrice true)) .overflow
  else market.openInterestAmount false

def validateReserve (market : BaseMarket P) (prices : Prices) (isLong : Bool) :
    Result Unit := do
  let poolValue ← market.poolValueWithoutPnlForOneSide prices isLong false
  let reserveFactor ← market.reserveFactor
  let maxReservedValue ← okOr (applyFactor poolValue reserveFactor)
    (.computation "calculating max reserved value")
  let reservedValue ← market.reservedValue prices.indexTokenPrice isLong
  ensure (reservedValue ≤ maxReservedValue)
    (.insufficientReserve reservedValue maxReservedValue)

end BaseMarket

/-- The answers of a market for swaps. -/
structure SwapMarket (P : Type) extends BaseMarket P where
  swapImpactParams : Result PriceImpactParams
  swapFeeParams : Result FeeParams

structure SwapMarket.Answers {P : Type} (market : SwapMarket P) : Prop extends
    market.toBaseMarket.Answers where
  swapImpactParams : Returns market.swapImpactParams
  swapFeeParams : Returns market.swapFeeParams

namespace SwapMarket

variable [MarketNum] {P : Type} [PoolOps P]

/-- The impact amount of one token, and the value cut off by the cap. -/
def swapImpactAmountWithCap (market : SwapMarket P) (isLongToken : Bool)
    (price : Price) (usdImpact : ℤ) : Result (ℤ × ℕ) :=
  if price.hasZero then .error .dividedByZero
  else if 0 < usdImpact then do
    let maxPrice ← toSigned (price.pickPrice true)
    let amount ← okOr (signedDiv usdImpact maxPrice)
      (.computation "calculating swap impact amount")
    let pool ← market.swapImpactPool
    let unsignedAmount ← PoolOps.amount pool isLongToken
    let maxAmount ← toSigned unsignedAmount
    if amount > maxAmount then
      let cappedDiffValue ← okOr (do
          let diffAmount ← signedSub amount maxAmount
          checkedMul diffAmount.natAbs (price.pickPrice true))
        (.computation "calculating capped diff value")
      return (maxAmount, cappedDiffValue)
    else return (amount, 0)
  else if usdImpact < 0 then do
    let minPrice ← toSigned (price.pickPrice false)
    let amount ← okOr (do
        let shifted ← signedSub usdImpact minPrice
        let numerator ← signedAdd shifted 1
        signedDiv numerator minPrice)
      (.computation "calculating round up swap impact amount")
    return (amount, 0)
  else .ok (0, 0)

/-- The usd values of the liquidity pool before and after the deltas. -/
def poolDeltaWithValues (pool : P) (deltaLong deltaShort : ℤ)
    (longTokenPrice shortTokenPrice : ℕ) : Result PoolDelta := do
  let longAmount ← PoolOps.longAmount pool
  let currentLong ← okOr (checkedMul longAmount longTokenPrice) .overflow
  let shortAmount ← PoolOps.shortAmount pool
  let currentShort ← okOr (checkedMul shortAmount shortTokenPrice) .overflow
  let nextLong ← okOr (checkedAddWithSigned currentLong deltaLong)
    (.computation "next delta long usd value")
  let nextShort ← okOr (checkedAddWithSigned currentShort deltaShort)
    (.computation "next delta short usd value")
  return ⟨⟨currentLong, currentShort⟩, ⟨nextLong, nextShort⟩, deltaLong, deltaShort⟩

end SwapMarket

/-- A market whose pools can be written.  A pool that can be read can be written,
and a written pool is what is read next, with all else as before. -/
structure SwapMarketMut (M P : Type) where
  read : M → SwapMarket P
  liquidityPoolMut : M → Result (P → M)
  swapImpactPoolMut : M → Result (P → M)
  claimableFeePoolMut : M → Result (P → M)
  answers : ∀ market, (read market).Answers
  liquidityPoolMut_ok : ∀ market pool, (read market).liquidityPool = .ok pool →
    ∃ write, liquidityPoolMut market = .ok write
  swapImpactPoolMut_ok : ∀ market pool, (read market).swapImpactPool = .ok pool →
    ∃ write, swapImpactPoolMut market = .ok write
  claimableFeePoolMut_ok : ∀ market pool,
    (read market).claimableFeePool = .ok pool →
    ∃ write, claimableFeePoolMut market = .ok write
  read_liquidityPool : ∀ market write pool, liquidityPoolMut market = .ok write →
    read (write pool) = { read market with liquidityPool := .ok pool }
  read_swapImpactPool : ∀ market write pool, swapImpactPoolMut market = .ok write →
    read (write pool) = { read market with swapImpactPool := .ok pool }
  read_claimableFeePool : ∀ market write pool,
    claimableFeePoolMut market = .ok write →
    read (write pool) = { read market with claimableFeePool := .ok pool }

end Gmsol.Traits
