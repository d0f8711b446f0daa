import Gmsol.Model.Market

/-!
# Liquidity and perpetual markets

Borrowing factors, the position impact pool, the value of a market for its
liquidity providers and the parts of the perpetual market that only read the
market.
-/

namespace Gmsol.Model

open Gmsol.Fallible

namespace Market

variable [MarketNum] {isPure : Bool}

/-! ## Borrowing -/

def cumulativeBorrowingFactor (market : Market isPure) (isLong : Bool) : ℕ :=
  market.borrowingFactor.amount isLong

def totalBorrowingAmount (market : Market isPure) (isLong : Bool) : ℕ :=
  market.totalBorrowing.amount isLong

/-- The borrowing factor of the kink model; `none` when it is not in use. -/
def kinkModelBorrowingFactorPerSecond (market : Market isPure) (isLong : Bool)
    (reservedValue poolValue : ℕ) : Result (Option ℕ) := do
  let params := market.config.borrowingFeeKinkModelParams isLong
  if params.optimalUsageFactor = 0 then return none
  else
    let usageFactor ← market.usageFactor isLong reservedValue poolValue
    let base ← okOr (applyFactor usageFactor params.baseBorrowingFactor)
      (.computation
        "borrowing fee kink model: calculating borrowing factor per second")
    if usageFactor > params.optimalUsageFactor ∧
        unit > params.optimalUsageFactor then
      let diff ← okOr (checkedSub usageFactor params.optimalUsageFactor)
        (.computation "borrowing fee kink model: calculating diff")
      let additional ← (
        if params.aboveOptimalUsageBorrowingFactor > params.baseBorrowingFactor
        then
          okOr (checkedSub params.aboveOptimalUsageBorrowingFactor
              params.baseBorrowingFactor)
            (.computation
              "borrowing fee kink model: calculating additional factor")
        else .ok 0)
      let divisor ← okOr (checkedSub unit params.optimalUsageFactor)
        (.computation "borrowing fee kink model: calculating divisor")
      let factor ← okOr (do
          let increase ← checkedMulDiv additional diff divisor
          checkedAdd base increase)
        (.computation
          "borrowing fee kink model: increasing borrowing factor per second")
      return some factor
    else return some base

/-- Whether the side is the smaller one and exempt from borrowing fees. -/
def skipsBorrowingFee (market : Market isPure) (isLong : Bool) :
    Result Bool :=
  if market.config.borrowingFeeParams.skipBorrowingFeeForSmallerSide then do
    let longInterest ← market.openInterestAmount true
    let shortInterest ← market.openInterestAmount false
    return decide ((isLong = true ∧ longInterest < shortInterest) ∨
      (isLong = false ∧ shortInterest < longInterest))
  else .ok false

def borrowingFactorPerSecond (market : Market isPure) (isLong : Bool)
    (prices : Prices) : Result ℕ := do
  let reservedValue ← market.reservedValue prices.indexTokenPrice isLong
  if reservedValue = 0 then return 0
  else
    let skips ← market.skipsBorrowingFee isLong
    if skips then return 0
    else
      let poolValue ← market.poolValueWithoutPnlForOneSide prices isLong false
      ensure (poolValue ≠ 0) .unableToGetBorrowingFactorEmptyPoolValue
      let kink ←
        market.kinkModelBorrowingFactorPerSecond isLong reservedValue poolValue
      match kink with
      | some factor => return factor
      | none =>
        let params := market.config.borrowingFeeParams
        let afterExponent ←
          okOr (applyExponentFactor reservedValue (params.exponent isLong))
            (.computation "calculating reserved value after exponent")
        let toPoolFactor ← okOr (divToFactor afterExponent poolValue false)
          (.computation "calculating reserved value to pool factor")
        okOr (applyFactor toPoolFactor (params.factor isLong))
          (.computation "calculating borrowing factor per second")

/-- The next cumulative borrowing factor and its increase. -/
def nextCumulativeBorrowingFactor (market : Market isPure) (isLong : Bool)
    (prices : Prices) (durationInSecond : ℕ) : Result (ℕ × ℕ) := do
  let perSecond ← market.borrowingFactorPerSecond isLong prices
  let current := market.cumulativeBorrowingFactor isLong
  let durationValue ← okOr (narrow durationInSecond) .convert
  let delta ← okOr (checkedMul perSecond durationValue)
    (.computation "calculating borrowing factor delta")
  let next ← okOr (checkedAdd current delta)
    (.computation "calculating next borrowing factor")
  return (next, delta)

def passedInSecondsForBorrowing (market : Market isPure) : ℕ :=
  Clocks.passedInSeconds market.clock market.clocks.borrowing

def totalPendingBorrowingFees (market : Market isPure) (prices : Prices)
    (isLong : Bool) : Result ℕ := do
  let openInterest ← market.openInterestAmount isLong
  let next ← market.nextCumulativeBorrowingFactor isLong prices
    market.passedInSecondsForBorrowing
  okOr (do
      let total ← applyFactor openInterest next.1
      checkedSub total (market.totalBorrowingAmount isLong))
    (.computation "calculating total pending borrowing fees")

/-! ## Position impact pool -/

def positionImpactPoolAmount (market : Market isPure) : ℕ :=
  market.positionImpact.longAmount

def passedInSecondsForPositionImpactDistribution (market : Market isPure) : ℕ :=
  Clocks.passedInSeconds market.clock market.clocks.priceImpactDistribution

/-- The amount to distribute and the pool amount that remains. -/
def pendingPositionImpactPoolDistributionAmount (market : Market isPure)
    (durationInSecs : ℕ) : Result (ℕ × ℕ) := do
  let currentAmount := market.positionImpactPoolAmount
  let params := market.config.positionImpactDistributionParams
  if params.distributeFactor = 0 ∨
      currentAmount ≤ params.minPositionImpactPoolAmount then
    return (0, currentAmount)
  else
    let maxDistributionAmount ←
      okOr (checkedSub currentAmount params.minPositionImpactPoolAmount)
        (.computation "calculating max distribution amount")
    let durationValue ← okOr (narrow durationInSecs) .convert
    let computed ← okOr (applyFactor durationValue params.distributeFactor)
      (.computation "calculating distribution amount")
    let distributionAmount := min computed maxDistributionAmount
    let nextAmount ← okOr (checkedSub currentAmount distributionAmount)
      (.computation "calculating next position impact amount")
    return (distributionAmount, nextAmount)

def applyDeltaToPositionImpactPool (market : Market isPure) (delta : ℤ) :
    Result (Market isPure) := do
  let positionImpact ← market.positionImpact.applyDeltaToLongAmount delta
  return { market with positionImpact }

/-! ## Value and supply -/

def validatePoolValueForDeposit (market : Market isPure) (prices : Prices)
    (isLongToken : Bool) : Result Unit := do
  let poolValue ← market.poolValueWithoutPnlForOneSide prices isLongToken true
  ensure (poolValue ≤ market.config.maxPoolValueForDeposit isLongToken)
    (.maxPoolValueExceeded (getMsgBySide isLongToken))

/-- The share of the pending borrowing fees that belongs to the pool. -/
def pendingBorrowingFeesForPool (market : Market isPure) (prices : Prices) :
    Result ℤ := do
  let forLong ← market.totalPendingBorrowingFees prices true
  let forShort ← market.totalPendingBorrowingFees prices false
  let total ← okOr (checkedAdd forLong forShort)
    (.computation "calculating total pending borrowing fees for pool value")
  let forPool ← okOr (do
      let factor ← checkedSub unit market.config.borrowingFeeParams.receiverFactor
      applyFactor total factor)
    (.computation "calculating total borrowing fees for pool")
  toSigned forPool

def cappedPnl (market : Market isPure) (prices : Prices) (kind : PnlFactorKind)
    (isLong maximize : Bool) (poolValue : ℕ) : Result ℤ := do
  let pnl ← market.pnl prices.indexTokenPrice isLong maximize
  market.capPnl isLong pnl poolValue kind

def impactPoolValue (market : Market isPure) (prices : Prices)
    (maximize : Bool) : Result ℤ := do
  let pending ← market.pendingPositionImpactPoolDistributionAmount
    market.passedInSecondsForPositionImpactDistribution
  let value ←
    okOr (checkedMul pending.2 (prices.indexTokenPrice.pickPrice maximize))
      (.computation "calculating impact pool value")
  toSigned value

def poolValue (market : Market isPure) (prices : Prices)
    (pnlFactor : PnlFactorKind) (maximize : Bool) : Result ℤ := do
  let longValue ← market.poolValueWithoutPnlForOneSide prices true maximize
  let shortValue ← market.poolValueWithoutPnlForOneSide prices false maximize
  let sum ← okOr (checkedAdd longValue shortValue) .overflow
  let tokens ← toSigned sum
  let borrowingFees ← market.pendingBorrowingFeesForPool prices
  let withFees ← okOr (signedAdd tokens borrowingFees)
    (.computation "adding total borrowing fees for pool")
  let longPnl ← market.cappedPnl prices pnlFactor true (!maximize) longValue
  let shortPnl ← market.cappedPnl prices pnlFactor false (!maximize) shortValue
  let netPnl ← okOr (signedAdd longPnl shortPnl)
    (.computation "calculating net pnl")
  let withPnl ← okOr (signedSub withFees netPnl)
    (.computation "deducting net pnl")
  let impactPoolValue ← market.impactPoolValue prices !maximize
  okOr (signedSub withPnl impactPoolValue)
    (.computation "deducting impact pool value")

def mint (market : Market isPure) (amount : ℕ) : Result (Market isPure) := do
  ensure (amount ≤ maxU64) .overflow
  ensure (market.totalSupply + amount ≤ maxU64) .overflow
  return { market with totalSupply := market.totalSupply + amount }

def burn (market : Market isPure) (amount : ℕ) : Result (Market isPure) := do
  ensure (amount ≤ maxU64) .overflow
  ensure (amount ≤ market.totalSupply)
    (.computation "not enough market tokens to burn")
  return { market with totalSupply := market.totalSupply - amount }

/-! ## Perpetual market -/

def fundingFeeAmountPerSize (market : Market isPure)
    (isLong isLongCollateral : Bool) : ℕ :=
  (market.fundingAmountPerSize.get isLong).amount isLongCollateral

def claimableFundingFeeAmountPerSize (market : Market isPure)
    (isLong isLongCollateral : Bool) : ℕ :=
  (market.claimableFundingAmountPerSize.get isLong).amount isLongCollateral

def minCollateralFactorForOpenInterest (market : Market isPure) (delta : ℤ)
    (isLong : Bool) : Result ℕ := do
  let openInterest ← market.openInterestAmount isLong
  let nextOpenInterest ← okOr (checkedAddWithSigned openInterest delta)
    (.computation "calculating next OI for min collateral factor")
  okOr (applyFactor nextOpenInterest
      (market.config.minCollateralFactorForOpenInterestMultiplier isLong))
    (.computation "calculating min collateral factor for OI")

def capPositivePositionPriceImpact (market : Market isPure)
    (indexTokenPrice : Price) (sizeDeltaUsd impact : ℤ) : Result ℤ :=
  if 0 < impact then do
    let poolValue ← okOr (checkedMul market.positionImpactPoolAmount
        (indexTokenPrice.pickPrice false))
      (.computation
        "overflow calculating max positive position impact based on pool amount")
    let maxByPool ← toSigned poolValue
    let maxByFactorValue ← okOr (applyFactor sizeDeltaUsd.natAbs
        market.config.positionParams.maxPositivePositionImpactFactor)
      (.computation
        "calculating max positive position impact based on max factor")
    let maxByFactor ← toSigned maxByFactorValue
    return min (min impact maxByPool) maxByFactor
  else .ok impact

/-- The capped impact and the magnitude the cap took away. -/
def capNegativePositionPriceImpact (market : Market isPure)
    (sizeDeltaUsd : ℤ) (forLiquidations : Bool) (impact : ℤ) :
    Result (ℤ × ℕ) :=
  if impact < 0 then do
    let params := market.config.positionParams
    let factor := if forLiquidations
      then params.maxPositionImpactFactorForLiquidations
      else params.maxNegativePositionImpactFactor
    let magnitude ← okOr (applyFactor sizeDeltaUsd.natAbs factor)
      (.computation
        "calculating max negative position impact based on max factor")
    let minImpact ← toOppositeSigned magnitude
    if impact < minImpact then
      let cut ← okOr (signedSub minImpact impact)
        (.computation "overflow calculating impact diff")
      return (minImpact, cut.natAbs)
    else return (impact, 0)
  else .ok (impact, 0)

end Market

end Gmsol.Model
