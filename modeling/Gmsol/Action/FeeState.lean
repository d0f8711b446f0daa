import Gmsol.Model.Position

/-!
# Updates of the fee state

Funding moves value from the payers of the larger side to the receivers, the
borrowing factors grow with time, and the position impact pool is distributed
to the liquidity providers.
-/

namespace Gmsol.Model

open Gmsol.Fallible

/-! ## Borrowing -/

structure UpdateBorrowingReport where
  durationInSeconds : ℕ
  nextCumulativeBorrowingFactorForLong : ℕ
  nextCumulativeBorrowingFactorForShort : ℕ
  deriving DecidableEq, Repr

namespace UpdateBorrowingState

variable [MarketNum] {isPure : Bool}

def executeOneSide (market : Market isPure) (prices : Prices) (isLong : Bool)
    (durationInSeconds : ℕ) : Result (Market isPure × ℕ) := do
  let next ←
    market.nextCumulativeBorrowingFactor isLong prices durationInSeconds
  let delta ← toSigned next.2
  let borrowingFactor ← market.borrowingFactor.applyDeltaAmount isLong delta
  return ({ market with borrowingFactor }, next.1)

def execute (market : Market isPure) (prices : Prices) :
    Result (Market isPure × UpdateBorrowingReport) := do
  prices.validate
  let duration := market.passedInSecondsForBorrowing
  let clocked := { market with
    clocks := { market.clocks with
      borrowing := Clocks.justPassed market.clock market.clocks.borrowing } }
  let long ← executeOneSide clocked prices true duration
  let short ← executeOneSide long.1 prices false duration
  return (short.1, ⟨duration, long.2, short.2⟩)

end UpdateBorrowingState

/-! ## Funding -/

/-- The deltas are indexed by the side of the position and then by the side of
the collateral token. -/
structure UpdateFundingReport where
  durationInSeconds : ℕ
  nextFundingFactorPerSecond : ℤ
  deltaFundingAmountPerSize : Sided (Sided ℕ)
  deltaClaimableFundingAmountPerSize : Sided (Sided ℕ)
  deriving DecidableEq, Repr

namespace UpdateFundingState

variable [MarketNum] {isPure : Bool}

def emptyReport (durationInSeconds : ℕ) : UpdateFundingReport where
  durationInSeconds := durationInSeconds
  nextFundingFactorPerSecond := 0
  deltaFundingAmountPerSize := ⟨⟨0, 0⟩, ⟨0, 0⟩⟩
  deltaClaimableFundingAmountPerSize := ⟨⟨0, 0⟩, ⟨0, 0⟩⟩

def increasedFactor (params : FundingFeeParams) (factor : ℤ)
    (diffFactor durationValue longInterest shortInterest : ℕ) : Result ℤ := do
  let magnitude ← okOr (do
      let perSecond ← applyFactor diffFactor params.increaseFactorPerSecond
      checkedMul perSecond durationValue)
    (.computation "calculating factor increase value")
  let increase ← (
    if longInterest < shortInterest then toOppositeSigned magnitude
    else toSigned magnitude)
  okOr (signedAdd factor increase) (.computation "increasing funding factor")

def decreasedFactor (params : FundingFeeParams) (factor : ℤ)
    (durationValue : ℕ) : Result ℤ := do
  let decrease ←
    okOr (checkedMul params.decreaseFactorPerSecond durationValue)
      (.computation "calculating factor decrease value")
  if factor.natAbs ≤ decrease then
    let magnitude ← toSigned factor.natAbs
    okOr (signedDiv factor magnitude) (.computation "calculating signum")
  else
    let decreased ← okOr (checkedSub factor.natAbs decrease) (.computation
      "calculating decreased funding factor per second (infallible)")
    if factor < 0 then toOppositeSigned decreased else toSigned decreased

/-- The stored factor after the change and before it is bounded. -/
def changedFactor (params : FundingFeeParams) (factor : ℤ)
    (diffFactor durationValue longInterest shortInterest : ℕ) : Result ℤ :=
  match params.change factor longInterest shortInterest diffFactor with
  | .increase =>
    increasedFactor params factor diffFactor durationValue longInterest
      shortInterest
  | .decrease =>
    if factor.natAbs ≠ 0 then decreasedFactor params factor durationValue
    else .ok factor
  | .noChange => .ok factor

/-- Without a growth rate the factor follows the imbalance directly. -/
def fallbackFactor (params : FundingFeeParams)
    (diffFactor longInterest shortInterest : ℕ) : Result (ℕ × Bool × ℤ) := do
  let factor ← okOr (applyFactor diffFactor params.fundingFactor)
    (.computation "calculating fallback funding factor per second")
  return (min factor params.maxFactorPerSecond,
    decide (longInterest > shortInterest), 0)

/-- The applied factor, whether longs pay shorts, and the factor to store. -/
def nextFundingFactorPerSecond (market : Market isPure)
    (durationInSeconds longInterest shortInterest : ℕ) :
    Result (ℕ × Bool × ℤ) := do
  let params := market.config.fundingFeeParams
  let diffValue := diff longInterest shortInterest
  if diffValue = 0 ∧ params.increaseFactorPerSecond = 0 then
    return (0, true, 0)
  else
    let total ← okOr (checkedAdd longInterest shortInterest)
      (.computation "calculating total open interest")
    ensure (total ≠ 0) .unableToGetFundingFactorEmptyOpenInterest
    let afterExponent ← okOr (applyExponentFactor diffValue params.exponent)
      (.computation "applying exponent factor to diff value")
    let diffFactor ← okOr (divToFactor afterExponent total false)
      (.computation "calculating diff value to open interest factor")
    if params.increaseFactorPerSecond = 0 then
      fallbackFactor params diffFactor longInterest shortInterest
    else
      let durationValue ← okOr (narrow durationInSeconds) .convert
      let changed ← changedFactor params market.fundingFactorPerSecond
        diffFactor durationValue longInterest shortInterest
      let next ← boundMagnitude changed 0 params.maxFactorPerSecond
      let bounded ← boundMagnitude next params.minFactorPerSecond
        params.maxFactorPerSecond
      return (bounded.natAbs, decide (0 < bounded), next)

/-- The deltas of one collateral token: what payers owe and receivers may
claim per size. -/
def deltasFor (market : Market isPure) (prices : Prices)
    (longsPayShorts isLongCollateral : Bool)
    (fundingValue receiverInterest : ℕ) : Result (ℕ × ℕ) := do
  let price := (prices.collateralTokenPrice isLongCollateral).pickPrice true
  let payer ← okOr (packToFundingAmountPerSize fundingAmountPerSizeAdjustment
      fundingValue
      ((market.openInterest.get longsPayShorts).amount isLongCollateral)
      price true)
    (.computation "calculating delta funding amount per size")
  let receiver ← okOr (packToFundingAmountPerSize fundingAmountPerSizeAdjustment
      fundingValue receiverInterest price false)
    (.computation "calculating delta claimable funding amount per size")
  return (payer, receiver)

/-- The part of the funding value paid by positions with the collateral. -/
def fundingValueFor (market : Market isPure)
    (longsPayShorts isLongCollateral : Bool)
    (fundingValue payerInterest : ℕ) (message : String) : Result ℕ :=
  okOr (checkedMulDiv fundingValue
      ((market.openInterest.get longsPayShorts).amount isLongCollateral)
      payerInterest)
    (.computation message)

def nextFundingAmountPerSize (market : Market isPure) (prices : Prices)
    (durationInSeconds : ℕ) : Result UpdateFundingReport := do
  let longInterest ← market.openInterestAmount true
  let shortInterest ← market.openInterestAmount false
  if longInterest = 0 ∨ shortInterest = 0 then
    return emptyReport durationInSeconds
  else
    let factor ← nextFundingFactorPerSecond market durationInSeconds
      longInterest shortInterest
    let longsPayShorts := factor.2.1
    let larger := if longInterest > shortInterest
      then longInterest else shortInterest
    let durationValue ← okOr (narrow durationInSeconds) .convert
    let fundingFactor ← okOr (checkedMul durationValue factor.1)
      (.computation "calculating funding factor")
    let fundingValue ← okOr (applyFactor larger fundingFactor)
      (.computation "calculating funding value")
    let payerInterest := if longsPayShorts then longInterest else shortInterest
    let receiverInterest :=
      if longsPayShorts then shortInterest else longInterest
    let forLong ← fundingValueFor market longsPayShorts true fundingValue
      payerInterest "calculating funding value for long collateral"
    let forShort ← fundingValueFor market longsPayShorts false fundingValue
      payerInterest "calculating funding value for short collateral"
    let inLong ← deltasFor market prices longsPayShorts true forLong
      receiverInterest
    let inShort ← deltasFor market prices longsPayShorts false forShort
      receiverInterest
    let zero : Sided (Sided ℕ) := ⟨⟨0, 0⟩, ⟨0, 0⟩⟩
    return {
      durationInSeconds
      nextFundingFactorPerSecond := factor.2.2
      deltaFundingAmountPerSize :=
        zero.set longsPayShorts ⟨inLong.1, inShort.1⟩
      deltaClaimableFundingAmountPerSize :=
        zero.set (!longsPayShorts) ⟨inLong.2, inShort.2⟩ }

/-- Adds the deltas of one side and collateral to the funding pools. -/
def applyDeltas (report : UpdateFundingReport) (isLong isLongCollateral : Bool)
    (market : Market isPure) : Result (Market isPure) := do
  let delta ← toSigned
    ((report.deltaFundingAmountPerSize.get isLong).get isLongCollateral)
  let funding ← (market.fundingAmountPerSize.get isLong).applyDeltaAmount
    isLongCollateral delta
  let claimableDelta ← toSigned
    ((report.deltaClaimableFundingAmountPerSize.get isLong).get isLongCollateral)
  let claimable ←
    (market.claimableFundingAmountPerSize.get isLong).applyDeltaAmount
      isLongCollateral claimableDelta
  return { market with
    fundingAmountPerSize := market.fundingAmountPerSize.set isLong funding
    claimableFundingAmountPerSize :=
      market.claimableFundingAmountPerSize.set isLong claimable }

def execute (market : Market isPure) (prices : Prices) :
    Result (Market isPure × UpdateFundingReport) := do
  prices.validate
  let duration := Clocks.passedInSeconds market.clock market.clocks.funding
  let clocked := { market with
    clocks := { market.clocks with
      funding := Clocks.justPassed market.clock market.clocks.funding } }
  let report ← nextFundingAmountPerSize clocked prices duration
  let first ← applyDeltas report true true clocked
  let second ← applyDeltas report true false first
  let third ← applyDeltas report false true second
  let fourth ← applyDeltas report false false third
  return ({ fourth with
    fundingFactorPerSecond := report.nextFundingFactorPerSecond }, report)

end UpdateFundingState

/-! ## Distribution of the position impact pool -/

structure DistributePositionImpactReport where
  durationInSeconds : ℕ
  distributionAmount : ℕ
  nextPositionImpactPoolAmount : ℕ
  deriving DecidableEq, Repr

namespace DistributePositionImpact

variable [MarketNum] {isPure : Bool}

def execute (market : Market isPure) :
    Result (Market isPure × DistributePositionImpactReport) := do
  let duration := market.passedInSecondsForPositionImpactDistribution
  let clocked := { market with
    clocks := { market.clocks with
      priceImpactDistribution := Clocks.justPassed market.clock
        market.clocks.priceImpactDistribution } }
  let pending ← clocked.pendingPositionImpactPoolDistributionAmount duration
  let next ← (
    if pending.1 = 0 then .ok clocked
    else do
      let delta ← toOppositeSigned pending.1
      clocked.applyDeltaToPositionImpactPool delta)
  return (next, ⟨duration, pending.1, pending.2⟩)

end DistributePositionImpact

end Gmsol.Model
