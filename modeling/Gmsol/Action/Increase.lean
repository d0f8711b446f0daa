import Gmsol.Model.Position

/-!
# Increasing a position

The collateral increment pays the fees of the order and the fees that have
accrued since the last settlement; the rest is added to the collateral.
-/

namespace Gmsol.Model

open Gmsol.Fallible

structure IncreasePositionParams where
  collateralIncrementAmount : ℕ
  sizeDeltaUsd : ℕ
  acceptablePrice : Option ℕ
  prices : Prices
  deriving DecidableEq, Repr

/-- How an order is executed. -/
structure ExecutionParams where
  priceImpactValue : ℤ
  priceImpactAmount : ℤ
  sizeDeltaInTokens : ℕ
  executionPrice : ℕ
  deriving DecidableEq, Repr

structure IncreasePositionReport where
  execution : ExecutionParams
  collateralDeltaAmount : ℤ
  fees : PositionFees
  deriving DecidableEq, Repr

namespace Market

variable {isPure : Bool}

def nextTradeId (market : Market isPure) : Result (Market isPure) :=
  if market.tradeCount + 1 ≤ maxU64 then
    .ok { market with tradeCount := market.tradeCount + 1 }
  else .error .tokenAmountOverflow

end Market

namespace IncreasePosition

variable [MarketNum] {isPure : Bool}

def initializePositionIfEmpty (position : Position) (market : Market isPure) :
    Position :=
  if position.sizeInUsd = 0 then
    { position.settleFees market position.borrowingFactor with
      sizeInTokens := 0 }
  else position

def getExecutionPriceForIncrease (sizeDeltaUsd sizeDeltaInTokens : ℕ)
    (acceptablePrice : Option ℕ) (isLong : Bool) : Result ℕ := do
  ensure (sizeDeltaUsd ≠ 0) (.computation "empty size delta in tokens")
  let executionPrice ← okOr (checkedDiv sizeDeltaUsd sizeDeltaInTokens)
    (.computation "calculating execution price")
  match acceptablePrice with
  | none => return executionPrice
  | some acceptable =>
    ensure ((isLong = true ∧ executionPrice ≤ acceptable) ∨
        (isLong = false ∧ executionPrice ≥ acceptable))
      (.invalidArgument "order not fulfillable at acceptable price")
    return executionPrice

/-- The impact as index tokens, rounded against the trader. -/
def priceImpactAmount (indexTokenPrice : Price) (priceImpactValue : ℤ) :
    Result ℤ :=
  if 0 < priceImpactValue then do
    let price ← toSigned (indexTokenPrice.pickPrice true)
    okOr (signedDiv priceImpactValue price)
      (.computation "calculating price impact amount")
  else
    okOr (asDivisorToRoundUpMagnitudeDiv (indexTokenPrice.pickPrice false)
        priceImpactValue)
      (.computation "calculating price impact amount")

def baseSizeDeltaInTokens (isLong : Bool) (indexTokenPrice : Price)
    (sizeDeltaUsd : ℕ) : Result ℕ :=
  if isLong then
    okOr (checkedDiv sizeDeltaUsd (indexTokenPrice.pickPrice true))
      (.computation "calculating size delta in tokens")
  else
    okOr (checkedRoundUpDiv sizeDeltaUsd (indexTokenPrice.pickPrice false))
      (.computation "calculating size delta in tokens")

def getExecutionParams (position : Position) (market : Market isPure)
    (params : IncreasePositionParams) : Result ExecutionParams :=
  if params.sizeDeltaUsd = 0 then
    .ok ⟨0, 0, 0, params.prices.indexTokenPrice.pickPrice position.isLong⟩
  else do
    let indexTokenPrice := params.prices.indexTokenPrice
    let sizeDelta ← toSigned params.sizeDeltaUsd
    let priceImpactValue ← position.cappedPositivePositionPriceImpact market
      indexTokenPrice sizeDelta
    let priceImpactAmount ← priceImpactAmount indexTokenPrice priceImpactValue
    let base ← baseSizeDeltaInTokens position.isLong indexTokenPrice
      params.sizeDeltaUsd
    let sizeDeltaInTokens ← okOr
      (if position.isLong then checkedAddWithSigned base priceImpactAmount
        else checkedSubWithSigned base priceImpactAmount)
      (.computation "price impact larger than order size")
    let executionPrice ← getExecutionPriceForIncrease params.sizeDeltaUsd
      sizeDeltaInTokens params.acceptablePrice position.isLong
    return ⟨priceImpactValue, priceImpactAmount, sizeDeltaInTokens,
      executionPrice⟩

/-- Moves fees and collateral into the pools; returns the market, the signed
change of the collateral and the fees. -/
def processCollateral (position : Position) (market : Market isPure)
    (params : IncreasePositionParams) (priceImpactValue : ℤ) :
    Result (Market isPure × ℤ × PositionFees) := do
  let increment ← toSigned params.collateralIncrementAmount
  let fees ← position.positionFees market
    (position.collateralPrice params.prices) params.sizeDeltaUsd
    (0 < priceImpactValue) false
  let cost ← fees.totalCostAmount
  let signedCost ← toSigned cost
  let collateralDelta ← okOr (signedSub increment signedCost)
    (.computation "applying fees to collateral amount")
  let isTokenLong := position.isCollateralTokenLong
  let forReceiver ← fees.forReceiver
  let receiverDelta ← toSigned forReceiver
  let withReceiver ←
    market.applyDeltaToClaimableFeePool isTokenLong receiverDelta
  let forPool ← fees.forPool
  let poolDelta ← toSigned forPool
  let withPool ← withReceiver.applyDelta isTokenLong poolDelta
  let collateralSum ← (withPool.collateralSum.get position.isLong).applyDeltaAmount
    isTokenLong collateralDelta
  return ({ withPool with
      collateralSum := withPool.collateralSum.set position.isLong collateralSum },
    collateralDelta, fees)

/-- The checks of a grown position. -/
def validateIncreased (position : Position) (market : Market isPure)
    (params : IncreasePositionParams) : Result Unit :=
  if params.sizeDeltaUsd = 0 then .ok ()
  else do
    market.validateReserve params.prices position.isLong
    market.validateOpenInterestReserve params.prices position.isLong
    let sufficient ← position.willCollateralBeSufficient market params.prices
      ⟨position.sizeInUsd, position.collateralAmount, 0, 0⟩
    ensure (sufficient.isSufficient = true)
      (.invalidArgument "insufficient collateral usd")

/-- `on_increased`: stamps the position and takes a trade id. -/
def onIncreased (position : Position) (market : Market isPure) :
    Result (Market isPure × Position) := do
  let next ← market.nextTradeId
  return (next, { position with
    updatedAtSlot := market.clock.slot
    increasedAt := market.clock.unixTimestamp
    tradeId := next.tradeCount })

def tryNew (params : IncreasePositionParams) : Result Unit :=
  params.prices.validate

def execute (market : Market isPure) (position : Position)
    (params : IncreasePositionParams) :
    Result (Market isPure × Position × IncreasePositionReport) := do
  tryNew params
  let initialized := initializePositionIfEmpty position market
  let execution ← getExecutionParams initialized market params
  let processed ← processCollateral initialized market params
    execution.priceImpactValue
  let withCollateral := processed.1
  let collateralDelta := processed.2.1
  let collateralAmount ←
    okOr (checkedAddWithSigned initialized.collateralAmount collateralDelta)
      (if 0 < collateralDelta then .computation "collateral amount overflow"
        else .invalidArgument "insufficient collateral amount")
  let impactDelta ← okOr (signedNeg execution.priceImpactAmount)
    (.computation "calculating position impact pool delta amount")
  let withImpact ← withCollateral.applyDeltaToPositionImpactPool impactDelta
  let nextSizeInUsd ←
    okOr (checkedAdd initialized.sizeInUsd params.sizeDeltaUsd)
      (.computation "size in usd overflow")
  let nextBorrowingFactor := withImpact.cumulativeBorrowingFactor position.isLong
  let withBorrowing ← initialized.updateTotalBorrowing withImpact nextSizeInUsd
    nextBorrowingFactor
  let nextSizeInTokens ←
    okOr (checkedAdd initialized.sizeInTokens execution.sizeDeltaInTokens)
      (.computation "size in tokens overflow")
  let increased := { initialized.settleFees withBorrowing nextBorrowingFactor with
    collateralAmount
    sizeInUsd := nextSizeInUsd
    sizeInTokens := nextSizeInTokens }
  let sizeDelta ← toSigned params.sizeDeltaUsd
  let tokensDelta ← toSigned execution.sizeDeltaInTokens
  let withInterest ←
    increased.updateOpenInterest withBorrowing sizeDelta tokensDelta
  validateIncreased increased withInterest params
  increased.validate withInterest params.prices true true
  let final ← onIncreased increased withInterest
  return (final.1, final.2, ⟨execution, collateralDelta, processed.2.2⟩)

end IncreasePosition

end Gmsol.Model
