import Gmsol.Model.LiquidityMarket

/-!
# Positions

A position belongs to one side of the market and holds its collateral in one of
the two pool tokens.  It remembers the cumulative borrowing factor and the
funding amounts per size at which its fees were last settled.
-/

namespace Gmsol.Model

open Gmsol.Fallible

structure Position where
  isLong : Bool
  isCollateralTokenLong : Bool
  tradeId : ℕ
  updatedAtSlot : ℕ
  increasedAt : ℤ
  decreasedAt : ℤ
  collateralAmount : ℕ
  sizeInUsd : ℕ
  sizeInTokens : ℕ
  borrowingFactor : ℕ
  fundingFeeAmountPerSize : ℕ
  claimableFundingFeeAmountPerSize : Sided ℕ
  deriving DecidableEq, Repr

/-- The position a user starts from on the given side and collateral. -/
def Position.empty (isLong isCollateralTokenLong : Bool) : Position where
  isLong := isLong
  isCollateralTokenLong := isCollateralTokenLong
  tradeId := 0
  updatedAtSlot := 0
  increasedAt := 0
  decreasedAt := 0
  collateralAmount := 0
  sizeInUsd := 0
  sizeInTokens := 0
  borrowingFactor := 0
  fundingFeeAmountPerSize := 0
  claimableFundingFeeAmountPerSize := ⟨0, 0⟩

/-- What a change of a position means for its collateral. -/
structure CollateralDelta where
  nextSizeInUsd : ℕ
  nextCollateralAmount : ℕ
  realizedPnlValue : ℤ
  openInterestDelta : ℤ
  deriving DecidableEq, Repr

inductive WillCollateralBeSufficient
  | sufficient (value : ℤ)
  | insufficient (value : ℤ)
  deriving DecidableEq, Repr

namespace WillCollateralBeSufficient

def isSufficient : WillCollateralBeSufficient → Bool
  | sufficient _ => true
  | insufficient _ => false

end WillCollateralBeSufficient

inductive CheckCollateralResult
  | sufficient
  | zero
  | negative
  | minCollateralForLeverage
  | minCollateral
  deriving DecidableEq, Repr

section

variable [MarketNum]

def checkCollateral (sizeInUsd minCollateralFactor : ℕ)
    (minCollateralValue : Option ℕ) (allowZeroCollateral : Bool)
    (collateralValue : ℤ) : Result CheckCollateralResult :=
  if collateralValue < 0 then
    match minCollateralValue with
    | some _ => .ok .minCollateral
    | none => .ok .negative
  else if minCollateralValue.any (collateralValue.natAbs < ·) then
    .ok .minCollateral
  else if allowZeroCollateral = false ∧ collateralValue.natAbs = 0 then
    .ok .zero
  else do
    let forLeverage ← okOr (applyFactor sizeInUsd minCollateralFactor)
      (.computation "calculating min collateral usd for leverage")
    return if collateralValue.natAbs < forLeverage
      then .minCollateralForLeverage else .sufficient

/-! ## Funding amounts per size -/

/-- A funding value as an amount per size, scaled by the adjustment. -/
def packToFundingAmountPerSize (adjustment fundingValue openInterest price : ℕ)
    (roundUpMagnitude : Bool) : Option ℕ :=
  if fundingValue = 0 ∨ openInterest = 0 then some 0
  else do
    let numerator ← checkedMul adjustment unit
    if roundUpMagnitude then
      let perSize ← checkedMulDivCeil fundingValue numerator openInterest
      checkedRoundUpDiv perSize price
    else
      let perSize ← checkedMulDiv fundingValue numerator openInterest
      checkedDiv perSize price

/-- The funding amount of a size between two amounts per size. -/
def unpackToFundingAmountDelta (adjustment latest position sizeInUsd : ℕ)
    (roundUpMagnitude : Bool) : Option ℕ := do
  let factor ← checkedSub latest position
  let denominator ← checkedMul adjustment unit
  if roundUpMagnitude then checkedMulDivCeil sizeInUsd factor denominator
  else checkedMulDiv sizeInUsd factor denominator

end

namespace Position

variable [MarketNum] {isPure : Bool}

omit [MarketNum] in
def isEmpty (position : Position) : Bool :=
  position.sizeInUsd == 0 && position.sizeInTokens == 0 &&
    position.collateralAmount == 0

omit [MarketNum] in
/-- Whether profit is paid in the collateral token. -/
def arePnlAndCollateralTokensTheSame (position : Position)
    (isPure : Bool) : Bool :=
  position.isLong == position.isCollateralTokenLong || isPure

omit [MarketNum] in
def collateralPrice (position : Position) (prices : Prices) : Price :=
  prices.collateralTokenPrice position.isCollateralTokenLong

def collateralValue (position : Position) (prices : Prices) : Result ℕ :=
  okOr (checkedMul position.collateralAmount
      ((position.collateralPrice prices).pickPrice false))
    (.computation "overflow calculating collateral value")

def willCollateralBeSufficient (position : Position) (market : Market isPure)
    (prices : Prices) (delta : CollateralDelta) :
    Result WillCollateralBeSufficient := do
  let value ← okOr (checkedMul delta.nextCollateralAmount
      ((position.collateralPrice prices).pickPrice false))
    (.computation "overflow calculating collateral value")
  let collateralValue ← toSigned value
  let remaining ← (
    if delta.realizedPnlValue < 0 then
      okOr (signedAdd collateralValue delta.realizedPnlValue)
        (.computation "adding realized pnl")
    else .ok collateralValue)
  if remaining < 0 then return .insufficient remaining
  else
    let factorForInterest ← market.minCollateralFactorForOpenInterest
      delta.openInterestDelta position.isLong
    let minCollateralFactor := max factorForInterest
      market.config.positionParams.minCollateralFactor
    let checked ← checkCollateral delta.nextSizeInUsd minCollateralFactor none
      true remaining
    match checked with
    | .sufficient => return .sufficient remaining
    | .negative => return .insufficient remaining
    | .minCollateralForLeverage => return .insufficient remaining
    | .minCollateral => .error (.panic "unreachable")
    | .zero => .error (.panic "unreachable")

/-! ## Profit -/

/-- The tokens that go with a size delta; longs round up, shorts down. -/
def sizeDeltaInTokens (position : Position) (sizeDeltaUsd : ℕ) : Result ℕ :=
  if position.sizeInUsd = sizeDeltaUsd then .ok position.sizeInTokens
  else if position.isLong then
    okOr (checkedMulDivCeil position.sizeInTokens sizeDeltaUsd position.sizeInUsd)
      (.computation "calculating size delta in tokens for long")
  else
    okOr (checkedMulDiv position.sizeInTokens sizeDeltaUsd position.sizeInUsd)
      (.computation "calculating size delta in tokens for short")

def uncappedTotalPnl (position : Position) (prices : Prices) : Result ℤ := do
  let executionPrice :=
    prices.indexTokenPrice.pickPriceForPnl position.isLong false
  let value ← okOr (checkedMul position.sizeInTokens executionPrice)
    (.computation "overflow calculating position value")
  let positionValue ← toSigned value
  let sizeInUsd ← toSigned position.sizeInUsd
  okOr (if position.isLong then signedSub positionValue sizeInUsd
      else signedSub sizeInUsd positionValue)
    (.computation "calculating total pnl")

/-- The total profit, capped by what the pool may pay to traders. -/
def cappedTotalPnl (position : Position) (market : Market isPure)
    (prices : Prices) (totalPnl : ℤ) : Result ℤ :=
  if 0 < totalPnl then do
    let poolValue ←
      market.poolValueWithoutPnlForOneSide prices position.isLong false
    let poolPnl ← market.pnl prices.indexTokenPrice position.isLong true
    let cappedPoolPnl ←
      market.capPnl position.isLong poolPnl poolValue .maxForTrader
    if cappedPoolPnl ≠ poolPnl ∧ 0 ≤ cappedPoolPnl ∧ 0 < poolPnl then
      okOr (checkedMulDivWithSignedNumerator cappedPoolPnl.natAbs totalPnl
          poolPnl.natAbs)
        (.computation "calculating capped total pnl")
    else .ok totalPnl
  else .ok totalPnl

/-- Returns `(pnlValue, uncappedPnlValue, sizeDeltaInTokens)`. -/
def pnlValue (position : Position) (market : Market isPure) (prices : Prices)
    (sizeDeltaUsd : ℕ) : Result (ℤ × ℤ × ℕ) := do
  let uncapped ← position.uncappedTotalPnl prices
  let total ← position.cappedTotalPnl market prices uncapped
  let tokens ← position.sizeDeltaInTokens sizeDeltaUsd
  let pnlUsd ←
    okOr (checkedMulDivWithSignedNumerator tokens total position.sizeInTokens)
      (.computation "calculating pnl_usd")
  let uncappedPnlUsd ← okOr
    (checkedMulDivWithSignedNumerator tokens uncapped position.sizeInTokens)
      (.computation "calculating uncapped_pnl_usd")
  return (pnlUsd, uncappedPnlUsd, tokens)

/-! ## Price impact -/

def positionPriceImpact (position : Position) (market : Market isPure)
    (sizeDeltaUsd : ℤ) : Result ℤ := do
  let longInterest ← market.openInterestAmount true
  let shortInterest ← market.openInterestAmount false
  let delta ← PoolDelta.tryNew longInterest shortInterest
    (if position.isLong then sizeDeltaUsd else 0)
    (if position.isLong then 0 else sizeDeltaUsd) 1 1
  delta.priceImpact market.config.positionImpactParams

def cappedPositivePositionPriceImpact (position : Position)
    (market : Market isPure) (indexTokenPrice : Price) (sizeDeltaUsd : ℤ) :
    Result ℤ := do
  let impact ← position.positionPriceImpact market sizeDeltaUsd
  market.capPositivePositionPriceImpact indexTokenPrice sizeDeltaUsd impact

/-- The impact capped on both sides and the magnitude the negative cap took. -/
def cappedPositionPriceImpact (position : Position) (market : Market isPure)
    (indexTokenPrice : Price) (sizeDeltaUsd : ℤ) : Result (ℤ × ℕ) := do
  let impact ← position.cappedPositivePositionPriceImpact market
    indexTokenPrice sizeDeltaUsd
  market.capNegativePositionPriceImpact sizeDeltaUsd false impact

/-! ## Fees -/

def pendingBorrowingFeeValue (position : Position) (market : Market isPure) :
    Result ℕ := do
  let diffFactor ←
    okOr (checkedSub (market.cumulativeBorrowingFactor position.isLong)
        position.borrowingFactor)
      (.computation "invalid latest borrowing factor")
  okOr (applyFactor position.sizeInUsd diffFactor)
    (.computation "calculating borrowing fee value")

def pendingFundingFees (position : Position) (market : Market isPure) :
    Result FundingFees := do
  let amount ← okOr (unpackToFundingAmountDelta fundingAmountPerSizeAdjustment
      (market.fundingFeeAmountPerSize position.isLong
        position.isCollateralTokenLong)
      position.fundingFeeAmountPerSize position.sizeInUsd true)
    (.computation "calculating funding fee amount")
  let claimableLong ← okOr (unpackToFundingAmountDelta
      fundingAmountPerSizeAdjustment
      (market.claimableFundingFeeAmountPerSize position.isLong true)
      (position.claimableFundingFeeAmountPerSize.get true)
      position.sizeInUsd false)
    (.computation "calculating claimable long token funding fee amount")
  let claimableShort ← okOr (unpackToFundingAmountDelta
      fundingAmountPerSizeAdjustment
      (market.claimableFundingFeeAmountPerSize position.isLong false)
      (position.claimableFundingFeeAmountPerSize.get false)
      position.sizeInUsd false)
    (.computation "calculating claimable short token funding fee amount")
  return ⟨amount, claimableLong, claimableShort⟩

/-- Liquidation fees are charged only for liquidations. -/
def liquidationFees (market : Market isPure) (collateralTokenPrice : Price)
    (sizeDeltaUsd : ℕ) (isLiquidation : Bool) :
    Result (Option LiquidationFees) :=
  if isLiquidation then do
    let fees ←
      market.config.liquidationFeeParams.fee sizeDeltaUsd collateralTokenPrice
    return some fees
  else .ok none

def positionFees (position : Position) (market : Market isPure)
    (collateralTokenPrice : Price) (sizeDeltaUsd : ℕ)
    (isPositiveImpact isLiquidation : Bool) : Result PositionFees := do
  let liquidation ←
    liquidationFees market collateralTokenPrice sizeDeltaUsd isLiquidation
  let base ← market.config.orderFeeParams.basePositionFees collateralTokenPrice
    sizeDeltaUsd isPositiveImpact
  let borrowingValue ← position.pendingBorrowingFeeValue market
  let withBorrowing ← base.setBorrowingFees
    market.config.borrowingFeeParams.receiverFactor collateralTokenPrice
    borrowingValue
  let funding ← position.pendingFundingFees market
  return { withBorrowing with funding, liquidation }

/-! ## Validation -/

/-- The price impact a liquidation would pay; positive impact is ignored. -/
def priceImpactForLiquidation (market : Market isPure)
    (sizeDeltaUsd priceImpact : ℤ) : Result ℤ :=
  if priceImpact < 0 then do
    let capped ←
      market.capNegativePositionPriceImpact sizeDeltaUsd true priceImpact
    return capped.1
  else .ok 0

def checkLiquidatable (position : Position) (market : Market isPure)
    (prices : Prices) (shouldValidateMinCollateralUsd : Bool) :
    Result (Option LiquidatableReason) := do
  let pnl ← position.pnlValue market prices position.sizeInUsd
  let collateralValue ← position.collateralValue prices
  let collateralPrice := position.collateralPrice prices
  let sizeDeltaUsd ← toOppositeSigned position.sizeInUsd
  let uncappedImpact ← position.positionPriceImpact market sizeDeltaUsd
  let priceImpact ←
    priceImpactForLiquidation market sizeDeltaUsd uncappedImpact
  let fees ← position.positionFees market collateralPrice position.sizeInUsd
    (0 < uncappedImpact) false
  let cost ← fees.totalCostAmount
  let costValue ← okOr (checkedMul cost (collateralPrice.pickPrice false))
    (.computation "overflow calculating collateral cost value")
  let signedCollateral ← toSigned collateralValue
  let remaining ← okOr (do
      let withPnl ← signedAdd signedCollateral pnl.1
      let withImpact ← signedAdd withPnl priceImpact
      let signedCost ← (toSigned costValue).toOption
      signedSub withImpact signedCost)
    (.computation "calculating remaining collateral value")
  let params := market.config.positionParams
  let checked ← checkCollateral position.sizeInUsd params.minCollateralFactor
    (if shouldValidateMinCollateralUsd then some params.minCollateralValue
      else none) false remaining
  return match checked with
    | .sufficient => none
    | .zero => some .notPositive
    | .negative => some .notPositive
    | .minCollateralForLeverage => some .minCollateralForLeverage
    | .minCollateral => some .minCollateral

def validate (position : Position) (market : Market isPure) (prices : Prices)
    (shouldValidateMinPositionSize shouldValidateMinCollateralUsd : Bool) :
    Result Unit := do
  ensure (¬(position.sizeInUsd = 0 ∨ position.sizeInTokens = 0))
    (.invalidPosition "size_in_usd or size_in_tokens is zero")
  ensure (market.isEnabled = true) (.invalidPosition "invalid or disabled market")
  ensure (¬(shouldValidateMinPositionSize = true ∧
      position.sizeInUsd < market.config.positionParams.minPositionSizeUsd))
    (.invalidPosition "size in usd too small")
  let reason ← position.checkLiquidatable market prices
    shouldValidateMinCollateralUsd
  match reason with
  | some reason => .error (.liquidatable reason)
  | none => .ok ()

/-! ## Updates of the market -/

def updateOpenInterest (position : Position) (market : Market isPure)
    (sizeDeltaUsd sizeDeltaInTokens : ℤ) : Result (Market isPure) :=
  if sizeDeltaUsd = 0 then .ok market
  else do
    let isLong := position.isLong
    let openInterest ← (market.openInterest.get isLong).applyDeltaAmount
      position.isCollateralTokenLong sizeDeltaUsd
    ensure (sizeDeltaUsd ≤ 0 ∨
        ((checkedAdd openInterest.longAmount openInterest.shortAmount).any
          (· ≤ market.config.maxOpenInterest isLong)) = true)
      .maxOpenInterestExceeded
    let inTokens ← (market.openInterestInTokens.get isLong).applyDeltaAmount
      position.isCollateralTokenLong sizeDeltaInTokens
    return { market with
      openInterest := market.openInterest.set isLong openInterest
      openInterestInTokens := market.openInterestInTokens.set isLong inTokens }

def updateTotalBorrowing (position : Position) (market : Market isPure)
    (nextSizeInUsd nextBorrowingFactor : ℕ) : Result (Market isPure) := do
  let previous ←
    okOr (applyFactor position.sizeInUsd position.borrowingFactor)
      (.computation "calculating previous borrowing")
  let next ← okOr (applyFactor nextSizeInUsd nextBorrowingFactor)
    (.computation "calculating next borrowing")
  let delta ← checkedSignedSub next previous
  let totalBorrowing ←
    market.totalBorrowing.applyDeltaAmount position.isLong delta
  return { market with totalBorrowing }

/-- Records the settlement of the position's borrowing and funding fees at the
market's current factors. -/
def settleFees (position : Position) (market : Market isPure)
    (borrowingFactor : ℕ) : Position :=
  { position with
    borrowingFactor := borrowingFactor
    fundingFeeAmountPerSize := market.fundingFeeAmountPerSize position.isLong
      position.isCollateralTokenLong
    claimableFundingFeeAmountPerSize :=
      ⟨market.claimableFundingFeeAmountPerSize position.isLong true,
        market.claimableFundingFeeAmountPerSize position.isLong false⟩ }

end Position

end Gmsol.Model
