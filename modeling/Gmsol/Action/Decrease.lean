import Gmsol.Action.CollateralProcessor
import Gmsol.Action.Increase

/-!
# Decreasing a position

A decrease closes a part of a position, settles its profit, losses and fees
with the collateral processor and pays the outputs.  A position of which no
size is left is removed together with its collateral.
-/

namespace Gmsol.Model

open Gmsol.Fallible

structure DecreasePositionFlags where
  isInsolventCloseAllowed : Bool
  isLiquidationOrder : Bool
  isCapSizeDeltaUsdAllowed : Bool
  deriving DecidableEq, Repr

structure DecreasePositionParams where
  prices : Prices
  initialSizeDeltaUsd : ℕ
  acceptablePrice : Option ℕ
  initialCollateralWithdrawalAmount : ℕ
  flags : DecreasePositionFlags
  swap : DecreasePositionSwapType
  deriving DecidableEq, Repr

/-- The action while it is checked: its parameters, and the size and
withdrawal that are left after the checks so far. -/
structure DecreaseOrder where
  params : DecreasePositionParams
  sizeDeltaUsd : ℕ
  withdrawableCollateralAmount : ℕ
  deriving DecidableEq, Repr

structure DecreasePositionReport where
  priceImpactValue : ℤ
  priceImpactDiff : ℕ
  executionPrice : ℕ
  sizeDeltaInTokens : ℕ
  withdrawableCollateralAmount : ℕ
  initialSizeDeltaUsd : ℕ
  sizeDeltaUsd : ℕ
  fees : PositionFees
  pnl : ℤ
  uncappedPnl : ℤ
  insolventCloseStep : Option InsolventCloseStep
  shouldRemove : Bool
  isOutputTokenLong : Bool
  isSecondaryOutputTokenLong : Bool
  outputAmount : ℕ
  secondaryOutputAmount : ℕ
  forHolding : ClaimableCollateral
  forUser : ClaimableCollateral
  fundingPaidInCollateral : ℕ
  deriving DecidableEq, Repr

namespace DecreasePositionFlags

/-- Caps the size delta; an insolvent close must be a full close. -/
def init (flags : DecreasePositionFlags) (sizeInUsd sizeDeltaUsd : ℕ) :
    Result (DecreasePositionFlags × ℕ) := do
  let capped ← (
    if sizeDeltaUsd > sizeInUsd then
      if flags.isCapSizeDeltaUsdAllowed then .ok sizeInUsd
      else .error (.invalidArgument "invalid decrease order size")
    else .ok sizeDeltaUsd)
  return ({ flags with
    isInsolventCloseAllowed :=
      decide (sizeInUsd = capped) && flags.isInsolventCloseAllowed }, capped)

end DecreasePositionFlags

namespace DecreasePosition

variable [MarketNum] {isPure : Bool}

def tryNew (position : Position) (params : DecreasePositionParams) :
    Result DecreaseOrder := do
  params.prices.validate
  ensure (position.isEmpty = false) (.invalidPosition "empty position")
  let capped ← params.flags.init position.sizeInUsd params.initialSizeDeltaUsd
  return {
    params := { params with flags := capped.1 }
    sizeDeltaUsd := capped.2
    withdrawableCollateralAmount :=
      min params.initialCollateralWithdrawalAmount position.collateralAmount }

/-! ## Checks -/

/-- The remaining collateral value and the withdrawal that is kept: nothing is
withdrawn when the collateral would not be sufficient. -/
def withdrawalOf (position : Position) (order : DecreaseOrder)
    (sufficient : WillCollateralBeSufficient) : Result (ℤ × ℕ) :=
  match sufficient with
  | .sufficient value => .ok (value, order.withdrawableCollateralAmount)
  | .insufficient value => do
    ensure (order.sizeDeltaUsd ≠ 0) (.invalidArgument
      "unable to withdraw collateral: insufficient collateral")
    let addBackValue ← okOr (checkedMul order.withdrawableCollateralAmount
        ((position.collateralPrice order.params.prices).pickPrice false))
      (.computation "overflow calculating add back")
    let addBack ← toSigned addBackValue
    let remaining ← okOr (signedAdd value addBack) (.computation "adding back")
    return (remaining, 0)

/-- Closes everything when the remaining collateral or size is too small. -/
def closeAllIfTooSmall (position : Position) (market : Market isPure)
    (remainingValue : ℤ) (sizeDeltaUsd : ℕ) : Result ℕ := do
  let params := market.config.positionParams
  let minCollateralValue ← toSigned params.minCollateralValue
  let byCollateral :=
    if remainingValue < minCollateralValue then position.sizeInUsd
    else sizeDeltaUsd
  return if position.sizeInUsd > byCollateral ∧
      position.sizeInUsd - byCollateral < params.minPositionSizeUsd
    then position.sizeInUsd else byCollateral

def checkPartialClose (position : Position) (market : Market isPure)
    (order : DecreaseOrder) : Result DecreaseOrder :=
  if order.sizeDeltaUsd < position.sizeInUsd then do
    let pnl ← position.pnlValue market order.params.prices position.sizeInUsd
    let estimatedRealizedPnl ← okOr (checkedMulDivWithSignedNumerator
        order.sizeDeltaUsd pnl.1 position.sizeInUsd)
      (.computation "estimating realized pnl")
    let estimatedRemainingPnl ← okOr (signedSub pnl.1 estimatedRealizedPnl)
      (.computation "estimating remaining pnl")
    let nextSizeInUsd ← okOr (checkedSub position.sizeInUsd order.sizeDeltaUsd)
      (.panic "should have been capped")
    let nextCollateralAmount ←
      okOr (checkedSub position.collateralAmount
          order.withdrawableCollateralAmount)
        (.panic "should have been capped")
    let openInterestDelta ← toOppositeSigned order.sizeDeltaUsd
    let sufficient ← position.willCollateralBeSufficient market
      order.params.prices ⟨nextSizeInUsd, nextCollateralAmount,
        estimatedRealizedPnl, openInterestDelta⟩
    let withdrawal ← withdrawalOf position order sufficient
    let remainingValue ← okOr (signedAdd withdrawal.1 estimatedRemainingPnl)
      (.computation "calculating remaining value")
    let sizeDeltaUsd ←
      closeAllIfTooSmall position market remainingValue order.sizeDeltaUsd
    return { order with
      sizeDeltaUsd, withdrawableCollateralAmount := withdrawal.2 }
  else .ok order

/-- A full close does not need a withdrawal. -/
def checkClose (position : Position) (order : DecreaseOrder) : DecreaseOrder :=
  if order.sizeDeltaUsd = position.sizeInUsd ∧
      order.withdrawableCollateralAmount ≠ 0 then
    { order with withdrawableCollateralAmount := 0 }
  else order

/-- No swap is needed when profit is paid in the collateral token. -/
def checkSwap (position : Position) (isPure : Bool) (order : DecreaseOrder) :
    DecreaseOrder :=
  if order.params.swap ≠ .noSwap ∧
      position.arePnlAndCollateralTokensTheSame isPure = true then
    { order with params := { order.params with swap := .noSwap } }
  else order

def checkLiquidation (position : Position) (market : Market isPure)
    (order : DecreaseOrder) : Result Unit :=
  if order.params.flags.isLiquidationOrder then do
    let reason ← position.checkLiquidatable market order.params.prices true
    ensure (reason.isSome = true) .notLiquidatable
  else .ok ()

/-- The order after all checks. -/
def checkedOrder (market : Market isPure) (position : Position)
    (params : DecreasePositionParams) : Result DecreaseOrder := do
  let order ← tryNew position params
  let partiallyChecked ← checkPartialClose position market order
  let checked := checkSwap position isPure (checkClose position partiallyChecked)
  checkLiquidation position market checked
  return checked

/-! ## Execution price -/

def adjustedExecutionPrice (executionPrice sizeInUsd sizeInTokens
    sizeDeltaUsd : ℕ) (priceImpactValue : ℤ) (isLong : Bool) : Result ℕ :=
  if sizeDeltaUsd ≠ 0 ∧ sizeInTokens ≠ 0 then do
    let adjustedImpact ← (
      if isLong then .ok priceImpactValue
      else
        okOr (signedSub 0 priceImpactValue)
          (.computation "price impact too large"))
    ensure (¬(adjustedImpact < 0 ∧ adjustedImpact.natAbs > sizeDeltaUsd))
      (.computation "price impact larger than order size")
    let signedSizeInTokens ← toSigned sizeInTokens
    let scaled ← okOr (checkedMulDivWithSignedNumerator sizeInUsd adjustedImpact
        sizeDeltaUsd)
      (.computation "calculating execution price adjustment")
    let adjustment ← okOr (signedDiv scaled signedSizeInTokens)
      (.computation "calculating adjustment")
    okOr (checkedAddWithSigned executionPrice adjustment)
      (.computation "adjusting execution price")
  else .ok executionPrice

def getExecutionPriceForDecrease (indexPrice : Price) (sizeInUsd sizeInTokens
    sizeDeltaUsd : ℕ) (priceImpactValue : ℤ) (acceptablePrice : Option ℕ)
    (isLong : Bool) : Result ℕ := do
  let executionPrice ← adjustedExecutionPrice (indexPrice.pickPrice !isLong)
    sizeInUsd sizeInTokens sizeDeltaUsd priceImpactValue isLong
  match acceptablePrice with
  | none => return executionPrice
  | some acceptable =>
    ensure ((isLong = true ∧ executionPrice ≥ acceptable) ∨
        (isLong = false ∧ executionPrice ≤ acceptable))
      (.invalidArgument "order not fulfillable at acceptable price")
    return executionPrice

/-- Returns `(priceImpactValue, priceImpactDiff, executionPrice)`. -/
def getExecutionParams (position : Position) (market : Market isPure)
    (order : DecreaseOrder) : Result (ℤ × ℕ × ℕ) :=
  let indexTokenPrice := order.params.prices.indexTokenPrice
  if order.sizeDeltaUsd = 0 then
    .ok (0, 0, indexTokenPrice.pickPrice !position.isLong)
  else do
    let sizeDelta ← toOppositeSigned order.sizeDeltaUsd
    let impact ← position.cappedPositionPriceImpact market indexTokenPrice
      sizeDelta
    let executionPrice ← getExecutionPriceForDecrease indexTokenPrice
      position.sizeInUsd position.sizeInTokens order.sizeDeltaUsd impact.1
      order.params.acceptablePrice position.isLong
    return (impact.1, impact.2, executionPrice)

/-! ## Processing the collateral -/

open CollateralProcessor

def contextOf (position : Position) (isPure : Bool) (prices : Prices) :
    Context where
  prices := prices
  isOutputTokenLong := position.isCollateralTokenLong
  isPnlTokenLong := position.isLong
  arePnlAndCollateralTokensTheSame :=
    position.arePnlAndCollateralTokensTheSame isPure

def initialState (market : Market isPure) (position : Position)
    (fees : PositionFees) : State isPure where
  market := market
  funds := ⟨0, position.collateralAmount, 0⟩
  forHolding := .zero
  forUser := .zero
  fees := fees
  fundingPaidInCollateral := 0

/-- What the collateral processor is started with. -/
structure Prepared where
  settlement : Settlement
  executionPrice : ℕ
  uncappedPnl : ℤ
  sizeDeltaInTokens : ℕ
  fees : PositionFees

def prepare (market : Market isPure) (position : Position)
    (order : DecreaseOrder) : Result Prepared := do
  let execution ← getExecutionParams position market order
  let pnl ← position.pnlValue market order.params.prices order.sizeDeltaUsd
  let fees ← position.positionFees market
    (position.collateralPrice order.params.prices) order.sizeDeltaUsd
    (0 < execution.1) order.params.flags.isLiquidationOrder
  return {
    settlement := ⟨pnl.1, execution.1, execution.2.1, order.params.swap⟩
    executionPrice := execution.2.2
    uncappedPnl := pnl.2.1
    sizeDeltaInTokens := pnl.2.2
    fees := fees }

/-- The withdrawal that is left once the price impact difference is taken off
and the remaining collateral is respected. -/
def withdrawableAfter (position : Position) (order : DecreaseOrder)
    (priceImpactDiff remainingCollateralAmount : ℕ) : Result ℕ := do
  let withdrawable := order.withdrawableCollateralAmount
  let adjusted ← (
    if withdrawable ≠ 0 ∧ priceImpactDiff ≠ 0 then do
      let diffAmount ← okOr (checkedDiv priceImpactDiff
          ((position.collateralPrice order.params.prices).pickPrice false))
        (.computation "calculating diff amount")
      if withdrawable > diffAmount then
        okOr (checkedSub withdrawable diffAmount)
          (.computation "calculating new withdrawable amount")
      else .ok 0
    else .ok withdrawable)
  return min adjusted remainingCollateralAmount

/-- Moves the withdrawal from the collateral to the output. -/
def withdraw (funds : Funds) (withdrawable : ℕ) : Result Funds :=
  if withdrawable = 0 then .ok funds
  else do
    let remaining ←
      okOr (checkedSub funds.remainingCollateralAmount withdrawable)
        (.panic "must be success")
    let output ← okOr (checkedAdd funds.outputAmount withdrawable)
      (.computation "overflow occurred while adding withdrawable amount")
    return { funds with
      outputAmount := output, remainingCollateralAmount := remaining }

/-- The settled collateral. -/
structure ProcessCollateralResult (isPure : Bool) where
  prepared : Prepared
  state : State isPure
  insolventCloseStep : Option InsolventCloseStep
  withdrawableCollateralAmount : ℕ

def processCollateral (market : Market isPure) (position : Position)
    (order : DecreaseOrder) : Result (ProcessCollateralResult isPure) := do
  let prepared ← prepare market position order
  let outcome ← process (contextOf position isPure order.params.prices)
    prepared.settlement order.params.flags.isInsolventCloseAllowed
    (initialState market position prepared.fees)
  let withdrawable ← withdrawableAfter position order
    prepared.settlement.priceImpactDiff
    outcome.1.funds.remainingCollateralAmount
  let funds ← withdraw outcome.1.funds withdrawable
  return ⟨prepared, { outcome.1 with funds }, outcome.2, withdrawable⟩

/-! ## Updating position and market -/

/-- The next position and the output amount: removal pays the remaining
collateral out. -/
def nextPosition (position : Position) (sizeInUsd sizeDeltaInTokens : ℕ)
    (funds : Funds) : Result (Position × ℕ × Bool) := do
  let sizeInTokens ← okOr (checkedSub position.sizeInTokens sizeDeltaInTokens)
    (.computation "calculating next size in tokens")
  if sizeInUsd = 0 ∨ sizeInTokens = 0 then
    let output ← okOr (checkedAdd funds.outputAmount
        funds.remainingCollateralAmount)
      (.computation "calculating output amount")
    return ({ position with
      sizeInUsd := 0, sizeInTokens := 0, collateralAmount := 0 }, output, true)
  else
    return ({ position with
      sizeInUsd, sizeInTokens
      collateralAmount := funds.remainingCollateralAmount },
      funds.outputAmount, false)

def updateCollateralSum (market : Market isPure) (position : Position)
    (nextCollateralAmount : ℕ) : Result (Market isPure) := do
  let decrease ←
    okOr (checkedSub position.collateralAmount nextCollateralAmount)
      (.computation "collateral amount increased")
  let delta ← toOppositeSigned decrease
  let collateralSum ← (market.collateralSum.get position.isLong).applyDeltaAmount
    position.isCollateralTokenLong delta
  return { market with
    collateralSum := market.collateralSum.set position.isLong collateralSum }

def onDecreased (position : Position) (market : Market isPure) :
    Result (Market isPure × Position) := do
  let next ← market.nextTradeId
  return (next, { position with
    updatedAtSlot := market.clock.slot
    decreasedAt := market.clock.unixTimestamp
    tradeId := next.tradeCount })

/-- The market and position after the sizes have been updated, with the output
amount and whether the position is removed. -/
structure Updated (isPure : Bool) where
  market : Market isPure
  position : Position
  outputAmount : ℕ
  shouldRemove : Bool

def updateSizes (position : Position) (order : DecreaseOrder)
    (processed : ProcessCollateralResult isPure) : Result (Updated isPure) := do
  let market := processed.state.market
  let nextSizeInUsd ← okOr (checkedSub position.sizeInUsd order.sizeDeltaUsd)
    (.computation "calculating next position size in usd")
  let nextBorrowingFactor := market.cumulativeBorrowingFactor position.isLong
  let withBorrowing ← position.updateTotalBorrowing market nextSizeInUsd
    nextBorrowingFactor
  let next ← nextPosition position nextSizeInUsd
    processed.prepared.sizeDeltaInTokens processed.state.funds
  let withCollateral ←
    updateCollateralSum withBorrowing position next.1.collateralAmount
  let settled := next.1.settleFees withCollateral nextBorrowingFactor
  let sizeDelta ← toOppositeSigned order.sizeDeltaUsd
  let tokensDelta ← toOppositeSigned processed.prepared.sizeDeltaInTokens
  let withInterest ←
    settled.updateOpenInterest withCollateral sizeDelta tokensDelta
  return ⟨withInterest, settled, next.2.1, next.2.2⟩

/-- Swaps the output to the pnl token; a failing swap is reported and otherwise
ignored. -/
def swapCollateralTokenToPnlToken (market : Market isPure)
    (position : Position) (prices : Prices) (swap : DecreasePositionSwapType)
    (outputAmount secondaryOutputAmount : ℕ) :
    Result (Market isPure × ℕ × ℕ) :=
  if outputAmount ≠ 0 ∧ swap = .collateralToPnlToken then do
    ensure (position.isCollateralTokenLong ≠ position.isLong)
      (.invalidArgument "swap collateral: swap is not required")
    match Swap.execute market
        ⟨position.isCollateralTokenLong, outputAmount, prices⟩ with
    | .ok swapped =>
      let secondary ←
        okOr (checkedAdd secondaryOutputAmount swapped.2.tokenOutAmount)
          (.computation
            "swap collateral: overflow occurred while adding token_out_amount")
      return (swapped.1, 0, secondary)
    | .error (.panic message) => .error (.panic message)
    | .error _ => return (market, outputAmount, secondaryOutputAmount)
  else .ok (market, outputAmount, secondaryOutputAmount)

/-- Merges the outputs when both are paid in the same token. -/
def mergeOutputs (position : Position) (isPure : Bool)
    (outputAmount secondaryOutputAmount : ℕ) : Result (ℕ × ℕ) :=
  if position.arePnlAndCollateralTokensTheSame isPure = true ∧
      secondaryOutputAmount ≠ 0 then do
    let merged ← okOr (checkedAdd outputAmount secondaryOutputAmount)
      (.computation
        "overflow occurred while merging the secondary output amount")
    return (merged, 0)
  else .ok (outputAmount, secondaryOutputAmount)

def validateUpdated (updated : Updated isPure) (prices : Prices) :
    Result Unit :=
  if updated.shouldRemove then .ok ()
  else updated.position.validate updated.market prices false false

def report (position : Position) (order : DecreaseOrder)
    (processed : ProcessCollateralResult isPure) (updated : Updated isPure)
    (outputs : ℕ × ℕ) : DecreasePositionReport where
  priceImpactValue := processed.prepared.settlement.priceImpact
  priceImpactDiff := processed.prepared.settlement.priceImpactDiff
  executionPrice := processed.prepared.executionPrice
  sizeDeltaInTokens := processed.prepared.sizeDeltaInTokens
  withdrawableCollateralAmount := processed.withdrawableCollateralAmount
  initialSizeDeltaUsd := order.params.initialSizeDeltaUsd
  sizeDeltaUsd := order.sizeDeltaUsd
  fees := processed.state.fees
  pnl := processed.prepared.settlement.pnl
  uncappedPnl := processed.prepared.uncappedPnl
  insolventCloseStep := processed.insolventCloseStep
  shouldRemove := updated.shouldRemove
  isOutputTokenLong := position.isCollateralTokenLong
  isSecondaryOutputTokenLong := position.isLong
  outputAmount := outputs.1
  secondaryOutputAmount := outputs.2
  forHolding := processed.state.forHolding
  forUser := processed.state.forUser
  fundingPaidInCollateral := processed.state.fundingPaidInCollateral

def execute (market : Market isPure) (position : Position)
    (params : DecreasePositionParams) :
    Result (Market isPure × Position × DecreasePositionReport) := do
  let order ← checkedOrder market position params
  let processed ← processCollateral market position order
  let updated ← updateSizes position order processed
  validateUpdated updated order.params.prices
  let stamped ← onDecreased updated.position updated.market
  let swapped ← swapCollateralTokenToPnlToken stamped.1 position
    order.params.prices order.params.swap updated.outputAmount
    processed.state.funds.secondaryOutputAmount
  let outputs ← mergeOutputs position isPure swapped.2.1 swapped.2.2
  return (swapped.1, stamped.2,
    report position order processed updated outputs)

end DecreasePosition

end Gmsol.Model
