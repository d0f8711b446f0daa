import Gmsol.Ops.TransferOut

/-!
# Executing a decrease order

The position is decreased, the output is swapped along the path of the order, and
the amounts to transfer out are gathered.  The balances of the market are checked
at the end with these amounts excluded; they are still in the market then.
-/

namespace Gmsol.Ops

open Fallible Container Store SwapPath

inductive OrderKind
  | liquidation
  | autoDeleveraging
  | marketSwap
  | marketIncrease
  | marketDecrease
  | limitSwap
  | limitIncrease
  | limitDecrease
  | stopLossDecrease
  deriving DecidableEq, Repr

structure OrderActionParams where
  kind : OrderKind
  isLong : Bool
  decreasePositionSwapType : Model.DecreasePositionSwapType
  initialCollateralDeltaAmount : ℕ
  sizeDeltaValue : ℕ
  minOutput : ℕ
  acceptablePrice : ℕ
  deriving DecidableEq, Repr

/-- The tokens of the token accounts of an order. -/
structure OrderTokenAccounts where
  finalOutputToken : Option Pubkey
  longToken : Option Pubkey
  shortToken : Option Pubkey
  deriving DecidableEq, Repr

structure Order where
  params : OrderActionParams
  swap : SwapActionParams
  tokens : OrderTokenAccounts

inductive SecondaryOrderType
  | liquidation
  | autoDeleveraging
  deriving DecidableEq, Repr

namespace Order

/-- The pnl token. -/
def secondaryOutputToken (order : Order) : Store.Result Pubkey :=
  okOr (if order.params.isLong then order.tokens.longToken else order.tokens.shortToken)
    .missingPoolTokens

def validateOutputAmount (order : Order) (outputAmount : ℕ) : Store.Result Unit :=
  ensure (order.params.minOutput ≤ outputAmount) .insufficientOutputAmount

section

variable [Model.MarketNum]

def saturatingAdd (left right : ℕ) : ℕ := min (left + right) Model.maxUnsigned

def saturatingMul (left right : ℕ) : ℕ := min (left * right) Model.maxUnsigned

/-- The minimum output of a decrease order is a value. -/
def validateDecreaseOutputAmounts (order : Order) (oracle : SwapPath.Oracle)
    (outputToken : Pubkey) (outputAmount : ℕ) (secondaryOutputToken : Pubkey)
    (secondaryOutputAmount : ℕ) : Store.Result Unit := do
  let price ← oracle.getPrimaryPrice outputToken false
  let secondaryPrice ← oracle.getPrimaryPrice secondaryOutputToken false
  order.validateOutputAmount (saturatingAdd (saturatingMul outputAmount price.min)
    (saturatingMul secondaryOutputAmount secondaryPrice.min))

end

end Order

section Execute

variable [Model.MarketNum] (oracle : SwapPath.Oracle) (prices : Model.Prices)

/-! ## Decreasing -/

def pnlFactor (market : RevertibleMarket) (isLong : Bool) : Store.Result ℤ :=
  ((market.state.pnlFactorWithPoolValue prices isLong true).map Prod.fst).mapError .model

/-- The pnl factor of an auto-deleveraging order, which is only allowed while the
factor is too high. -/
def validateAdlRequired (market : RevertibleMarket) (order : Order) :
    Store.Result ℤ := do
  let exceeded ← (market.state.pnlFactorExceeded prices .forAdl
    order.params.isLong).mapError .model
  ensure (exceeded = true) .adlNotRequired
  pnlFactor prices market order.params.isLong

/-- The order must lower the factor, but not too far. -/
def validateAdl (market : RevertibleMarket) (order : Order) (before : ℤ) :
    Store.Result Unit := do
  let after ← pnlFactor prices market order.params.isLong
  ensure (after < before) .invalidAdl
  let minPnlFactor ← (Model.toSigned
    (market.state.config.pnlFactorConfig .minAfterAdl order.params.isLong)).mapError .model
  ensure (minPnlFactor ≤ after) .invalidAdl

/-- A decreased position with its market. -/
structure Decreased where
  market : RevertibleMarket
  position : Model.Position
  report : Model.DecreasePositionReport

def decreaseParams (order : Order) (isInsolventCloseAllowed : Bool)
    (secondaryOrderType : Option SecondaryOrderType) : Model.DecreasePositionParams where
  prices := prices
  initialSizeDeltaUsd := order.params.sizeDeltaValue
  acceptablePrice := some order.params.acceptablePrice
  initialCollateralWithdrawalAmount := order.params.initialCollateralDeltaAmount
  flags :=
    { isInsolventCloseAllowed
      isLiquidationOrder := secondaryOrderType = some .liquidation
      isCapSizeDeltaUsdAllowed :=
        order.params.kind = .limitDecrease ∨ order.params.kind = .stopLossDecrease }
  swap := order.params.decreasePositionSwapType

def decreasePosition (market : RevertibleMarket) (position : Model.Position)
    (params : Model.DecreasePositionParams) : Store.Result Decreased :=
  ((Model.DecreasePosition.execute market.state position params).mapError .model).map
    fun done => ⟨{ market with state := done.1 }, done.2.1, done.2.2⟩

/-- The checks of a liquidation and of an auto-deleveraging stand around the
decrease. -/
def decrease (market : RevertibleMarket) (position : Model.Position) (order : Order)
    (isInsolventCloseAllowed : Bool) (secondaryOrderType : Option SecondaryOrderType) :
    Store.Result Decreased := do
  let params := decreaseParams prices order isInsolventCloseAllowed secondaryOrderType
  match secondaryOrderType with
  | none => decreasePosition market position params
  | some .liquidation => do
    ensure (position.sizeInUsd ≤ order.params.sizeDeltaValue) .invalidArgument
    decreasePosition market position params
  | some .autoDeleveraging => do
    let before ← validateAdlRequired prices market order
    let decreased ← decreasePosition market position params
    validateAdl prices decreased.market order before
    return decreased

/-! ## The outputs -/

/-- The tokens in which the outputs are: the secondary output is in the other token. -/
def outputTokens (marketMeta : MarketMeta) (report : Model.DecreasePositionReport) :
    Option Pubkey × Option Pubkey :=
  (some (marketMeta.pnlToken report.isOutputTokenLong),
    some (marketMeta.pnlToken !report.isOutputTokenLong))

/-- The amount of an output of a swap. -/
def amountOf (output : Option Output) : ℕ := output.elim 0 Output.amount

/-- Swaps the output token to the expected one. -/
def swapOutputs (decreased : Decreased) (swapMarkets : SwapMarkets) (order : Order) :
    Store.Result Swapped := do
  let report := decreased.report
  ensure (report.secondaryOutputAmount = 0 ∨
    report.isOutputTokenLong ≠ report.isSecondaryOutputTokenLong)
    .sameOutputTokensNotMerged
  let outputAmount ← toAmount report.outputAmount
  let secondaryOutputAmount ← toAmount report.secondaryOutputAmount
  let finalOutputToken ← okOr order.tokens.finalOutputToken .missingFinalOutputToken
  let secondaryOutputToken ← order.secondaryOutputToken
  let swapped ← revertibleSwap oracle swapMarkets ⟨false, decreased.market⟩ order.swap
    (finalOutputToken, secondaryOutputToken)
    (outputTokens decreased.market.marketMeta report)
    (outputAmount, secondaryOutputAmount)
  order.validateDecreaseOutputAmounts oracle finalOutputToken (amountOf swapped.long)
    secondaryOutputToken (amountOf swapped.short)
  return swapped

omit [Model.MarketNum] in
/-- Gathers all amounts that are to be transferred out. -/
def gatherTransfers (transferOut : TransferOut) (swapped : Swapped)
    (report : Model.DecreasePositionReport) : Store.Result TransferOut := do
  let withFinal ← transferOut.transferOut false (amountOf swapped.long)
  let withSecondary ← withFinal.transferOut true (amountOf swapped.short)
  let withFunding ← withSecondary.transferOutFundingAmounts
    report.fees.funding.claimableLongTokenAmount
    report.fees.funding.claimableShortTokenAmount
  withFunding.processClaimableCollateralForDecrease report

/-! ## The balance check -/

omit [Model.MarketNum] in
def addToAmount (isLongToken : Bool) (amount : ℕ) (excluded : ℕ × ℕ) :
    Store.Result (ℕ × ℕ) :=
  if isLongToken then do
    let long ← addAmount excluded.1 amount
    return (long, excluded.2)
  else do
    let short ← addAmount excluded.2 amount
    return (excluded.1, short)

omit [Model.MarketNum] in
/-- The market in which an output of the order is after the swap. -/
def outputMarket (order : Order) (current : Pubkey) (isPrimary : Bool) : Pubkey :=
  (order.swap.lastMarketToken isPrimary).getD current

omit [Model.MarketNum] in
/-- The final output is excluded when it is in this market. -/
def excludeFinalOutput (transferOut : TransferOut) (order : Order)
    (marketMeta : MarketMeta) (excluded : ℕ × ℕ) : Store.Result (ℕ × ℕ) :=
  if transferOut.finalOutputToken ≠ 0 ∧
      outputMarket order marketMeta.marketTokenMint true = marketMeta.marketTokenMint then do
    let token ← okOr order.tokens.finalOutputToken .missingFinalOutputToken
    let isLongToken ← marketMeta.toTokenSide token
    addToAmount isLongToken transferOut.finalOutputToken excluded
  else .ok excluded

omit [Model.MarketNum] in
def excludeSecondaryOutput (transferOut : TransferOut) (order : Order)
    (marketMeta : MarketMeta) (excluded : ℕ × ℕ) : Store.Result (ℕ × ℕ) :=
  if transferOut.secondaryOutputToken ≠ 0 ∧
      outputMarket order marketMeta.marketTokenMint false = marketMeta.marketTokenMint then
    addToAmount order.params.isLong transferOut.secondaryOutputToken excluded
  else .ok excluded

omit [Model.MarketNum] in
/-- The amounts that the balance check excludes. -/
def excludedAmounts (transferOut : TransferOut) (order : Order)
    (marketMeta : MarketMeta) : Store.Result (ℕ × ℕ) := do
  let longTransferOut ← transferOut.totalLongTokenAmount
  let shortTransferOut ← transferOut.totalShortTokenAmount
  let withFinal ← excludeFinalOutput transferOut order marketMeta
    (longTransferOut, shortTransferOut)
  excludeSecondaryOutput transferOut order marketMeta withFinal

/-- What the execution of a decrease order leaves behind. -/
structure DecreaseOutcome where
  market : RevertibleMarket
  position : Model.Position
  swapMarkets : SwapMarkets
  transferOut : TransferOut
  shouldRemovePosition : Bool
  paidOrderFeeValue : ℕ

def executeDecreasePosition (market : RevertibleMarket) (position : Model.Position)
    (swapMarkets : SwapMarkets) (transferOut : TransferOut) (order : Order)
    (isInsolventCloseAllowed : Bool) (secondaryOrderType : Option SecondaryOrderType) :
    Store.Result DecreaseOutcome := do
  let decreased ← decrease prices market position order isInsolventCloseAllowed
    secondaryOrderType
  let swapped ← swapOutputs oracle decreased swapMarkets order
  let gathered ← gatherTransfers transferOut swapped decreased.report
  let current := swapped.direction.currentMarket
  let excluded ← excludedAmounts gathered order current.marketMeta
  current.validateMarketBalances excluded.1 excluded.2
  return {
    market := current
    position := decreased.position
    swapMarkets := swapped.markets
    transferOut := gathered
    shouldRemovePosition := decreased.report.shouldRemove
    paidOrderFeeValue := decreased.report.fees.paidOrderFeeValue }

end Execute

end Gmsol.Ops
