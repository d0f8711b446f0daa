import Gmsol.Model.LiquidityMarket

/-!
# Swaps

A swap takes one token in, charges fees and price impact, and pays the other
token out.  All pools are computed before any is written, so the market of the
result is either the swapped one or the action failed without a trace.
-/

namespace Gmsol.Model

open Gmsol.Fallible

structure SwapParams where
  isTokenInLong : Bool
  tokenInAmount : ℕ
  prices : Prices
  deriving DecidableEq, Repr

structure SwapReport where
  tokenInFees : Fees
  tokenOutAmount : ℕ
  priceImpactValue : ℤ
  priceImpactAmount : ℕ
  deriving DecidableEq, Repr

namespace Swap

variable [MarketNum] {isPure : Bool}

/-- The roles of the two tokens in a swap. -/
structure ReassignedValues where
  longTokenDeltaValue : ℤ
  shortTokenDeltaValue : ℤ
  tokenInPrice : Price
  tokenOutPrice : Price
  longPnlFactorKind : PnlFactorKind
  shortPnlFactorKind : PnlFactorKind

def reassignValues (params : SwapParams) : Result ReassignedValues :=
  if params.isTokenInLong then do
    let mid ← params.prices.longTokenPrice.mid
    let value ← okOr (checkedMul params.tokenInAmount mid)
      (.computation "long delta value")
    let longDeltaValue ← toSigned value
    let opposite ← okOr (signedNeg longDeltaValue)
      (.computation "negating long delta value")
    return {
      longTokenDeltaValue := longDeltaValue
      shortTokenDeltaValue := opposite
      tokenInPrice := params.prices.longTokenPrice
      tokenOutPrice := params.prices.shortTokenPrice
      longPnlFactorKind := .maxAfterDeposit
      shortPnlFactorKind := .maxAfterWithdrawal }
  else do
    let mid ← params.prices.shortTokenPrice.mid
    let value ← okOr (checkedMul params.tokenInAmount mid)
      (.computation "short delta value")
    let shortDeltaValue ← toSigned value
    let opposite ← okOr (signedNeg shortDeltaValue)
      (.computation "negating short delta value")
    return {
      longTokenDeltaValue := opposite
      shortTokenDeltaValue := shortDeltaValue
      tokenInPrice := params.prices.shortTokenPrice
      tokenOutPrice := params.prices.longTokenPrice
      longPnlFactorKind := .maxAfterWithdrawal
      shortPnlFactorKind := .maxAfterDeposit }

/-- The impact pool after the swap and the amounts that move. -/
structure Amounts (isPure : Bool) where
  swapImpact : Pool isPure
  tokenInAmount : ℕ
  tokenOutAmount : ℕ
  poolAmountOut : ℕ
  priceImpactAmount : ℕ

/-- What the impact pool of the token in adds when the impact pool of the token
out cannot pay the whole positive impact. -/
def cappedDiffTokenInAmount (market : Market isPure) (params : SwapParams)
    (tokenInPrice : Price) (cappedDiffValue : ℕ) : Result ℤ :=
  if cappedDiffValue = 0 then .ok 0
  else do
    let value ← toSigned cappedDiffValue
    let capped ←
      market.swapImpactAmountWithCap params.isTokenInLong tokenInPrice value
    return capped.1

def amountsForPositiveImpact (market : Market isPure) (params : SwapParams)
    (values : ReassignedValues) (priceImpact : ℤ) (amountAfterFees : ℕ) :
    Result (Amounts isPure) := do
  let deductSide := !params.isTokenInLong
  let capped ←
    market.swapImpactAmountWithCap deductSide values.tokenOutPrice priceImpact
  let diffAmount ←
    cappedDiffTokenInAmount market params values.tokenInPrice capped.2
  let tokenInAmount ← (
    if capped.2 = 0 then .ok amountAfterFees
    else
      okOr (checkedAdd amountAfterFees diffAmount.natAbs)
        (.computation "swap: adding capped diff amount"))
  let impactDelta ← okOr (signedNeg capped.1)
    (.computation "negating positive price impact amount ")
  let diffDelta ← okOr (signedNeg diffAmount)
    (.computation "negating capped diff amount ")
  let swapImpact ← market.swapImpact.checkedApplyDelta
    (.newBothSides deductSide impactDelta diffDelta)
  let poolAmountOut ← okOr (checkedMulDiv tokenInAmount
      (values.tokenInPrice.pickPrice false) (values.tokenOutPrice.pickPrice true))
    (.computation "pool amount out for positive impact")
  let tokenOutAmount ← okOr (checkedAdd poolAmountOut capped.1.natAbs)
    (.computation "token out amount for positive impact")
  return ⟨swapImpact, tokenInAmount, tokenOutAmount, poolAmountOut,
    capped.1.natAbs⟩

def amountsForNegativeImpact (market : Market isPure) (params : SwapParams)
    (values : ReassignedValues) (priceImpact : ℤ) (amountAfterFees : ℕ) :
    Result (Amounts isPure) := do
  let deductSide := params.isTokenInLong
  let capped ←
    market.swapImpactAmountWithCap deductSide values.tokenInPrice priceImpact
  let impactDelta ← okOr (signedNeg capped.1)
    (.computation "negating negative price impact amount ")
  let swapImpact ← market.swapImpact.checkedApplyDelta
    (.newOneSide deductSide impactDelta)
  let tokenInAmount ← okOr (checkedSub amountAfterFees capped.1.natAbs)
    (.computation "swap: not enough fund to pay price impact")
  ensure (tokenInAmount ≠ 0)
    (.computation "swap: not enough fund to pay price impact")
  let tokenOutAmount ← okOr (checkedMulDiv tokenInAmount
      (values.tokenInPrice.pickPrice false) (values.tokenOutPrice.pickPrice true))
    (.computation "token out amount for negative impact")
  return ⟨swapImpact, tokenInAmount, tokenOutAmount, tokenOutAmount,
    capped.1.natAbs⟩

def amounts (market : Market isPure) (params : SwapParams)
    (values : ReassignedValues) (priceImpact : ℤ) (amountAfterFees : ℕ) :
    Result (Amounts isPure) :=
  if 0 < priceImpact then
    amountsForPositiveImpact market params values priceImpact amountAfterFees
  else
    amountsForNegativeImpact market params values priceImpact amountAfterFees

def priceImpact (market : Market isPure) (params : SwapParams)
    (values : ReassignedValues) : Result ℤ := do
  let longMid ← params.prices.longTokenPrice.mid
  let shortMid ← params.prices.shortTokenPrice.mid
  let delta ← PoolDelta.tryNew market.primary.longAmount
    market.primary.shortAmount values.longTokenDeltaValue
    values.shortTokenDeltaValue longMid shortMid
  delta.priceImpact market.config.swapImpactParams

/-- The checks that judge the pools after the swap. -/
def validateAfter (market : Market isPure) (params : SwapParams)
    (values : ReassignedValues) : Result Unit := do
  market.validatePoolAmount params.isTokenInLong
  market.validateReserve params.prices !params.isTokenInLong
  market.validateMaxPnl params.prices values.longPnlFactorKind
    values.shortPnlFactorKind

def tryExecute (market : Market isPure) (params : SwapParams) :
    Result (Market isPure × SwapReport) := do
  let values ← reassignValues params
  let priceImpact ← priceImpact market params values
  let charged ← okOr (market.config.swapFeeParams.applyFees
      (0 < priceImpact) params.tokenInAmount)
    (.computation "apply fees")
  let fees := charged.2
  let receiverDelta ← toSigned fees.feeAmountForReceiver
  let claimableFee ← market.claimableFee.checkedApplyDelta
    (.newOneSide params.isTokenInLong receiverDelta)
  let amounts ← amounts market params values priceImpact charged.1
  let poolIn ← okOr (checkedAdd amounts.tokenInAmount fees.feeAmountForPool)
    .overflow
  let inDelta ← toSigned poolIn
  let outDelta ← toOppositeSigned amounts.poolAmountOut
  let primary ← market.primary.checkedApplyDelta
    (.newBothSides params.isTokenInLong inDelta outDelta)
  let next := { market with
    primary, swapImpact := amounts.swapImpact, claimableFee }
  validateAfter next params values
  return (next, {
    tokenInFees := fees
    tokenOutAmount := amounts.tokenOutAmount
    priceImpactValue := priceImpact
    priceImpactAmount := amounts.priceImpactAmount })

def tryNew (params : SwapParams) : Result Unit := do
  ensure (params.tokenInAmount ≠ 0) .emptySwap
  params.prices.validate

def execute (market : Market isPure) (params : SwapParams) :
    Result (Market isPure × SwapReport) := do
  tryNew params
  tryExecute market params

end Swap

end Gmsol.Model
