import Gmsol.Traits.Market

/-!
# Swaps over the market interface

A swap computes its three pools, lets a view of the market with these pools
judge them, and only then writes them, one after the other.  The program stops
where a pool that was read cannot be written.
-/

namespace Gmsol.Traits

open Gmsol.Fallible Gmsol.Model

namespace Swap

variable [MarketNum] {M P : Type} [PoolOps P]

/-- The view of a market with three pools of its own. -/
structure Cache (P : Type) where
  market : BaseMarket P
  liquidity : P
  swapImpact : P
  claimableFee : P

/-- The answers of the view: its own pools, and the market's for all else. -/
def Cache.toBaseMarket (cache : Cache P) : BaseMarket P where
  liquidityPool := .ok cache.liquidity
  claimableFeePool := .ok cache.claimableFee
  swapImpactPool := .ok cache.swapImpact
  openInterestPool isLong := cache.market.openInterestPool isLong
  openInterestInTokensPool isLong := cache.market.openInterestInTokensPool isLong
  collateralSumPool isLong := cache.market.collateralSumPool isLong
  usdToAmountDivisor := cache.market.usdToAmountDivisor
  maxPoolAmount isLongToken := cache.market.maxPoolAmount isLongToken
  pnlFactorConfig kind isLong := cache.market.pnlFactorConfig kind isLong
  reserveFactor := cache.market.reserveFactor
  openInterestReserveFactor := cache.market.openInterestReserveFactor
  maxOpenInterest isLong := cache.market.maxOpenInterest isLong
  ignoreOpenInterestForUsageFactor := cache.market.ignoreOpenInterestForUsageFactor

/-- The impact pool after the swap and the amounts that move. -/
structure Amounts (P : Type) where
  swapImpact : P
  tokenInAmount : ℕ
  tokenOutAmount : ℕ
  poolAmountOut : ℕ
  priceImpactAmount : ℕ

def cappedDiffTokenInAmount (market : SwapMarket P) (params : SwapParams)
    (tokenInPrice : Price) (cappedDiffValue : ℕ) : Result ℤ :=
  if cappedDiffValue = 0 then .ok 0
  else do
    let value ← toSigned cappedDiffValue
    let capped ←
      market.swapImpactAmountWithCap params.isTokenInLong tokenInPrice value
    return capped.1

def addCappedDiff (amountAfterFees : ℕ) (cappedDiffValue : ℕ) (diffAmount : ℤ) :
    Result ℕ :=
  if cappedDiffValue = 0 then .ok amountAfterFees
  else
    okOr (checkedAdd amountAfterFees diffAmount.natAbs)
      (.computation "swap: adding capped diff amount")

def amountsForPositiveImpact (market : SwapMarket P) (params : SwapParams)
    (values : Swap.ReassignedValues) (priceImpact : ℤ) (amountAfterFees : ℕ) :
    Result (Amounts P) := do
  let deductSide := !params.isTokenInLong
  let capped ←
    market.swapImpactAmountWithCap deductSide values.tokenOutPrice priceImpact
  let diffAmount ←
    cappedDiffTokenInAmount market params values.tokenInPrice capped.2
  let tokenInAmount ← addCappedDiff amountAfterFees capped.2 diffAmount
  let pool ← market.swapImpactPool
  let impactDelta ← okOr (signedNeg capped.1)
    (.computation "negating positive price impact amount ")
  let diffDelta ← okOr (signedNeg diffAmount)
    (.computation "negating capped diff amount ")
  let swapImpact ← PoolOps.checkedApplyDelta pool
    (.newBothSides deductSide impactDelta diffDelta)
  let poolAmountOut ← okOr (checkedMulDiv tokenInAmount
      (values.tokenInPrice.pickPrice false) (values.tokenOutPrice.pickPrice true))
    (.computation "pool amount out for positive impact")
  let tokenOutAmount ← okOr (checkedAdd poolAmountOut capped.1.natAbs)
    (.computation "token out amount for positive impact")
  return ⟨swapImpact, tokenInAmount, tokenOutAmount, poolAmountOut, capped.1.natAbs⟩

def amountsForNegativeImpact (market : SwapMarket P) (params : SwapParams)
    (values : Swap.ReassignedValues) (priceImpact : ℤ) (amountAfterFees : ℕ) :
    Result (Amounts P) := do
  let deductSide := params.isTokenInLong
  let capped ←
    market.swapImpactAmountWithCap deductSide values.tokenInPrice priceImpact
  let pool ← market.swapImpactPool
  let impactDelta ← okOr (signedNeg capped.1)
    (.computation "negating negative price impact amount ")
  let swapImpact ← PoolOps.checkedApplyDelta pool (.newOneSide deductSide impactDelta)
  let tokenInAmount ← okOr (checkedSub amountAfterFees capped.1.natAbs)
    (.computation "swap: not enough fund to pay price impact")
  ensure (tokenInAmount ≠ 0)
    (.computation "swap: not enough fund to pay price impact")
  let tokenOutAmount ← okOr (checkedMulDiv tokenInAmount
      (values.tokenInPrice.pickPrice false) (values.tokenOutPrice.pickPrice true))
    (.computation "token out amount for negative impact")
  return ⟨swapImpact, tokenInAmount, tokenOutAmount, tokenOutAmount, capped.1.natAbs⟩

def amounts (market : SwapMarket P) (params : SwapParams)
    (values : Swap.ReassignedValues) (priceImpact : ℤ) (amountAfterFees : ℕ) :
    Result (Amounts P) :=
  if 0 < priceImpact then
    amountsForPositiveImpact market params values priceImpact amountAfterFees
  else amountsForNegativeImpact market params values priceImpact amountAfterFees

def priceImpact (market : SwapMarket P) (params : SwapParams)
    (values : Swap.ReassignedValues) : Result ℤ := do
  let pool ← market.liquidityPool
  let longMid ← params.prices.longTokenPrice.mid
  let shortMid ← params.prices.shortTokenPrice.mid
  let delta ← SwapMarket.poolDeltaWithValues pool values.longTokenDeltaValue
    values.shortTokenDeltaValue longMid shortMid
  let impactParams ← market.swapImpactParams
  delta.priceImpact impactParams

def chargeFees (market : SwapMarket P) (params : SwapParams)
    (isPositiveImpact : Bool) : Result (ℕ × Fees) := do
  let feeParams ← market.swapFeeParams
  okOr (feeParams.applyFees isPositiveImpact params.tokenInAmount)
    (.computation "apply fees")

/-- The checks that judge the pools of the view. -/
def Cache.validate (cache : Cache P) (params : SwapParams)
    (values : Swap.ReassignedValues) : Result Unit := do
  cache.toBaseMarket.validatePoolAmount params.isTokenInLong
  cache.toBaseMarket.validateReserve params.prices !params.isTokenInLong
  cache.toBaseMarket.validateMaxPnl params.prices values.longPnlFactorKind
    values.shortPnlFactorKind

def tryExecute (market : SwapMarket P) (params : SwapParams) :
    Result (Cache P × SwapReport) := do
  let values ← Swap.reassignValues params
  let priceImpact ← priceImpact market params values
  let charged ← chargeFees market params (0 < priceImpact)
  let fees := charged.2
  let claimableFeePool ← market.claimableFeePool
  let receiverDelta ← toSigned fees.feeAmountForReceiver
  let claimableFee ← PoolOps.checkedApplyDelta claimableFeePool
    (.newOneSide params.isTokenInLong receiverDelta)
  let amounts ← amounts market params values priceImpact charged.1
  let liquidityPool ← market.liquidityPool
  let poolIn ← okOr (checkedAdd amounts.tokenInAmount fees.feeAmountForPool)
    .overflow
  let inDelta ← toSigned poolIn
  let outDelta ← toOppositeSigned amounts.poolAmountOut
  let liquidity ← PoolOps.checkedApplyDelta liquidityPool
    (.newBothSides params.isTokenInLong inDelta outDelta)
  let cache : Cache P :=
    ⟨market.toBaseMarket, liquidity, amounts.swapImpact, claimableFee⟩
  cache.validate params values
  return (cache, {
    tokenInFees := fees
    tokenOutAmount := amounts.tokenOutAmount
    priceImpactValue := priceImpact
    priceImpactAmount := amounts.priceImpactAmount })

/-- Writes a pool; the program stops where the pool cannot be written. -/
def expectWrite (place : Result (P → M)) (pool : P) : Option M :=
  match place with
  | .ok write => some (write pool)
  | .error _ => none

/-- The writes of a swap that has succeeded. -/
def writePools (interface : SwapMarketMut M P) (market : M) (cache : Cache P) :
    Option M := do
  let market ← expectWrite (interface.liquidityPoolMut market) cache.liquidity
  let market ← expectWrite (interface.swapImpactPoolMut market) cache.swapImpact
  expectWrite (interface.claimableFeePoolMut market) cache.claimableFee

/-- The market after the execution and its result, unless the program stops. -/
def execute (interface : SwapMarketMut M P) (market : M) (params : SwapParams) :
    Option (M × Result SwapReport) :=
  match tryExecute (interface.read market) params with
  | .error (.panic _) => none
  | .error error => some (market, .error error)
  | .ok (cache, report) =>
      (writePools interface market cache).map fun after => (after, .ok report)

/-- A swap is created with valid parameters only, and then executed. -/
def swap (interface : SwapMarketMut M P) (market : M) (params : SwapParams) :
    Option (M × Result SwapReport) :=
  match Swap.tryNew params with
  | .error error => some (market, .error error)
  | .ok () => execute interface market params

end Swap

end Gmsol.Traits
