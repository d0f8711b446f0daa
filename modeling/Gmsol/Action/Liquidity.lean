import Gmsol.Model.LiquidityMarket

/-!
# Deposits and withdrawals

Liquidity providers deposit pool tokens for newly minted market tokens, and
burn market tokens for their share of the pool.
-/

namespace Gmsol.Model

open Gmsol.Fallible

structure DepositParams where
  longTokenAmount : ℕ
  shortTokenAmount : ℕ
  prices : Prices
  deriving DecidableEq, Repr

structure DepositReport where
  minted : ℕ
  priceImpact : ℤ
  longTokenFees : Fees
  shortTokenFees : Fees
  deriving DecidableEq, Repr

namespace DepositParams

def amount (params : DepositParams) (isLongToken : Bool) : ℕ :=
  if isLongToken then params.longTokenAmount else params.shortTokenAmount

end DepositParams

namespace Deposit

variable [MarketNum] {isPure : Bool}

/-- The price impact of the whole deposit and the values of its two parts. -/
def priceImpact (market : Market isPure) (params : DepositParams) :
    Result (ℤ × ℕ × ℕ) := do
  let longDelta ← toSigned params.longTokenAmount
  let shortDelta ← toSigned params.shortTokenAmount
  let longMid ← params.prices.longTokenPrice.mid
  let shortMid ← params.prices.shortTokenPrice.mid
  let delta ← PoolDelta.tryFromDeltaAmounts market.primary.longAmount
    market.primary.shortAmount longDelta shortDelta longMid shortMid
  let priceImpact ← delta.priceImpact market.config.swapImpactParams
  return (priceImpact, delta.deltaLong.natAbs, delta.deltaShort.natAbs)

/-- Market tokens for a usd value at the pool value and supply of the start. -/
def mintFor (usdValue poolValue supply : ℕ) (message : String) : Result ℕ :=
  okOr (usdToMarketTokenAmount usdValue poolValue supply usdToAmountDivisor)
    (.computation message)

/-- The market, the amount left to deposit and the tokens minted so far, after
the price impact of one token has been settled. -/
structure ImpactSettled (isPure : Bool) where
  market : Market isPure
  amount : ℕ
  minted : ℕ

def settlePositiveImpact (market : Market isPure) (params : DepositParams)
    (isLongToken : Bool) (poolValue supply amount : ℕ) (priceImpact : ℤ) :
    Result (ImpactSettled isPure) := do
  let oppositePrice := params.prices.collateralTokenPrice !isLongToken
  let applied ← market.applySwapImpactValueWithCap (!isLongToken) oppositePrice
    priceImpact
  let value ← okOr (checkedMul applied.2 (oppositePrice.pickPrice true)) .overflow
  let minted ← mintFor value poolValue supply "convert positive usd to amount"
  let total ← okOr (checkedAdd 0 minted) .overflow
  let delta ← toSigned applied.2
  let next ← applied.1.applyDelta (!isLongToken) delta
  next.validatePoolAmount !isLongToken
  return ⟨next, amount, total⟩

def settleNegativeImpact (market : Market isPure) (params : DepositParams)
    (isLongToken : Bool) (amount : ℕ) (priceImpact : ℤ) :
    Result (ImpactSettled isPure) := do
  let price := params.prices.collateralTokenPrice isLongToken
  let applied ← market.applySwapImpactValueWithCap isLongToken price priceImpact
  let remaining ← okOr (checkedSub amount applied.2)
    (.computation "deposit: not enough fund to pay negative impact amount")
  return ⟨applied.1, remaining, 0⟩

def settleImpact (market : Market isPure) (params : DepositParams)
    (isLongToken : Bool) (poolValue supply amount : ℕ) (priceImpact : ℤ) :
    Result (ImpactSettled isPure) :=
  if 0 < priceImpact ∧ supply ≠ 0 then
    settlePositiveImpact market params isLongToken poolValue supply amount
      priceImpact
  else if priceImpact < 0 then
    settleNegativeImpact market params isLongToken amount priceImpact
  else .ok ⟨market, amount, 0⟩

def executeDeposit (market : Market isPure) (params : DepositParams)
    (isLongToken : Bool) (poolValue : ℕ) (priceImpact : ℤ) :
    Result (Market isPure × ℕ × Fees) := do
  let supply := market.totalSupply
  ensure (¬(poolValue = 0 ∧ supply ≠ 0)) (.invalidPoolValue "deposit")
  let charged ← okOr (market.config.swapFeeParams.applyFees (0 < priceImpact)
      (params.amount isLongToken))
    (.computation "apply fees")
  let fees := charged.2
  let receiverDelta ← toSigned fees.feeAmountForReceiver
  let withFees ← market.applyDeltaToClaimableFeePool isLongToken receiverDelta
  let settled ← settleImpact withFees params isLongToken poolValue supply
    charged.1 priceImpact
  let price := params.prices.collateralTokenPrice isLongToken
  let value ← okOr (checkedMul settled.amount (price.pickPrice false)) .overflow
  let minted ← mintFor value poolValue supply "convert negative usd to amount"
  let mintAmount ← okOr (checkedAdd settled.minted minted) .overflow
  let poolAmount ← okOr (checkedAdd settled.amount fees.feeAmountForPool)
    .overflow
  let delta ← toSigned poolAmount
  let next ← settled.market.applyDelta isLongToken delta
  next.validatePoolAmount isLongToken
  next.validatePoolValueForDeposit params.prices isLongToken
  return (next, mintAmount, fees)

/-- Deposits one of the two tokens with its share of the price impact; a zero
amount is skipped. -/
def executeSide (market : Market isPure) (params : DepositParams)
    (isLongToken : Bool) (poolValue : ℕ) (priceImpact : ℤ)
    (usdValue totalLong totalShort : ℕ) (minted : ℕ) (message : String) :
    Result (Market isPure × ℕ × Fees) :=
  if params.amount isLongToken = 0 then .ok (market, minted, .zero)
  else do
    let total ← okOr (checkedAdd totalLong totalShort) .overflow
    let share ←
      okOr (checkedMulDivWithSignedNumerator usdValue priceImpact total)
        (.computation message)
    let deposited ← executeDeposit market params isLongToken poolValue share
    let mintedAfter ← okOr (checkedAdd minted deposited.2.1) .overflow
    return (deposited.1, mintedAfter, deposited.2.2)

def tryNew (params : DepositParams) : Result Unit :=
  ensure (¬(params.longTokenAmount = 0 ∧ params.shortTokenAmount = 0))
    .emptyDeposit

def execute (market : Market isPure) (params : DepositParams) :
    Result (Market isPure × DepositReport) := do
  tryNew params
  market.validateMaxPnl params.prices .maxAfterDeposit .maxAfterDeposit
  let impact ← priceImpact market params
  let poolValue ← market.poolValue params.prices .maxAfterDeposit true
  ensure (0 ≤ poolValue)
    (.invalidPoolValue "deposit: current pool value is negative")
  let afterLong ← executeSide market params true poolValue.natAbs impact.1
    impact.2.1 impact.2.1 impact.2.2 0 "price impact for long"
  let afterShort ← executeSide afterLong.1 params false poolValue.natAbs
    impact.1 impact.2.2 impact.2.1 impact.2.2 afterLong.2.1
    "price impact for short"
  let next ← afterShort.1.mint afterShort.2.1
  return (next, {
    minted := afterShort.2.1
    priceImpact := impact.1
    longTokenFees := afterLong.2.2
    shortTokenFees := afterShort.2.2 })

end Deposit

structure WithdrawParams where
  marketTokenAmount : ℕ
  prices : Prices
  deriving DecidableEq, Repr

structure WithdrawReport where
  longTokenFees : Fees
  shortTokenFees : Fees
  longTokenOutput : ℕ
  shortTokenOutput : ℕ
  deriving DecidableEq, Repr

namespace Withdrawal

variable [MarketNum] {isPure : Bool}

/-- The share of a token that a withdrawn value is paid with. -/
def tokenAmountFor (marketTokenValue tokenValue totalValue price : ℕ)
    (message : String) : Result ℕ :=
  okOr (do
      let value ← checkedMulDiv marketTokenValue tokenValue totalValue
      checkedDiv value price)
    (.computation message)

def outputAmounts (market : Market isPure) (params : WithdrawParams) :
    Result (ℕ × ℕ) := do
  let poolValue ← market.poolValue params.prices .maxAfterWithdrawal false
  ensure (0 ≤ poolValue)
    (.invalidPoolValue "withdrawal: current pool value is negative")
  ensure (poolValue ≠ 0)
    (.invalidPoolValue "withdrawal: current pool value is zero")
  let longValue ← market.poolValueWithoutPnlForOneSide params.prices true true
  let shortValue ← market.poolValueWithoutPnlForOneSide params.prices false true
  let total ← okOr (checkedAdd longValue shortValue)
    (.computation "calculating total liquidity pool value")
  let marketTokenValue ← okOr (marketTokenAmountToUsd params.marketTokenAmount
      poolValue.natAbs market.totalSupply)
    (.computation "amount to usd")
  let longAmount ← tokenAmountFor marketTokenValue longValue total
    (params.prices.longTokenPrice.pickPrice true) "long token amount"
  let shortAmount ← tokenAmountFor marketTokenValue shortValue total
    (params.prices.shortTokenPrice.pickPrice true) "short token amount"
  return (longAmount, shortAmount)

def chargeFees (market : Market isPure) (amount : ℕ) : Result (ℕ × Fees) :=
  okOr (market.config.swapFeeParams.applyFees false amount)
    (.computation "apply fees")

/-- Moves the receiver's fee of one token to the claimable fee pool. -/
def creditReceiver (market : Market isPure) (isLongToken : Bool) (fees : Fees) :
    Result (Market isPure) := do
  let delta ← toSigned fees.feeAmountForReceiver
  market.applyDeltaToClaimableFeePool isLongToken delta

/-- Takes what leaves the liquidity pool: the output and the receiver's fee. -/
def takeOutput (market : Market isPure) (isLongToken : Bool) (fees : Fees)
    (amount : ℕ) : Result (Market isPure) := do
  let leaving ← okOr (checkedAdd fees.feeAmountForReceiver amount) .overflow
  let delta ← toOppositeSigned leaving
  market.applyDelta isLongToken delta

def tryNew (params : WithdrawParams) : Result Unit := do
  ensure (params.marketTokenAmount ≠ 0) .emptyWithdrawal
  params.prices.validate

def execute (market : Market isPure) (params : WithdrawParams) :
    Result (Market isPure × WithdrawReport) := do
  tryNew params
  let amounts ← outputAmounts market params
  let long ← chargeFees market amounts.1
  let short ← chargeFees market amounts.2
  let withLongFee ← creditReceiver market true long.2
  let withFees ← creditReceiver withLongFee false short.2
  let withoutLong ← takeOutput withFees true long.2 long.1
  let withoutShort ← takeOutput withoutLong false short.2 short.1
  withoutShort.validateReserve params.prices true
  withoutShort.validateReserve params.prices false
  withoutShort.validateMaxPnl params.prices .maxAfterWithdrawal
    .maxAfterWithdrawal
  let next ← withoutShort.burn params.marketTokenAmount
  return (next, {
    longTokenFees := long.2
    shortTokenFees := short.2
    longTokenOutput := long.1
    shortTokenOutput := short.1 })

end Withdrawal

end Gmsol.Model
