import Gmsol.Action.Liquidity
import Gmsol.SwapPath.Execute

/-!
# Operations on a liquidity market

Liquidity is deposited into a market, withdrawn from it, or shifted to another market.
Such an operation works on revertible markets: what it mints and burns is gathered and
takes effect when the operation is committed.
-/

namespace Gmsol.Ops

open Fallible Container Store SwapPath

inductive SwapPricingKind
  | swap
  | deposit
  | withdrawal
  | shift
  deriving DecidableEq, Repr

/-- The fees of a swap; a shift only pays the share of the receiver. -/
def SwapPricingKind.swapFeeParams (kind : SwapPricingKind) (params : Model.FeeParams) :
    Model.FeeParams :=
  match kind with
  | .shift =>
    { positiveImpactFeeFactor := 0
      negativeImpactFeeFactor := 0
      feeReceiverFactor := params.feeReceiverFactor
      discountFactor := none }
  | .swap | .deposit | .withdrawal => params

/-- A market and its token.  The supply in the state of the market is the total supply:
what is to be minted and burned is included. -/
structure RevertibleLiquidityMarket where
  base : RevertibleMarket
  minTokensForFirstDeposit : ℕ
  swapPricing : SwapPricingKind
  toMint : ℕ
  toBurn : ℕ

namespace RevertibleLiquidityMarket

def fromRevertibleMarket (market : RevertibleMarket) (minTokensForFirstDeposit : ℕ) :
    RevertibleLiquidityMarket where
  base := market
  minTokensForFirstDeposit := minTokensForFirstDeposit
  swapPricing := .swap
  toMint := 0
  toBurn := 0

def totalSupply (market : RevertibleLiquidityMarket) : ℕ := market.base.state.totalSupply

/-- The supply of the mint account. -/
def marketTokenSupply (market : RevertibleLiquidityMarket) : ℕ :=
  market.totalSupply + market.toBurn - market.toMint

/-- The state of the market as the actions see it. -/
def priced (market : RevertibleLiquidityMarket) :
    Model.Market market.base.marketMeta.isPure :=
  { market.base.state with
    config := { market.base.state.config with
      swapFeeParams := market.swapPricing.swapFeeParams
        market.base.state.config.swapFeeParams } }

/-- Runs an action, and gathers what it mints and burns. -/
def perform {Report : Type} (market : RevertibleLiquidityMarket)
    (action : Model.Market market.base.marketMeta.isPure →
      Model.Result (Model.Market market.base.marketMeta.isPure × Report)) :
    Store.Result (RevertibleLiquidityMarket × Report) := do
  let done ← (action market.priced).mapError .model
  return ({ market with
    base := { market.base with
      state := { done.1 with config := market.base.state.config } }
    toMint := market.toMint + (done.1.totalSupply - market.totalSupply)
    toBurn := market.toBurn + (market.totalSupply - done.1.totalSupply) }, done.2)

end RevertibleLiquidityMarket

structure DepositActionParams where
  initialLongTokenAmount : ℕ
  initialShortTokenAmount : ℕ
  minMarketTokenAmount : ℕ
  deriving DecidableEq, Repr

structure WithdrawalActionParams where
  marketTokenAmount : ℕ
  minLongTokenAmount : ℕ
  minShortTokenAmount : ℕ
  deriving DecidableEq, Repr

structure ShiftActionParams where
  fromMarketTokenAmount : ℕ
  minToMarketTokenAmount : ℕ
  deriving DecidableEq, Repr

/-- The first deposit goes to one fixed receiver and must be large enough. -/
def validateFirstDeposit (firstDepositReceiver receiver : Pubkey)
    (minAmount minTokensForFirstDeposit : ℕ) (notEnough : CoreError) :
    Store.Result Unit :=
  if minTokensForFirstDeposit = 0 then .ok ()
  else do
    ensure (receiver = firstDepositReceiver) .invalidReceiverForFirstDeposit
    ensure (minTokensForFirstDeposit ≤ minAmount) notEnough

/-- The markets to swap in, besides the current one. -/
def unpackMarketsForSwap (params : SwapActionParams) (currentMarketToken : Pubkey)
    (remainingAccounts : List AccountInfo) : Store.Result (List RevertibleMarket) := do
  let unique := (params.primarySwapPath ++ params.secondarySwapPath).toFinset.erase
    currentMarketToken
  ensure (unique.card ≤ remainingAccounts.length) .accountNotEnoughKeys
  remainingAccounts.mapM unpackMarket

structure Execute where
  swap : Option SwapActionParams
  market : RevertibleLiquidityMarket
  swapMarkets : SwapMarkets

namespace Execute

def swapLoaders (swap : Option SwapActionParams) (currentMarketToken : Pubkey)
    (remainingAccounts : List AccountInfo) : Store.Result (List RevertibleMarket) :=
  match swap with
  | none => .ok []
  | some params => unpackMarketsForSwap params currentMarketToken remainingAccounts

def new (store : Pubkey) (market : RevertibleMarket) (minTokensForFirstDeposit : ℕ)
    (swap : Option SwapActionParams) (remainingAccounts : List AccountInfo) :
    Store.Result Execute := do
  let loaders ← swapLoaders swap market.key remainingAccounts
  let swapMarkets ← SwapMarkets.new store loaders (some market.key)
  return {
    swap
    market := .fromRevertibleMarket market minTokensForFirstDeposit
    swapMarkets }

def marketMeta (op : Execute) : MarketMeta := op.market.base.marketMeta

def withBase (op : Execute) (base : RevertibleMarket) : Execute :=
  { op with market := { op.market with base } }

def withSwapPricingKind (op : Execute) (kind : SwapPricingKind) : Execute :=
  { op with market := { op.market with swapPricing := kind } }

variable [Model.MarketNum] (oracle : SwapPath.Oracle)

/-- Distributes the position impact and updates the borrowing and the funding state. -/
def preExecute (op : Execute) (prices : Model.Prices) : Store.Result Execute := do
  let distributed ← op.market.base.update
    ((Model.DistributePositionImpact.execute op.market.base.state).map Prod.fst)
  let borrowing ← distributed.updateBorrowing prices
  let funding ← borrowing.update
    ((Model.UpdateFundingState.execute borrowing.state prices).map Prod.fst)
  return op.withBase funding

/-! ## Depositing -/

/-- The amounts to deposit: with a swap, those that it pays out. -/
def swapIn (op : Execute) (params : DepositActionParams)
    (initialTokens : Option Pubkey × Option Pubkey) :
    Store.Result (Execute × ℕ × ℕ) :=
  match op.swap with
  | some swap => do
    let swapped ← revertibleSwap oracle op.swapMarkets ⟨true, op.market.base⟩ swap
      (op.marketMeta.longTokenMint, op.marketMeta.shortTokenMint) initialTokens
      (params.initialLongTokenAmount, params.initialShortTokenAmount)
    return ({ op.withBase swapped.direction.currentMarket with
      swapMarkets := swapped.markets },
      swapped.long.elim 0 Output.amount, swapped.short.elim 0 Output.amount)
  | none => do
    ensure (params.initialLongTokenAmount = 0 ∨ initialTokens.1 = none) .invalidArgument
    ensure (params.initialShortTokenAmount = 0 ∨ initialTokens.2 = none) .invalidArgument
    return (op, params.initialLongTokenAmount, params.initialShortTokenAmount)

/-- Only a deposit into a market without market tokens is the first one. -/
def validateFirstDeposit (firstDepositReceiver : Pubkey) (op : Execute) (receiver : Pubkey)
    (params : DepositActionParams) : Store.Result Unit :=
  if op.market.marketTokenSupply = 0 then
    Ops.validateFirstDeposit firstDepositReceiver receiver params.minMarketTokenAmount
      op.market.minTokensForFirstDeposit .notEnoughMarketTokenAmountForFirstDeposit
  else .ok ()

/-- Swaps into the current market and deposits there; returns the market tokens. -/
def uncheckedDeposit (firstDepositReceiver : Pubkey) (op : Execute) (receiver : Pubkey)
    (params : DepositActionParams) (initialTokens : Option Pubkey × Option Pubkey)
    (kind : SwapPricingKind) : Store.Result (Execute × ℕ) := do
  op.validateFirstDeposit firstDepositReceiver receiver params
  let prices ← oracle.marketPrices op.marketMeta
  let prepared ← (op.withSwapPricingKind kind).preExecute prices
  let swapped ← prepared.swapIn oracle params initialTokens
  let deposited ← swapped.1.market.perform
    (Model.Deposit.execute · ⟨swapped.2.1, swapped.2.2, prices⟩)
  deposited.1.base.validateMarketBalances 0 0
  ensure (deposited.2.minted ≤ Model.maxU64) .tokenAmountOverflow
  ensure (params.minMarketTokenAmount ≤ deposited.2.minted) .insufficientOutputAmount
  return ({ swapped.1 with market := deposited.1 }, deposited.2.minted)

/-! ## Withdrawing -/

def swapOut (op : Execute) (finalTokens : Pubkey × Pubkey) (longAmount shortAmount : ℕ) :
    Store.Result (Execute × ℕ × ℕ) :=
  match op.swap with
  | some swap => do
    let swapped ← revertibleSwap oracle op.swapMarkets ⟨false, op.market.base⟩ swap
      finalTokens (some op.marketMeta.longTokenMint, some op.marketMeta.shortTokenMint)
      (longAmount, shortAmount)
    return ({ op.withBase swapped.direction.currentMarket with
      swapMarkets := swapped.markets },
      swapped.long.elim 0 Output.amount, swapped.short.elim 0 Output.amount)
  | none => do
    ensure (finalTokens = (op.marketMeta.longTokenMint, op.marketMeta.shortTokenMint))
      .invalidSwapPath
    return (op, longAmount, shortAmount)

/-- Withdraws from the current market and swaps; returns the final amounts. -/
def uncheckedWithdraw (op : Execute) (params : WithdrawalActionParams)
    (finalTokens : Pubkey × Pubkey) (kind : SwapPricingKind) :
    Store.Result (Execute × ℕ × ℕ) := do
  let prices ← oracle.marketPrices op.marketMeta
  let prepared ← (op.withSwapPricingKind kind).preExecute prices
  let withdrawn ← prepared.market.perform
    (Model.Withdrawal.execute · ⟨params.marketTokenAmount, prices⟩)
  ensure (withdrawn.2.longTokenOutput ≤ Model.maxU64) .tokenAmountOverflow
  ensure (withdrawn.2.shortTokenOutput ≤ Model.maxU64) .tokenAmountOverflow
  withdrawn.1.base.validateMarketBalances withdrawn.2.longTokenOutput
    withdrawn.2.shortTokenOutput
  let swapped ← swapOut oracle { prepared with market := withdrawn.1 } finalTokens
    withdrawn.2.longTokenOutput withdrawn.2.shortTokenOutput
  ensure (params.minLongTokenAmount ≤ swapped.2.1) .insufficientOutputAmount
  ensure (params.minShortTokenAmount ≤ swapped.2.2) .insufficientOutputAmount
  return swapped

/-! ## Shifting -/

/-- The vaults are shared, so that only the records of a token move. -/
def moveRecorded (token : Pubkey) (amount : ℕ) (source target : Execute) :
    Store.Result (Execute × Execute) := do
  let sent ← source.market.base.recordTransferredOutByToken token amount
  let received ← target.market.base.recordTransferredInByToken token amount
  return (source.withBase sent, target.withBase received)

/-- Withdraws from one market and deposits into another one. -/
def uncheckedShift (firstDepositReceiver : Pubkey) (source target : Execute)
    (receiver : Pubkey) (params : ShiftActionParams) :
    Store.Result (Execute × Execute × ℕ) := do
  let longToken := source.marketMeta.longTokenMint
  let shortToken := source.marketMeta.shortTokenMint
  let withdrawn ← source.uncheckedWithdraw oracle ⟨params.fromMarketTokenAmount, 0, 0⟩
    (longToken, shortToken) .shift
  let movedLong ← moveRecorded longToken withdrawn.2.1 withdrawn.1 target
  let moved ← moveRecorded shortToken withdrawn.2.2 movedLong.1 movedLong.2
  let deposited ← moved.2.uncheckedDeposit oracle firstDepositReceiver receiver
    ⟨withdrawn.2.1, withdrawn.2.2, params.minToMarketTokenAmount⟩ (none, none) .shift
  return (moved.1, deposited.1, deposited.2)

end Execute

end Gmsol.Ops
