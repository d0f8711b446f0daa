import Gmsol.Ops.LiquidityMarket

/-!
# Liquidity vaults

A liquidity vault holds market tokens of several markets that share their long and short
tokens.  Its value is the sum of what the recorded balances are worth.  Deposits mint
tokens of the vault, withdrawals burn them, and shifts move liquidity between two markets.
-/

namespace Gmsol.Ops

open Fallible Container Store SwapPath

structure GlvMarketConfig where
  maxAmount : ℕ
  maxValue : ℕ
  balance : ℕ
  deriving DecidableEq, Repr

namespace GlvMarketConfig

variable [Model.MarketNum]

def validateMaxValue (config : GlvMarketConfig) (newBalance : ℕ) (marketPoolValue : ℤ)
    (marketTokenSupply : ℕ) : Store.Result Unit :=
  if config.maxValue = 0 then .ok ()
  else do
    ensure (0 ≤ marketPoolValue) .glvNegativeMarketPoolValue
    let value ← okOr (Model.marketTokenAmountToUsd newBalance marketPoolValue.natAbs
      marketTokenSupply) .failedToCalculateGlvValueForMarket
    ensure (value ≤ config.maxValue) .exceedMaxGlvMarketTokenBalanceValue

/-- A maximum of zero does not bind. -/
def validateBalance (config : GlvMarketConfig) (newBalance : ℕ) (marketPoolValue : ℤ)
    (marketTokenSupply : ℕ) : Store.Result Unit := do
  ensure (config.maxAmount = 0 ∨ newBalance ≤ config.maxAmount)
    .exceedMaxGlvMarketTokenBalanceAmount
  config.validateMaxValue newBalance marketPoolValue marketTokenSupply

end GlvMarketConfig

structure Glv where
  glvToken : Pubkey
  longToken : Pubkey
  shortToken : Pubkey
  shiftLastExecutedAt : ℤ
  minTokensForFirstDeposit : ℕ
  shiftMinIntervalSecs : ℕ
  shiftMaxPriceImpactFactor : ℕ
  shiftMinValue : ℕ
  markets : IndexMap Pubkey GlvMarketConfig

namespace Glv

def marketConfig (glv : Glv) (marketToken : Pubkey) : Store.Result GlvMarketConfig :=
  okOr (glv.markets.get marketToken) .notFound

/-- The recorded balance of a market token. -/
def balance (glv : Glv) (marketToken : Pubkey) : ℕ :=
  (glv.markets.get marketToken).elim 0 GlvMarketConfig.balance

def updateMarketTokenBalance (glv : Glv) (marketToken : Pubkey) (newBalance : ℕ) :
    Store.Result Glv := do
  let config ← glv.marketConfig marketToken
  return { glv with
    markets := glv.markets.set marketToken { config with balance := newBalance } }

/-- The time stamps are signed 64-bit numbers. -/
def validateShiftInterval (glv : Glv) (now : ℤ) : Store.Result Unit :=
  if glv.shiftMinIntervalSecs = 0 then .ok ()
  else do
    ensure (glv.shiftLastExecutedAt + glv.shiftMinIntervalSecs < 2 ^ 63) .valueOverflow
    ensure (glv.shiftLastExecutedAt + glv.shiftMinIntervalSecs ≤ now)
      .glvShiftIntervalNotYetPassed

def validateShiftValue (glv : Glv) (fromMarketTokenValue : ℕ) : Store.Result Unit :=
  ensure (glv.shiftMinValue ≤ fromMarketTokenValue) .glvShiftValueNotLargeEnough

def updateShiftLastExecutedTs (glv : Glv) (now : ℤ) : Glv :=
  { glv with shiftLastExecutedAt := now }

variable [Model.MarketNum]

def validateMarketTokenBalance (glv : Glv) (marketToken : Pubkey) (newBalance : ℕ)
    (marketPoolValue : ℤ) (marketTokenSupply : ℕ) : Store.Result Unit := do
  let config ← glv.marketConfig marketToken
  config.validateBalance newBalance marketPoolValue marketTokenSupply

def validateShiftPriceImpact (glv : Glv) (fromMarketTokenValue toMarketTokenValue : ℕ) :
    Store.Result Unit :=
  if fromMarketTokenValue < toMarketTokenValue then .ok ()
  else do
    let factor ← okOr (Model.divToFactor (fromMarketTokenValue - toMarketTokenValue)
      fromMarketTokenValue false) .internal
    ensure (factor ≤ glv.shiftMaxPriceImpactFactor) .glvShiftMaxPriceImpactExceeded

end Glv

/-! ## Values -/

section Value

variable [Model.MarketNum] (oracle : SwapPath.Oracle)

/-- What a market is worth to the vault. -/
structure MarketValue where
  value : ℕ
  poolValue : ℤ
  supply : ℕ

def getGlvValueForMarket (prices : Model.Prices) (market : RevertibleMarket)
    (balance : ℕ) (maximize : Bool) : Store.Result MarketValue := do
  let value ← (market.state.poolValue prices .maxAfterDeposit maximize).mapError .model
  let supply := market.state.totalSupply
  if balance = 0 then return ⟨0, value, supply⟩
  else do
    ensure (0 ≤ value) .glvNegativeMarketPoolValue
    let glvValue ← okOr (Model.marketTokenAmountToUsd balance value.natAbs supply)
      .failedToCalculateGlvValueForMarket
    return ⟨glvValue, value, supply⟩

/-- The prices with that of the index token of a market; it must exist. -/
def newIndexPrice (prices : Model.Prices) (market : RevertibleMarket) :
    Store.Result Model.Prices := do
  let indexTokenPrice ←
    (oracle.getPrimaryPrice market.marketMeta.indexTokenMint true).mapError fun _ => .panic
  return { prices with indexTokenPrice }

def getGlvValueForMarketWithNewIndexPrice (prices : Model.Prices)
    (market : RevertibleMarket) (balance : ℕ) (maximize : Bool) :
    Store.Result MarketValue := do
  let prices ← newIndexPrice oracle prices market
  getGlvValueForMarket prices market balance maximize

/-- A market of the vault as the operation sees it. -/
def Execute.marketFor (op : Execute) (stored : RevertibleMarket) : RevertibleMarket :=
  if stored.key = op.market.base.key then op.market.base
  else (op.swapMarkets.get stored.key).getD stored

def addMarketValue (glv : Glv) (op : Execute) (prices : Model.Prices) (maximize : Bool)
    (value : ℕ) (stored : RevertibleMarket) : Store.Result ℕ := do
  let config ← glv.marketConfig stored.key
  let added ← getGlvValueForMarketWithNewIndexPrice oracle prices (op.marketFor stored)
    config.balance maximize
  okOr (Model.checkedAdd value added.value) .valueOverflow

/-- The value of the vault, with the balances that are recorded before the operation. -/
def uncheckedGetGlvValue (glv : Glv) (op : Execute) (glvMarkets : List RevertibleMarket)
    (maximize : Bool) : Store.Result ℕ := do
  let prices ← oracle.marketPrices op.marketMeta
  glvMarkets.foldlM (addMarketValue oracle glv op prices maximize) 0

def getMarketTokenAmountForGlvValue (market : RevertibleMarket) (glvValue : ℕ)
    (maximize : Bool) : Store.Result ℕ := do
  let prices ← (oracle.marketPrices market.marketMeta).mapError fun _ => .panic
  let value ← (market.state.poolValue prices .maxAfterWithdrawal maximize).mapError .model
  ensure (0 ≤ value) .glvNegativeMarketPoolValue
  okOr (Model.usdToMarketTokenAmount glvValue value.natAbs market.state.totalSupply
    Model.usdToAmountDivisor) .failedToCalculateMarketTokenAmountToBurn

end Value

/-! ## Operations -/

/-- The vault, the supply of its token and the token accounts it has for market tokens. -/
structure GlvState where
  glv : Glv
  supply : ℕ
  vaults : Pubkey → ℕ

def GlvState.receive (state : GlvState) (marketToken : Pubkey) (amount : ℕ) : GlvState :=
  { state with
    vaults := Function.update state.vaults marketToken (state.vaults marketToken + amount) }

def GlvState.send (state : GlvState) (marketToken : Pubkey) (amount : ℕ) : GlvState :=
  { state with
    vaults := Function.update state.vaults marketToken (state.vaults marketToken - amount) }

/-- The accounts of an operation in the current market of the vault. -/
structure GlvAccounts where
  store : Pubkey
  firstDepositReceiver : Pubkey
  market : RevertibleMarket
  minTokensForFirstDeposit : ℕ
  glvMarkets : List RevertibleMarket
  remainingAccounts : List AccountInfo

def GlvAccounts.op (accounts : GlvAccounts) (swap : SwapActionParams) :
    Store.Result Execute :=
  Execute.new accounts.store accounts.market accounts.minTokensForFirstDeposit (some swap)
    accounts.remainingAccounts

section Deposit

structure GlvDeposit where
  receiver : Pubkey
  glvToken : Pubkey
  initialLongToken : Option Pubkey
  initialShortToken : Option Pubkey
  deposit : DepositActionParams
  marketTokenAmount : ℕ
  minGlvTokenAmount : ℕ
  swap : SwapActionParams

namespace GlvDeposit

def isMarketDepositRequired (deposit : GlvDeposit) : Bool :=
  deposit.deposit.initialLongTokenAmount ≠ 0 || deposit.deposit.initialShortTokenAmount ≠ 0

/-- The token of the mint is that of the vault. -/
def validateForExecution (deposit : GlvDeposit) (firstDepositReceiver : Pubkey)
    (state : GlvState) : Store.Result Unit := do
  ensure (state.glv.glvToken = deposit.glvToken) .tokenMintMismatched
  if state.supply = 0 then
    validateFirstDeposit firstDepositReceiver deposit.receiver deposit.minGlvTokenAmount
      state.glv.minTokensForFirstDeposit .notEnoughGlvTokenAmountForFirstDeposit
  else .ok ()

def validateBeforeExecution (deposit : GlvDeposit) (state : GlvState)
    (accounts : GlvAccounts) (marketTokenSource : ℕ) : Store.Result Unit := do
  accounts.market.validate accounts.store
  deposit.validateForExecution accounts.firstDepositReceiver state
  ensure (deposit.marketTokenAmount ≤ marketTokenSource) .notEnoughTokenAmount

end GlvDeposit

variable [Model.MarketNum] (oracle : SwapPath.Oracle)

/-- Market tokens may only be put into the vault while they could be withdrawn. -/
def validateMarketTokens (deposit : GlvDeposit) (op : Execute) : Store.Result Unit :=
  if deposit.marketTokenAmount = 0 then .ok ()
  else do
    let prices ← oracle.marketPrices op.marketMeta
    (op.market.base.state.validateMaxPnl prices .maxAfterWithdrawal
      .maxAfterWithdrawal).mapError .model

/-- The deposit into the market; returns the market tokens of the whole deposit. -/
def depositIntoMarket (deposit : GlvDeposit) (firstDepositReceiver : Pubkey)
    (op : Execute) : Store.Result (Execute × ℕ) :=
  if deposit.isMarketDepositRequired then do
    let executed ← op.uncheckedDeposit oracle firstDepositReceiver deposit.receiver
      deposit.deposit (deposit.initialLongToken, deposit.initialShortToken) .deposit
    ensure (deposit.marketTokenAmount + executed.2 ≤ Model.maxU64) .tokenAmountOverflow
    return (executed.1, deposit.marketTokenAmount + executed.2)
  else .ok (op, deposit.marketTokenAmount)

/-- The tokens of the vault to mint for market tokens that it receives. -/
def glvAmountToMint (state : GlvState) (op : Execute) (glvMarkets : List RevertibleMarket)
    (marketTokenAmount nextMarketTokenBalance : ℕ) : Store.Result ℕ := do
  let glvValue ← uncheckedGetGlvValue oracle state.glv op glvMarkets true
  let prices ← oracle.marketPrices op.marketMeta
  let prices ← newIndexPrice oracle prices op.market.base
  let received ← getGlvValueForMarket prices op.market.base marketTokenAmount false
  let maximized ← getGlvValueForMarket prices op.market.base marketTokenAmount true
  state.glv.validateMarketTokenBalance op.market.base.key nextMarketTokenBalance
    maximized.poolValue maximized.supply
  let glvAmount ← okOr (Model.usdToMarketTokenAmount received.value glvValue state.supply
    Model.usdToAmountDivisor) .failedToCalculateGlvAmountToMint
  ensure (glvAmount ≤ Model.maxU64) .tokenAmountOverflow
  return glvAmount

/-- A deposit that was executed. -/
structure GlvDeposited where
  state : GlvState
  executed : Execute
  glvAmount : ℕ

/-- The tokens that the market mints go to the token account of the vault. -/
def performGlvDeposit (state : GlvState) (deposit : GlvDeposit) (accounts : GlvAccounts)
    (marketTokenSource : ℕ) : Store.Result GlvDeposited := do
  deposit.validateBeforeExecution state accounts marketTokenSource
  let op ← accounts.op deposit.swap
  validateMarketTokens oracle deposit op
  let executed ← depositIntoMarket oracle deposit accounts.firstDepositReceiver op
  let marketToken := executed.1.market.base.key
  let config ← state.glv.marketConfig marketToken
  let nextBalance := config.balance + executed.2
  ensure (nextBalance ≤ Model.maxU64) .tokenAmountOverflow
  let glvAmount ← glvAmountToMint oracle state executed.1 accounts.glvMarkets executed.2
    nextBalance
  ensure (deposit.minGlvTokenAmount ≤ glvAmount) .insufficientOutputAmount
  let glv ← state.glv.updateMarketTokenBalance marketToken nextBalance
  ensure (state.supply + glvAmount ≤ Model.maxU64) .panic
  let committed := GlvState.receive { state with glv } marketToken executed.1.market.toMint
  let received := committed.receive marketToken deposit.marketTokenAmount
  return ⟨{ received with supply := state.supply + glvAmount }, executed.1, glvAmount⟩

end Deposit

section Withdrawal

structure GlvWithdrawal where
  finalLongToken : Pubkey
  finalShortToken : Pubkey
  glvTokenAmount : ℕ
  minFinalLongTokenAmount : ℕ
  minFinalShortTokenAmount : ℕ
  swap : SwapActionParams

variable [Model.MarketNum] (oracle : SwapPath.Oracle)

/-- The market tokens to withdraw for tokens of the vault. -/
def marketTokenAmountToWithdraw (state : GlvState) (op : Execute)
    (glvMarkets : List RevertibleMarket) (glvTokenAmount : ℕ) : Store.Result ℕ := do
  let glvValue ← uncheckedGetGlvValue oracle state.glv op glvMarkets false
  let marketTokenValue ← okOr (Model.marketTokenAmountToUsd glvTokenAmount glvValue
    state.supply) .failedToCalculateGlvValueForMarket
  let amount ← getMarketTokenAmountForGlvValue oracle op.market.base marketTokenValue true
  ensure (amount ≤ Model.maxU64) .tokenAmountOverflow
  return amount

structure GlvWithdrawn where
  state : GlvState
  executed : Execute
  finalAmounts : ℕ × ℕ

/-- The tokens of the vault are burned after the commitment. -/
def performGlvWithdrawal (state : GlvState) (withdrawal : GlvWithdrawal)
    (accounts : GlvAccounts) : Store.Result GlvWithdrawn := do
  accounts.market.validate accounts.store
  let op ← accounts.op withdrawal.swap
  let marketToken := op.market.base.key
  let amount ← marketTokenAmountToWithdraw oracle state op accounts.glvMarkets
    withdrawal.glvTokenAmount
  ensure (amount ≤ state.vaults marketToken) .notEnoughTokenAmount
  let executed ← op.uncheckedWithdraw oracle
    ⟨amount, withdrawal.minFinalLongTokenAmount, withdrawal.minFinalShortTokenAmount⟩
    (withdrawal.finalLongToken, withdrawal.finalShortToken) .withdrawal
  let config ← state.glv.marketConfig marketToken
  ensure (amount ≤ config.balance) .notEnoughTokenAmount
  let glv ← state.glv.updateMarketTokenBalance marketToken (config.balance - amount)
  let sent := GlvState.send { state with glv } marketToken amount
  ensure (withdrawal.glvTokenAmount ≤ state.supply) .panic
  return ⟨{ sent with supply := state.supply - withdrawal.glvTokenAmount }, executed.1,
    executed.2⟩

end Withdrawal

section Shift

structure GlvShiftAccounts where
  store : Pubkey
  firstDepositReceiver : Pubkey
  source : RevertibleMarket
  target : RevertibleMarket
  minTokensForFirstDeposit : ℕ
  now : ℤ

/-- Only markets with the same long and the same short token may be shifted between. -/
def validateShiftable (source target : MarketMeta) : Store.Result Unit := do
  ensure (source.longTokenMint = target.longTokenMint) .tokenMintMismatched
  ensure (source.shortTokenMint = target.shortTokenMint) .tokenMintMismatched

def validateBeforeShift (state : GlvState) (params : ShiftActionParams)
    (accounts : GlvShiftAccounts) : Store.Result Unit := do
  state.glv.validateShiftInterval accounts.now
  ensure (accounts.source.key ≠ accounts.target.key) .internal
  accounts.source.validate accounts.store
  accounts.target.validate accounts.store
  validateShiftable accounts.source.marketMeta accounts.target.marketMeta
  ensure (params.fromMarketTokenAmount ≤ state.vaults accounts.source.key)
    .notEnoughTokenAmount

variable [Model.MarketNum] (oracle : SwapPath.Oracle)

/-- The next balance of the market that is shifted to. -/
def nextTargetBalance (state : GlvState) (target : RevertibleMarket) (received : ℕ) :
    Store.Result ℕ := do
  let prices ← oracle.marketPrices target.marketMeta
  let market ← getGlvValueForMarketWithNewIndexPrice oracle prices target 0 true
  let config ← state.glv.marketConfig target.key
  ensure (config.balance + received ≤ Model.maxU64) .tokenAmountOverflow
  state.glv.validateMarketTokenBalance target.key (config.balance + received)
    market.poolValue market.supply
  return config.balance + received

/-- The shifted value must be large enough, and must not lose too much. -/
def validateShifted (state : GlvState) (source target : RevertibleMarket)
    (sent received : ℕ) : Store.Result Unit := do
  let prices ← oracle.marketPrices source.marketMeta
  let sentValue ← getGlvValueForMarketWithNewIndexPrice oracle prices source sent true
  state.glv.validateShiftValue sentValue.value
  let receivedValue ← getGlvValueForMarketWithNewIndexPrice oracle prices target received
    true
  state.glv.validateShiftPriceImpact sentValue.value receivedValue.value

structure GlvShifted where
  state : GlvState
  source : Execute
  target : Execute

/-- The market tokens are taken from the token account of the vault, and those that the
other market mints go to the one it has for them. -/
def performGlvShift (state : GlvState) (receiver : Pubkey) (params : ShiftActionParams)
    (accounts : GlvShiftAccounts) : Store.Result GlvShifted := do
  validateBeforeShift state params accounts
  let source ← Execute.new accounts.store accounts.source 0 none []
  let target ← Execute.new accounts.store accounts.target accounts.minTokensForFirstDeposit
    none []
  let shifted ← Execute.uncheckedShift oracle accounts.firstDepositReceiver source target
    receiver params
  let nextTarget ← nextTargetBalance oracle state shifted.2.1.market.base shifted.2.2
  validateShifted oracle state shifted.1.market.base shifted.2.1.market.base
    params.fromMarketTokenAmount shifted.2.2
  let config ← state.glv.marketConfig accounts.source.key
  ensure (params.fromMarketTokenAmount ≤ config.balance) .notEnoughTokenAmount
  let sent := state.send accounts.source.key params.fromMarketTokenAmount
  let committed := sent.receive accounts.target.key shifted.2.1.market.toMint
  let glv ← ((state.glv.updateShiftLastExecutedTs accounts.now).updateMarketTokenBalance
    accounts.source.key (config.balance - params.fromMarketTokenAmount)).mapError
      fun _ => .panic
  let glv ← (glv.updateMarketTokenBalance accounts.target.key nextTarget).mapError
    fun _ => .panic
  return ⟨{ committed with glv }, shifted.1, shifted.2.1⟩

end Shift

end Gmsol.Ops
