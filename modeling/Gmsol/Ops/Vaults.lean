import Gmsol.Library.Run
import Gmsol.Ops.ExecuteOrder
import Gmsol.Ops.LiquidityMarket

/-!
# The market vaults

All markets of a store share one vault for each token: a market only records what is its
own.  Tokens come into a vault and leave it by the transfers of the program, which are
recorded in a market, and anyone may send tokens to a vault without any record.
-/

namespace Gmsol.Ops

open Fallible Container Mutation Store SwapPath

/-! ## Operations on a market account -/

namespace MarketAccount

/-- Which pools of a new market are pure. -/
def initPools (isPure : Bool) (kind : PoolKind) : PoolStorage :=
  match kind with
  | .positionImpact | .borrowingFactor | .totalBorrowing => ⟨0, ⟨false, 0, 0⟩⟩
  | _ => ⟨0, ⟨isPure, 0, 0⟩⟩

/-- A new market account. -/
def init (info : MarketInfo) (clock : Model.SysvarClock) : MarketAccount where
  toMarketInfo := info
  market :=
    { state :=
        { pools := initPools info.marketMeta.isPure
          clocks := ⟨0, ⟨clock.unixTimestamp, clock.unixTimestamp, clock.unixTimestamp, 0, 0⟩⟩
          other := ⟨0, ⟨0, 0, 0, 0⟩⟩ }
      buffer := .init }
  tagged := RevertibleBuffer.tagged_init

/-- An operation that is dropped without a commit. -/
def abandon (account : MarketAccount) (accesses : List Access) :
    Store.Result MarketAccount := do
  let started ← account.start
  return started.access accesses

/-- The time of the update is that of the program, not of the prices. -/
def setAdlState (account : MarketAccount) (isLong isEnabled : Bool) (now : ℤ) :
    MarketAccount where
  toMarketInfo := { account.toMarketInfo with
    isAdlEnabled := Function.update account.isAdlEnabled isLong isEnabled }
  market := { account.market with
    state := { account.market.state with
      clocks := { account.market.state.clocks with
        value :=
          if isLong then { account.market.state.clocks.value with adlForLong := now }
          else { account.market.state.clocks.value with adlForShort := now } } } }
  tagged := account.tagged

def updateAdlState [Model.MarketNum] (account : MarketAccount) (oracle : TimedOracle)
    (clock : Model.SysvarClock) (isLong : Bool) : Store.Result MarketAccount := do
  ensure (account.latestAdlTime isLong ≤ oracle.maxOracleTs)
    .oracleTimestampsAreSmallerThanRequired
  ensure (account.isEnabled = true) .disabledMarket
  let prices ← oracle.marketPrices account.marketMeta
  let isExceeded ← ((account.stored clock).state.pnlFactorExceeded prices .forAdl
    isLong).mapError .model
  return account.setAdlState isLong isExceeded clock.unixTimestamp

end MarketAccount

/-! ## Fees -/

section Fees

variable [Model.MarketNum]

/-- At most as much as fits into an amount of tokens. -/
def claimableAmount (market : RevertibleMarket) (side : Bool) : ℕ :=
  min (market.state.claimableFee.amount side) Model.maxU64

def takeFees (market : RevertibleMarket) (side : Bool) (amount : ℕ) :
    Store.Result RevertibleMarket :=
  if amount = 0 then .ok market
  else market.update (market.state.applyDeltaToClaimableFeePool side (-amount))

/-- Takes the fees of a token out of the pool: in a pure market, those of both sides. -/
def claimFees (market : RevertibleMarket) (token : Pubkey) :
    Store.Result (RevertibleMarket × ℕ) := do
  let isLongToken ← market.marketMeta.toTokenSide token
  let amount := claimableAmount market isLongToken
  let opposite := if market.marketMeta.isPure then claimableAmount market !isLongToken else 0
  ensure (amount + opposite ≤ Model.maxU64) .tokenAmountOverflow
  let claimed ← takeFees market isLongToken amount
  let taken ← takeFees claimed (!isLongToken) opposite
  taken.validateMarketBalanceForTheGivenToken token (amount + opposite)
  return (taken, amount + opposite)

end Fees

/-! ## The vaults -/

/-- The market accounts that have been created, and what is in the vault of each token. -/
structure Vaults where
  addresses : Finset Pubkey
  markets : Pubkey → MarketAccount
  vault : Pubkey → ℕ

/-- An account that exists cannot be created again, and a token account cannot send more
than it has. -/
inductive VaultError
  | core (failure : CoreError)
  | accountInUse
  | insufficientFunds
  deriving DecidableEq, Repr

/-- An operation on the liquidity of a market. -/
structure LiquidityOperation where
  store : Pubkey
  clock : Model.SysvarClock
  market : Pubkey
  minTokensForFirstDeposit : ℕ
  firstDepositReceiver : Pubkey
  receiver : Pubkey
  swap : Option SwapActionParams
  remainingAccounts : List (Option Pubkey)

/-- Its swap markets are the remaining accounts, if it has a swap. -/
def LiquidityOperation.swapAddresses (op : LiquidityOperation) : List Pubkey :=
  if op.swap.isSome then op.remainingAccounts.reduceOption else []

namespace Vaults

/-- Only the program creates market accounts: any other account is no market account. -/
def load (vaults : Vaults) (address : Pubkey) : Store.Result MarketAccount := do
  ensure (address ∈ vaults.addresses) .accountDiscriminatorMismatch
  return vaults.markets address

def setMarket (vaults : Vaults) (address : Pubkey) (account : MarketAccount) : Vaults :=
  { vaults with markets := Function.update vaults.markets address account }

def setVault (vaults : Vaults) (token : Pubkey) (amount : ℕ) : Vaults :=
  { vaults with vault := Function.update vaults.vault token amount }

def initializeMarket (vaults : Vaults) (address : Pubkey) (info : MarketInfo)
    (clock : Model.SysvarClock) : Except VaultError Vaults := do
  ensure (address ∉ vaults.addresses) .accountInUse
  return {
    addresses := insert address vaults.addresses
    markets := Function.update vaults.markets address (.init info clock)
    vault := vaults.vault }

/-- The tokens and the store of a market are fixed. -/
def configure (vaults : Vaults) (address : Pubkey) (info : MarketInfo) :
    Store.Result Vaults := do
  let account ← vaults.load address
  return vaults.setMarket address { account with
    toMarketInfo := { info with
      store := account.store
      marketMeta := account.marketMeta } }

/-- Stores a market. -/
def storeMarket (vaults : Vaults) (address : Pubkey) (market : RevertibleMarket) :
    Store.Result Vaults := do
  let account ← (vaults.markets address).persist market
  return vaults.setMarket address account

/-! ## Transfers -/

/-- Moves tokens into the vault and records them in the market. -/
def transferIn (vaults : Vaults) (store address token : Pubkey) (amount : ℕ) :
    Store.Result Vaults := do
  let account ← vaults.load address
  account.validate store
  if amount = 0 then return vaults
  else do
    let market ← (account.stored ⟨0, 0⟩).recordTransferredInByToken token amount
    let recorded ← vaults.storeMarket address market
    return recorded.setVault token (vaults.vault token + amount)

/-- The tokens leave the vault before the record is made. -/
def transferOut (vaults : Vaults) (store address token : Pubkey) (amount : ℕ) :
    Except VaultError Vaults := do
  let account ← (vaults.load address).mapError .core
  (account.validate store).mapError .core
  ensure (account.marketMeta.isCollateralToken token = true) (.core .invalidCollateralToken)
  if amount = 0 then return vaults
  else do
    ensure (amount ≤ vaults.vault token) .insufficientFunds
    let market ← ((account.stored ⟨0, 0⟩).recordTransferredOutByToken token
      amount).mapError .core
    let recorded ← (vaults.storeMarket address market).mapError .core
    return recorded.setVault token (vaults.vault token - amount)

section Operations

variable [Model.MarketNum]

def claimFeesFromMarket (vaults : Vaults) (store address token : Pubkey)
    (clock : Model.SysvarClock) : Except VaultError Vaults := do
  let account ← (vaults.load address).mapError .core
  let claimed ← (claimFees (account.stored clock) token).mapError .core
  let committed ← (vaults.storeMarket address claimed.1).mapError .core
  committed.transferOut store address token claimed.2

/-! ## Orders -/

/-- Executes an order on the markets; its other accounts are given. -/
def executeOrder (vaults : Vaults) (oracle : TimedOracle) (clock : Model.SysvarClock)
    (leftover : Pubkey → List Access) (op : ExecuteOrderOperation) (accounts : Accounts) :
    Store.Result Vaults := do
  let _ ← vaults.load op.market
  let loadable := op.remainingAccounts.map (·.filter (· ∈ vaults.addresses))
  let executed ← settle (ExecuteOrderOperation.execute oracle clock leftover
    { op with remainingAccounts := loadable }) { accounts with markets := vaults.markets }
  return { vaults with markets := executed.markets }

/-! ## Liquidity -/

/-- Starts an operation on the markets as they are stored. -/
def openExecute (vaults : Vaults) (op : LiquidityOperation) : Store.Result Execute := do
  let account ← vaults.load op.market
  account.validate op.store
  Execute.new op.store (account.stored op.clock) op.minTokensForFirstDeposit op.swap
    (op.remainingAccounts.map fun info => (info.filter (· ∈ vaults.addresses)).map
      fun address => (vaults.markets address).stored op.clock)

def storeSwapMarket (swapMarkets : SwapMarkets) (vaults : Vaults) (address : Pubkey) :
    Store.Result Vaults := do
  let market ← okOr (swapMarkets.get (vaults.markets address).key) .marketAccountIsNotProvided
  vaults.storeMarket address market

/-- Commits the current market and the swap markets. -/
def commitExecute (vaults : Vaults) (op : LiquidityOperation) (done : Execute) :
    Store.Result Vaults := do
  let current ← vaults.storeMarket op.market done.market.base
  op.swapAddresses.foldlM (storeSwapMarket done.swapMarkets) current

def performDeposit (vaults : Vaults) (oracle : SwapPath.Oracle) (op : LiquidityOperation)
    (params : DepositActionParams) (initialTokens : Option Pubkey × Option Pubkey)
    (kind : SwapPricingKind) : Store.Result Vaults := do
  let opened ← vaults.openExecute op
  let deposited ← opened.uncheckedDeposit oracle op.firstDepositReceiver op.receiver params
    initialTokens kind
  vaults.commitExecute op deposited.1

def performWithdrawal (vaults : Vaults) (oracle : SwapPath.Oracle) (op : LiquidityOperation)
    (params : WithdrawalActionParams) (finalTokens : Pubkey × Pubkey)
    (kind : SwapPricingKind) : Store.Result Vaults := do
  let opened ← vaults.openExecute op
  let withdrawn ← opened.uncheckedWithdraw oracle params finalTokens kind
  vaults.commitExecute op withdrawn.1

/-- Neither of the two markets is swapped in. -/
def performShift (vaults : Vaults) (oracle : SwapPath.Oracle)
    (source target : LiquidityOperation) (params : ShiftActionParams) :
    Store.Result Vaults := do
  ensure (source.market ≠ target.market) .internal
  let fromMarket ← vaults.openExecute { source with swap := none }
  let toMarket ← vaults.openExecute { target with swap := none }
  ensure (fromMarket.marketMeta.longTokenMint = toMarket.marketMeta.longTokenMint)
    .tokenMintMismatched
  ensure (fromMarket.marketMeta.shortTokenMint = toMarket.marketMeta.shortTokenMint)
    .tokenMintMismatched
  let shifted ← Execute.uncheckedShift oracle target.firstDepositReceiver fromMarket toMarket
    target.receiver params
  let committed ← vaults.commitExecute { source with swap := none } shifted.1
  committed.commitExecute { target with swap := none } shifted.2.1

end Operations

/-! ## Runs -/

/-- What may happen to the markets and the vaults.  Every action may be performed by anyone
and with any values that its checks let through. -/
inductive Action
  | initializeMarket (address : Pubkey) (info : MarketInfo) (clock : Model.SysvarClock)
  | configure (address : Pubkey) (info : MarketInfo)
  | updateAdlState (address : Pubkey) (oracle : TimedOracle) (clock : Model.SysvarClock)
    (isLong : Bool)
  | give (token : Pubkey) (amount : ℕ)
  | transferIn (store address token : Pubkey) (amount : ℕ)
  | transferOut (store address token : Pubkey) (amount : ℕ)
  | claimFees (store address token : Pubkey) (clock : Model.SysvarClock)
  | executeOrder (oracle : TimedOracle) (clock : Model.SysvarClock)
    (leftover : Pubkey → List Access) (op : ExecuteOrderOperation) (accounts : Accounts)
  | deposit (oracle : SwapPath.Oracle) (op : LiquidityOperation) (params : DepositActionParams)
    (initialTokens : Option Pubkey × Option Pubkey) (kind : SwapPricingKind)
  | withdraw (oracle : SwapPath.Oracle) (op : LiquidityOperation)
    (params : WithdrawalActionParams) (finalTokens : Pubkey × Pubkey) (kind : SwapPricingKind)
  | shift (oracle : SwapPath.Oracle) (source target : LiquidityOperation)
    (params : ShiftActionParams)
  | abandon (address : Pubkey) (accesses : List Access)

/-- The tokens that a step gives to the vaults without a record. -/
def Action.given : Action → Pubkey → ℕ
  | .give token amount => Pi.single token amount
  | _ => 0

variable [Model.MarketNum]

def perform (vaults : Vaults) : Action → Except VaultError Vaults
  | .initializeMarket address info clock => vaults.initializeMarket address info clock
  | .configure address info => (vaults.configure address info).mapError .core
  | .updateAdlState address oracle clock isLong => do
    let account ← (vaults.load address).mapError .core
    let updated ← (account.updateAdlState oracle clock isLong).mapError .core
    return vaults.setMarket address updated
  | .give token amount => .ok (vaults.setVault token (vaults.vault token + amount))
  | .transferIn store address token amount =>
    (vaults.transferIn store address token amount).mapError .core
  | .transferOut store address token amount => vaults.transferOut store address token amount
  | .claimFees store address token clock =>
    vaults.claimFeesFromMarket store address token clock
  | .executeOrder oracle clock leftover op accounts =>
    (vaults.executeOrder oracle clock leftover op accounts).mapError .core
  | .deposit oracle op params initialTokens kind =>
    (vaults.performDeposit oracle op params initialTokens kind).mapError .core
  | .withdraw oracle op params finalTokens kind =>
    (vaults.performWithdrawal oracle op params finalTokens kind).mapError .core
  | .shift oracle source target params =>
    (vaults.performShift oracle source target params).mapError .core
  | .abandon address accesses => do
    let account ← (vaults.load address).mapError .core
    let abandoned ← (account.abandon accesses).mapError .core
    return vaults.setMarket address abandoned

/-- A step yields what it has given to the vaults. -/
def step (vaults : Vaults) (action : Action) : Except VaultError (Vaults × (Pubkey → ℕ)) :=
  (vaults.perform action).map fun after => (after, action.given)

/-- No market yet, and nothing in the vaults. -/
def empty (markets : Pubkey → MarketAccount) : Vaults := ⟨∅, markets, fun _ => 0⟩

end Vaults

end Gmsol.Ops
