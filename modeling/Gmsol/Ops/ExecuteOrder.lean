import Gmsol.Ops.Increase
import Gmsol.Ops.PositionAccount
import Gmsol.Store.GtFees

/-!
# Executing an order

An attempt to execute an order loads its markets, changes them through their buffers, and
commits them at its end.  The event buffer, the order, the counters of GT and the user
account are changed in place.  An error of the attempt becomes a failed transfer, unless
it is to be thrown.
-/

namespace Gmsol.Ops

open Fallible Container Mutation Store SwapPath

structure StoreAccount where
  key : Pubkey
  gt : GtState
  requestExpiration : ℕ
  adlPricesMaxStaleness : ℕ
  orderFeeDiscountForReferredUser : ℕ

/-- The accounts of an execution.  A market account stands at its address. -/
structure Accounts where
  markets : Pubkey → MarketAccount
  position : Option PositionAccount
  event : Option TradeData
  order : OrderAccount
  store : StoreAccount
  user : UserHeader
  isReferred : Bool

/-- The accounts, and whether an error is to be thrown. -/
structure Attempt where
  accounts : Accounts
  shouldThrowError : Bool

/-- Some of the remaining accounts may be no market accounts. -/
structure ExecuteOrderOperation where
  market : Pubkey
  remainingAccounts : List (Option Pubkey)
  throwOnExecutionError : Bool

structure ExecuteOutcome where
  removePosition : Bool
  transferOut : TransferOut
  shouldSendTradeEvent : Bool
  deriving DecidableEq, Repr

/-- The markets of an attempt: the current one, and those to swap in by their tokens. -/
structure Loaded where
  current : Pubkey
  orderFeeDiscountFactor : ℕ
  swapMarkets : IndexMap Pubkey Pubkey

namespace Loaded

/-- The token of the swap market at an address. -/
def tokenAt (loaded : Loaded) (address : Pubkey) : Option Pubkey :=
  (loaded.swapMarkets.entries.find? fun entry => entry.2 = address).map Prod.fst

def Contains (loaded : Loaded) (address : Pubkey) : Prop :=
  address = loaded.current ∨ (loaded.tokenAt address).isSome

instance (loaded : Loaded) (address : Pubkey) : Decidable (loaded.Contains address) :=
  inferInstanceAs (Decidable (_ ∨ _))

end Loaded

namespace Attempt

/-- Changes the market accounts. -/
def updateMarkets (attempt : Attempt)
    (change : Pubkey → MarketAccount → MarketAccount) : Attempt :=
  { attempt with accounts := { attempt.accounts with
      markets := fun address => change address (attempt.accounts.markets address) } }

def setEvent (attempt : Attempt) (event : TradeData) : Attempt :=
  { attempt with accounts := { attempt.accounts with event := some event } }

def setPosition (attempt : Attempt) (state : PositionState) : Attempt :=
  { attempt with accounts := { attempt.accounts with
      position := attempt.accounts.position.map fun position => { position with state } } }

def gtAccounts (attempt : Attempt) : OrderGtAccounts where
  gtReward := attempt.accounts.order.gtReward
  gt := attempt.accounts.store.gt
  user := attempt.accounts.user

def setGtAccounts (part : OrderGtAccounts) (attempt : Attempt) : Attempt :=
  { attempt with accounts := { attempt.accounts with
      order := { attempt.accounts.order with gtReward := part.gtReward }
      store := { attempt.accounts.store with gt := part.gt }
      user := part.user } }

end Attempt

/-! ## The markets -/

def withOrderFeeDiscountFactor (market : RevertibleMarket) (discount : ℕ) :
    RevertibleMarket :=
  { market with state := { market.state with config := { market.state.config with
      orderFeeParams := { market.state.config.orderFeeParams with
        discountFactor := some discount } } } }

def setMarket (address : Pubkey) (market : MarketAccount) (attempt : Attempt) : Attempt :=
  attempt.updateMarkets fun other account => if other = address then market else account

def startMarket (address : Pubkey) : EStateM CoreError Attempt Unit := do
  let attempt ← get
  let started ← lift (attempt.accounts.markets address).start
  modify (setMarket address started)

/-- Loads one market to swap in.  Passing the current market or a market twice is an
error: the runtime already refuses to borrow the account again. -/
def insertLoader (store currentMarketToken : Pubkey) (markets : IndexMap Pubkey Pubkey)
    (address : Pubkey) : EStateM CoreError Attempt (IndexMap Pubkey Pubkey) := do
  let attempt ← get
  let account := attempt.accounts.markets address
  lift (ensure (account.key ≠ currentMarketToken) .invalidSwapPath)
  if hvacant : account.key ∉ markets.keys then do
    lift (account.validate store)
    startMarket address
    return markets.insertVacant account.key address hvacant
  else lift (.error .invalidSwapPath)

def loadSwapMarkets (store currentMarketToken : Pubkey) (addresses : List Pubkey) :
    EStateM CoreError Attempt (IndexMap Pubkey Pubkey) :=
  addresses.foldlM (insertLoader store currentMarketToken) IndexMap.empty

namespace ExecuteOrderOperation

def unpackMarketsForSwap (op : ExecuteOrderOperation) (params : SwapActionParams)
    (currentMarketToken : Pubkey) : Store.Result (List Pubkey) := do
  let unique := (params.primarySwapPath ++ params.secondarySwapPath).toFinset.erase
    currentMarketToken
  ensure (unique.card ≤ op.remainingAccounts.length) .accountNotEnoughKeys
  op.remainingAccounts.mapM fun info => okOr info .accountDiscriminatorMismatch

/-- Loads the markets of the order as revertible ones. -/
def loadMarkets (op : ExecuteOrderOperation) (orderFeeDiscountFactor : ℕ) :
    EStateM CoreError Attempt Loaded := do
  startMarket op.market
  let attempt ← get
  let currentMarketToken := (attempt.accounts.markets op.market).key
  let addresses ← lift (op.unpackMarketsForSwap attempt.accounts.order.swap
    currentMarketToken)
  let swapMarkets ← loadSwapMarkets attempt.accounts.store.key currentMarketToken addresses
  return ⟨op.market, orderFeeDiscountFactor, swapMarkets⟩

end ExecuteOrderOperation

section Steps

variable (clock : Model.SysvarClock) (leftover : Pubkey → List Access)

/-- The current market as the attempt sees it. -/
def currentMarket (loaded : Loaded) (accounts : Accounts) : RevertibleMarket :=
  withOrderFeeDiscountFactor ((accounts.markets loaded.current).revertible clock)
    loaded.orderFeeDiscountFactor

def swapMarkets (loaded : Loaded) (accounts : Accounts) : SwapMarkets :=
  loaded.swapMarkets.mapValues fun address => (accounts.markets address).revertible clock

/-- Stages what a step has made of the markets. -/
def stageMarkets {α : Type} (loaded : Loaded) (stage : Stage α) (attempt : Attempt) :
    Attempt :=
  attempt.updateMarkets fun address account =>
    if address = loaded.current then account.stage stage.market
    else ((loaded.tokenAt address).bind stage.swapMarkets.get).elim account account.stage

/-- A step that fails may have accessed the buffers of the loaded markets in any way. -/
def abandonMarkets (loaded : Loaded) (attempt : Attempt) : Attempt :=
  attempt.updateMarkets fun address account =>
    if loaded.Contains address then account.access (leftover address) else account

/-- Runs a step on the markets that the attempt sees. -/
def onMarkets {α : Type} (loaded : Loaded)
    (step : RevertibleMarket → SwapMarkets → Store.Result (Stage α)) :
    EStateM CoreError Attempt α := fun attempt =>
  match step (currentMarket clock loaded attempt.accounts)
      (swapMarkets clock loaded attempt.accounts) with
  | .ok stage => .ok stage.value (stageMarkets loaded stage attempt)
  | .error failure => .error failure (abandonMarkets leftover loaded attempt)

def onCurrentMarket (loaded : Loaded)
    (step : RevertibleMarket → Store.Result RevertibleMarket) :
    EStateM CoreError Attempt Unit :=
  onMarkets clock leftover loaded fun market swapMarkets =>
    (step market).map fun market => ⟨market, swapMarkets, ()⟩

end Steps

def commitMarket (address : Pubkey) : EStateM CoreError Attempt Unit :=
  modify fun attempt => attempt.updateMarkets fun other account =>
    if other = address then account.commit else account

def commitSwapMarkets (loaded : Loaded) : EStateM CoreError Attempt Unit :=
  modify fun attempt => attempt.updateMarkets fun address account =>
    if (loaded.tokenAt address).isSome then account.commit else account

/-! ## The event buffer -/

def onEvent (computation : EStateM CoreError TradeData Unit) :
    EStateM CoreError Attempt Unit := fun attempt =>
  match attempt.accounts.event with
  | none => .error .eventBufferNotProvided attempt
  | some event =>
    match computation event with
    | .ok _ written => .ok () (attempt.setEvent written)
    | .error failure written => .error failure (attempt.setEvent written)

/-! ## The attempt -/

/-- The errors of a check are thrown for an order that waits for its price: it is not to
be dropped because it cannot be executed yet. -/
def throwUnlessMarket (check : Store.Result Unit) : EStateM CoreError Attempt Unit :=
  fun attempt =>
    match check with
    | .ok () => .ok () attempt
    | .error failure =>
      let isMarket := attempt.accounts.order.kind.isMarket
      .error failure { attempt with
        shouldThrowError := attempt.shouldThrowError || !isMarket }

def validateOrder (prices : Model.Prices) : EStateM CoreError Attempt Unit := do
  let attempt ← get
  lift attempt.accounts.order.validateNonEmptyOrder
  throwUnlessMarket (attempt.accounts.order.validateTriggerPrice prices.indexTokenPrice)

/-- The position to work on, and its collateral token. -/
def loadPosition (loaded : Loaded) : EStateM CoreError Attempt (Model.Position × Pubkey) := do
  let attempt ← get
  let market := attempt.accounts.markets loaded.current
  let position ← lift (okOr attempt.accounts.position .positionIsRequired)
  lift (ensure (attempt.accounts.event.isSome = true) .eventBufferNotProvided)
  let _ ← lift (market.marketMeta.toTokenSide position.collateralToken)
  onEvent (TradeData.init attempt.accounts.order.kind.isIncreasePosition position)
  let revertible ← lift (position.revertible market)
  lift (position.validateForMarket market)
  return (revertible, position.collateralToken)

section Execution

variable [Model.MarketNum]

def processGt (clock : Model.SysvarClock) (isGtMintingEnabled : Bool) (paidFeeValue : ℕ) :
    EStateM CoreError Attempt Unit :=
  if isGtMintingEnabled then do
    let _ ← zoom Attempt.gtAccounts Attempt.setGtAccounts
      (uncheckedProcessGt clock.unixTimestamp paidFeeValue)
    return ()
  else return ()

variable (oracle : TimedOracle) (clock : Model.SysvarClock)
  (leftover : Pubkey → List Access)

/-- Distributes the position impact and updates the borrowing and the funding state. -/
def preExecute (loaded : Loaded) (prices : Model.Prices) :
    EStateM CoreError Attempt Unit := do
  onCurrentMarket clock leftover loaded fun market =>
    market.update ((Model.DistributePositionImpact.execute market.state).map Prod.fst)
  onCurrentMarket clock leftover loaded fun market => market.updateBorrowing prices
  onCurrentMarket clock leftover loaded fun market =>
    market.update ((Model.UpdateFundingState.execute market.state prices).map Prod.fst)

def executeSwap (loaded : Loaded) : EStateM CoreError Attempt TransferOut := do
  let attempt ← get
  let order := attempt.accounts.order
  let swapOutToken ← lift (okOr order.tokens.finalOutputToken .missingFinalOutputToken)
  let swapOutAmount ← onMarkets clock leftover loaded fun market swapMarkets =>
    swapCollateral oracle.toOracle market swapMarkets order swapOutToken
  throwUnlessMarket (order.validateOutputAmount swapOutAmount)
  lift (TransferOut.transferOut {} false swapOutAmount)

def performSwap (loaded : Loaded) : EStateM CoreError Attempt ExecuteOutcome := do
  let transferOut ← executeSwap oracle clock leftover loaded
  commitMarket loaded.current
  commitSwapMarkets loaded
  return ⟨false, transferOut, false⟩

/-- What can fail comes before the commits: the processing of GT, which changes the store
and the user in place, is the last of it. -/
def performPositionChange (loaded : Loaded) (prices : Model.Prices)
    (isGtMintingEnabled : Bool) : EStateM CoreError Attempt ExecuteOutcome := do
  let position ← loadPosition loaded
  let attempt ← get
  let changed ← onMarkets clock leftover loaded fun market swapMarkets =>
    changePosition oracle.toOracle prices market position.1 position.2 swapMarkets {}
      attempt.accounts.order
  let state := PositionState.ofPosition changed.position
  onEvent (TradeData.updateWithState state)
  processGt clock isGtMintingEnabled changed.paidOrderFeeValue
  commitMarket loaded.current
  modify fun attempt => attempt.setPosition state
  commitSwapMarkets loaded
  return ⟨changed.shouldRemovePosition, changed.transferOut, true⟩

def performExecution (op : ExecuteOrderOperation) (prices : Model.Prices)
    (orderFeeDiscountFactor : ℕ) : EStateM CoreError Attempt ExecuteOutcome := do
  let attempt ← get
  let market := attempt.accounts.markets op.market
  lift (market.validate attempt.accounts.store.key)
  validateOrder prices
  let loaded ← op.loadMarkets orderFeeDiscountFactor
  preExecute clock leftover loaded prices
  if attempt.accounts.order.kind.isSwap then performSwap oracle clock leftover loaded
  else performPositionChange oracle clock leftover loaded prices market.isGtMintingEnabled

end Execution

/-! ## Before and after the attempt -/

namespace StoreAccount

def requestExpirationAt (store : StoreAccount) (start : ℤ) : Store.Result ℤ := do
  ensure (start + store.requestExpiration < 2 ^ 63) .invalidArgument
  return start + store.requestExpiration

/-- The discounts of the rank and of a referred user, one after the other. -/
def orderFeeDiscountFactor [Model.MarketNum] (store : StoreAccount) (rank : ℕ)
    (isReferred : Bool) : Store.Result ℕ := do
  let forRank ← store.gt.orderFeeDiscountFactor rank
  if isReferred then do
    let forReferred := store.orderFeeDiscountForReferredUser
    ensure (forReferred ≤ Model.unit) .internal
    let factor ← okOr (Model.applyFactor forRank (Model.unit - forReferred)) .valueOverflow
    okOr (Model.checkedAdd forReferred factor) .valueOverflow
  else return forRank

end StoreAccount

namespace Accounts

def oracleUpdatedAfter (accounts : Accounts) : Store.Result (Option ℤ) :=
  let order := accounts.order
  match order.kind with
  | .marketSwap | .marketIncrease => .ok (some order.updatedAt)
  | .marketDecrease => do
    let position ← okOr accounts.position .positionIsRequired
    return some (max order.updatedAt position.state.increasedAt)
  | .limitSwap | .limitIncrease => .ok (some (max order.updatedAt order.validFromTs))
  | .limitDecrease | .stopLossDecrease => do
    let position ← okOr accounts.position .positionIsRequired
    return some (max (max order.updatedAt position.state.increasedAt) order.validFromTs)
  | .liquidation => do
    let position ← okOr accounts.position .positionIsRequired
    return some (max position.state.increasedAt position.state.decreasedAt)
  | .autoDeleveraging => .ok none

/-- Market orders expire. -/
def oracleUpdatedBefore (accounts : Accounts) : Store.Result (Option ℤ) :=
  if accounts.order.kind.isMarket then
    (accounts.store.requestExpirationAt accounts.order.updatedAt).map some
  else .ok none

def oracleUpdatedAfterSlot (accounts : Accounts) : Option ℕ :=
  match accounts.order.kind with
  | .liquidation | .autoDeleveraging => none
  | _ => some accounts.order.updatedAtSlot

def validateTime (accounts : Accounts) (oracle : TimedOracle) : Store.Result Unit := do
  ensure (oracle.minOracleTs ≤ oracle.maxOracleTs) .invalidOracleTimestampsRange
  oracle.validateMinOracleSlot accounts.oracleUpdatedAfterSlot
  let updatedAfter ← accounts.oracleUpdatedAfter
  oracle.validateMinOracleTs updatedAfter
  let updatedBefore ← accounts.oracleUpdatedBefore
  oracle.validateMaxOracleTs updatedBefore

def validateAdl (market : MarketAccount) (oracle : TimedOracle) (isLong : Bool)
    (maxStaleness : ℕ) : Store.Result Unit := do
  ensure (market.isAdlEnabled isLong = true) .adlNotEnabled
  ensure (market.latestAdlTime isLong ≤ min (oracle.maxOracleTs + maxStaleness) (2 ^ 63 - 1))
    .oracleTimestampsAreSmallerThanRequired

def validateOracleAndAdl (accounts : Accounts) (op : ExecuteOrderOperation)
    (oracle : TimedOracle) : Store.Result Unit := do
  accounts.validateTime oracle
  if accounts.order.kind = .autoDeleveraging then
    validateAdl (accounts.markets op.market) oracle accounts.order.params.isLong
      accounts.store.adlPricesMaxStaleness
  else return ()

/-- Whether the order has expired; the error is only swallowed where it is not to be
thrown. -/
def isExpired (accounts : Accounts) (op : ExecuteOrderOperation) (oracle : TimedOracle) :
    Store.Result Bool :=
  match accounts.validateOracleAndAdl op oracle with
  | .ok () => .ok false
  | .error failure =>
    if failure = .oracleTimestampsAreLargerThanRequired ∧ op.throwOnExecutionError = false
    then .ok true
    else .error failure

def validateAndGetOrderFeeDiscount [Model.MarketNum] (accounts : Accounts) :
    Store.Result ℕ := do
  ensure (accounts.user.isInitialized = true) .invalidUserAccount
  accounts.store.orderFeeDiscountFactor accounts.user.gt.rank accounts.isReferred

def isPositionEmpty (accounts : Accounts) : Bool :=
  accounts.position.any fun position => position.state.isEmpty

end Accounts

def closePosition : EStateM CoreError Accounts Unit := do
  let accounts ← get
  lift (ensure (accounts.position.isSome = true) .positionIsRequired)
  modify fun accounts => { accounts with position := none }

def closeRemoved (removePosition : Bool) : EStateM CoreError Accounts Unit :=
  if removePosition then closePosition else return ()

namespace ExecuteOrderOperation

variable [Model.MarketNum] (oracle : TimedOracle) (clock : Model.SysvarClock)
  (leftover : Pubkey → List Access) (op : ExecuteOrderOperation)

/-- Swallows an error of the attempt unless it is to be thrown. -/
def attempt (prices : Model.Prices) (orderFeeDiscountFactor : ℕ) :
    EStateM CoreError Accounts ExecuteOutcome := fun accounts =>
  match performExecution oracle clock leftover op prices orderFeeDiscountFactor
      ⟨accounts, false⟩ with
  | .ok outcome done =>
    .ok { outcome with transferOut := { outcome.transferOut with executed := true } }
      done.accounts
  | .error failure stopped =>
    -- A panic is not an error that could be swallowed: it stops the program.
    if failure = .panic ∨ stopped.shouldThrowError = true ∨ op.throwOnExecutionError = true
    then .error failure stopped.accounts
    else .ok ⟨stopped.accounts.isPositionEmpty, {}, false⟩ stopped.accounts

def execute : EStateM CoreError Accounts ExecuteOutcome := do
  let accounts ← get
  lift (accounts.order.validateValidFromTs clock)
  let isExpired ← lift (accounts.isExpired op oracle)
  if isExpired then return ⟨false, {}, false⟩
  else
    let market := accounts.markets op.market
    let prices ← lift (oracle.marketPrices market.marketMeta)
    let orderFeeDiscountFactor ← lift accounts.validateAndGetOrderFeeDiscount
    let outcome ← op.attempt oracle clock leftover prices orderFeeDiscountFactor
    closeRemoved outcome.removePosition
    return outcome

end ExecuteOrderOperation

end Gmsol.Ops
