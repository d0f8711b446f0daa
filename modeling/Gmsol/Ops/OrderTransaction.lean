import Gmsol.Ops.ExecuteOrder
import Gmsol.SwapPath.Setup

/-!
# Orders as transactions on the stored markets

Without the buffers, an order reads the markets from where they are stored, changes them
one step after the other, and returns what they have become.  This is what an order is
for; its execution through the buffers has to come to the same.
-/

namespace Gmsol.Ops

open Fallible Container Store SwapPath

/-! ## The setup of the markets -/

section Setup

variable [Model.MarketNum] {oracle : SwapPath.Oracle} {prices : Model.Prices}
  {market : RevertibleMarket} {swapMarkets : SwapMarkets}

/-- The markets after a step are the ones before it, each with the same setup. -/
structure Stage.KeepsSetup {α : Type} (market : RevertibleMarket)
    (swapMarkets : SwapMarkets) (stage : Stage α) : Prop where
  market : market.KeepsSetup stage.market
  swapMarkets : swapMarkets.KeepsSetup stage.swapMarkets

theorem swapCollateral_keepsSetup {order : OrderAccount} {tokenOut : Pubkey}
    {stage : Stage ℕ}
    (hswap : swapCollateral oracle market swapMarkets order tokenOut = .ok stage) :
    stage.KeepsSetup market swapMarkets := by
  simp only [swapCollateral, bind_eq_ok, pure_eq_ok] at hswap
  obtain ⟨_, -, swapped, hswapped, rfl⟩ := hswap
  obtain ⟨hmarkets, hdirection⟩ := revertibleSwap_keepsSetup hswapped
  exact ⟨hdirection.currentMarket, hmarkets⟩

theorem increasePosition_keepsSetup {position : Model.Position}
    {params : Model.IncreasePositionParams} {increased : Increased}
    (hincrease : increasePosition market position params = .ok increased) :
    market.KeepsSetup increased.market := by
  simp only [increasePosition, map_eq_ok, mapError_eq_ok] at hincrease
  obtain ⟨done, hdone, rfl⟩ := hincrease
  exact ⟨done.1, (Model.IncreasePosition.execute_keepsRecords hdone).toKeepsSetup, rfl⟩

theorem decreasePosition_keepsSetup {position : Model.Position}
    {params : Model.DecreasePositionParams} {decreased : Decreased}
    (hdecrease : decreasePosition market position params = .ok decreased) :
    market.KeepsSetup decreased.market := by
  simp only [decreasePosition, map_eq_ok, mapError_eq_ok] at hdecrease
  obtain ⟨done, hdone, rfl⟩ := hdecrease
  exact ⟨done.1, (Model.DecreasePosition.execute_keepsRecords hdone).toKeepsSetup, rfl⟩

theorem decrease_keepsSetup {position : Model.Position} {order : Order}
    {isInsolventCloseAllowed : Bool} {secondaryOrderType : Option SecondaryOrderType}
    {decreased : Decreased}
    (hdecrease : decrease prices market position order isInsolventCloseAllowed
      secondaryOrderType = .ok decreased) : market.KeepsSetup decreased.market := by
  unfold decrease at hdecrease
  split at hdecrease
  · exact decreasePosition_keepsSetup hdecrease
  · obtain ⟨_, -, hdecreased⟩ := bind_eq_ok.mp hdecrease
    exact decreasePosition_keepsSetup hdecreased
  · simp only [bind_eq_ok, pure_eq_ok] at hdecrease
    obtain ⟨_, -, _, hdecreased, _, -, rfl⟩ := hdecrease
    exact decreasePosition_keepsSetup hdecreased

theorem executeIncreasePosition_keepsSetup {position : Model.Position}
    {collateralToken : Pubkey} {transferOut : TransferOut} {order : OrderAccount}
    {stage : Stage Changed}
    (hincrease : executeIncreasePosition oracle prices market position collateralToken
      swapMarkets transferOut order = .ok stage) : stage.KeepsSetup market swapMarkets := by
  simp only [executeIncreasePosition, bind_eq_ok, pure_eq_ok] at hincrease
  obtain ⟨swapped, hswapped, _, -, increased, hincreased, _, -, _, -, _, -, _, -, rfl⟩ :=
    hincrease
  have hswap := swapCollateral_keepsSetup hswapped
  exact ⟨hswap.market.trans (increasePosition_keepsSetup hincreased), hswap.swapMarkets⟩

theorem decreaseStage_keepsSetup {position : Model.Position} {transferOut : TransferOut}
    {order : OrderAccount} {isInsolventCloseAllowed : Bool}
    {secondaryOrderType : Option SecondaryOrderType} {stage : Stage Changed}
    (hdecrease : decreaseStage oracle prices market position swapMarkets transferOut order
      isInsolventCloseAllowed secondaryOrderType = .ok stage) :
    stage.KeepsSetup market swapMarkets := by
  simp only [decreaseStage, executeDecreasePosition, bind_eq_ok, pure_eq_ok] at hdecrease
  obtain ⟨_, ⟨decreased, hdecreased, swapped, hswapped, _, -, _, -, _, -, rfl⟩, rfl⟩ :=
    hdecrease
  simp only [swapOutputs, bind_eq_ok, pure_eq_ok] at hswapped
  obtain ⟨_, -, _, -, _, -, _, -, _, -, swap, hswap, _, -, rfl⟩ := hswapped
  obtain ⟨hmarkets, hdirection⟩ := revertibleSwap_keepsSetup hswap
  exact ⟨(decrease_keepsSetup hdecreased).trans hdirection.currentMarket, hmarkets⟩

theorem changePosition_keepsSetup {position : Model.Position} {collateralToken : Pubkey}
    {transferOut : TransferOut} {order : OrderAccount} {stage : Stage Changed}
    (hchange : changePosition oracle prices market position collateralToken swapMarkets
      transferOut order = .ok stage) : stage.KeepsSetup market swapMarkets := by
  unfold changePosition at hchange
  split at hchange
  case h_1 | h_2 => exact executeIncreasePosition_keepsSetup hchange
  case h_8 | h_9 => exact absurd hchange (by simp)
  all_goals exact decreaseStage_keepsSetup hchange

end Setup

/-! ## The transaction -/

/-- What an order makes of the accounts.  A swap changes no position. -/
structure Transacted where
  market : RevertibleMarket
  swapMarkets : SwapMarkets
  position : Option PositionState
  event : Option TradeData
  gt : OrderGtAccounts
  outcome : ExecuteOutcome

namespace Accounts

def gt (accounts : Accounts) : OrderGtAccounts where
  gtReward := accounts.order.gtReward
  gt := accounts.store.gt
  user := accounts.user

/-- The markets to swap in, from where they are stored. -/
def storedSwapMarkets (accounts : Accounts) (clock : Model.SysvarClock)
    (currentMarketToken : Pubkey) (addresses : List Pubkey) : Store.Result SwapMarkets :=
  SwapMarkets.new accounts.store.key
    (addresses.map fun address => (accounts.markets address).stored clock)
    (some currentMarketToken)

end Accounts

section Transaction

variable [Model.MarketNum]

def RevertibleMarket.distributed (market : RevertibleMarket) :
    Store.Result RevertibleMarket :=
  market.update ((Model.DistributePositionImpact.execute market.state).map Prod.fst)

def RevertibleMarket.funded (market : RevertibleMarket) (prices : Model.Prices) :
    Store.Result RevertibleMarket :=
  market.update ((Model.UpdateFundingState.execute market.state prices).map Prod.fst)

/-- The market when everything that depends on the time has been updated. -/
def preExecuted (market : RevertibleMarket) (prices : Model.Prices) :
    Store.Result RevertibleMarket := do
  let distributed ← RevertibleMarket.distributed market
  let borrowed ← distributed.updateBorrowing prices
  RevertibleMarket.funded borrowed prices

variable (oracle : TimedOracle) (clock : Model.SysvarClock) (accounts : Accounts)

/-- A swap order. -/
def swapTransaction (market : RevertibleMarket) (swapMarkets : SwapMarkets) :
    Store.Result Transacted := do
  let order := accounts.order
  let swapOutToken ← okOr order.tokens.finalOutputToken .missingFinalOutputToken
  let stage ← swapCollateral oracle.toOracle market swapMarkets order swapOutToken
  order.validateOutputAmount stage.value
  let transferOut ← TransferOut.transferOut {} false stage.value
  return ⟨stage.market, stage.swapMarkets, none, accounts.event, accounts.gt,
    ⟨false, transferOut, false⟩⟩

/-- The record of a trade that has changed the state of a position. -/
def tradeOf (event : TradeData) (isIncrease : Bool) (before after : PositionState) :
    TradeData :=
  { event with isIncrease, tradeId := after.tradeId, before, after }

/-- GT for the fees that were paid. -/
def gtTransaction (isGtMintingEnabled : Bool) (paidFeeValue : ℕ) :
    Store.Result OrderGtAccounts :=
  if isGtMintingEnabled then
    Mutation.settle (uncheckedProcessGt clock.unixTimestamp paidFeeValue) accounts.gt
  else .ok accounts.gt

/-- An order that changes a position. -/
def positionTransaction (account : MarketAccount) (prices : Model.Prices)
    (market : RevertibleMarket) (swapMarkets : SwapMarkets) : Store.Result Transacted := do
  let position ← okOr accounts.position .positionIsRequired
  let event ← okOr accounts.event .eventBufferNotProvided
  ensure (event.store = position.store) .permissionDenied
  let copied ← position.revertible account
  position.validateForMarket account
  let stage ← changePosition oracle.toOracle prices market copied position.collateralToken
    swapMarkets {} accounts.order
  let changed := stage.value
  let state := PositionState.ofPosition changed.position
  let trade := tradeOf event accounts.order.kind.isIncreasePosition position.state state
  trade.validate
  let gt ← gtTransaction clock accounts account.isGtMintingEnabled changed.paidOrderFeeValue
  return ⟨stage.market, stage.swapMarkets, some state, some trade, gt,
    ⟨changed.shouldRemovePosition, changed.transferOut, true⟩⟩

namespace ExecuteOrderOperation

/-- The markets of the order, read from where they are stored, with the current market
brought up to date. -/
def openedMarkets (op : ExecuteOrderOperation) (prices : Model.Prices)
    (orderFeeDiscountFactor : ℕ) : Store.Result (RevertibleMarket × SwapMarkets) := do
  let account := accounts.markets op.market
  let addresses ← op.unpackMarketsForSwap accounts.order.swap account.key
  let swapMarkets ← accounts.storedSwapMarkets clock account.key addresses
  let market ← preExecuted
    (withOrderFeeDiscountFactor (account.stored clock) orderFeeDiscountFactor) prices
  return (market, swapMarkets)

/-- The whole order on the stored markets. -/
def transaction (op : ExecuteOrderOperation) (prices : Model.Prices)
    (orderFeeDiscountFactor : ℕ) : Store.Result Transacted := do
  let account := accounts.markets op.market
  let order := accounts.order
  account.validate accounts.store.key
  order.validateNonEmptyOrder
  order.validateTriggerPrice prices.indexTokenPrice
  let opened ← op.openedMarkets clock accounts prices orderFeeDiscountFactor
  if order.kind.isSwap then swapTransaction oracle accounts opened.1 opened.2
  else positionTransaction oracle clock accounts account prices opened.1 opened.2

end ExecuteOrderOperation

end Transaction

end Gmsol.Ops
