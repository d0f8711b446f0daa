import Gmsol.Action.Increase
import Gmsol.Ops.OrderAccount

/-!
# Executing the changes of an order

A swap order swaps its initial collateral along its path.  An increase order does the
same and adds what comes out to the position.  Each order kind that changes a position
has its own entry into an increase or a decrease.
-/

namespace Gmsol.Ops

open Fallible Container Store SwapPath

/-- What a step has made of the markets, and what it returns. -/
structure Stage (α : Type) where
  market : RevertibleMarket
  swapMarkets : SwapMarkets
  value : α

/-- A changed position, and what is to be paid out and paid for. -/
structure Changed where
  position : Model.Position
  transferOut : TransferOut
  shouldRemovePosition : Bool
  paidOrderFeeValue : ℕ

section

variable [Model.MarketNum] (oracle : SwapPath.Oracle) (prices : Model.Prices)

/-- Swaps the initial collateral into the current market. -/
def swapCollateral (market : RevertibleMarket) (swapMarkets : SwapMarkets)
    (order : OrderAccount) (tokenOut : Pubkey) : Store.Result (Stage ℕ) := do
  let tokenIn ← okOr order.initialCollateralToken .missingInitialCollateralToken
  let swapped ← revertibleSwap oracle swapMarkets ⟨true, market⟩ order.swap
    (tokenOut, tokenOut) (some tokenIn, none) (order.params.initialCollateralDeltaAmount, 0)
  return ⟨swapped.direction.currentMarket, swapped.markets, amountOf swapped.long⟩

/-! ## Increasing -/

structure Increased where
  market : RevertibleMarket
  position : Model.Position
  report : Model.IncreasePositionReport

def increasePosition (market : RevertibleMarket) (position : Model.Position)
    (params : Model.IncreasePositionParams) : Store.Result Increased :=
  ((Model.IncreasePosition.execute market.state position params).mapError .model).map
    fun done => ⟨{ market with state := done.1 }, done.2.1, done.2.2⟩

/-- Swaps, adds the collateral to the position, and gathers the claimable funding. -/
def executeIncreasePosition (market : RevertibleMarket) (position : Model.Position)
    (collateralToken : Pubkey) (swapMarkets : SwapMarkets) (transferOut : TransferOut)
    (order : OrderAccount) : Store.Result (Stage Changed) := do
  let swapped ← swapCollateral oracle market swapMarkets order collateralToken
  order.validateOutputAmount swapped.value
  let increased ← increasePosition swapped.market position
    ⟨swapped.value, order.params.sizeDeltaValue, some order.params.acceptablePrice, prices⟩
  let funding := increased.report.fees.funding
  let gathered ← transferOut.transferOutFundingAmounts funding.claimableLongTokenAmount
    funding.claimableShortTokenAmount
  let longAmount ← toAmount funding.claimableLongTokenAmount
  let shortAmount ← toAmount funding.claimableShortTokenAmount
  increased.market.validateMarketBalances longAmount shortAmount
  return ⟨increased.market, swapped.swapMarkets,
    ⟨increased.position, gathered, false, increased.report.fees.paidOrderFeeValue⟩⟩

/-! ## All kinds -/

def decreaseStage (market : RevertibleMarket) (position : Model.Position)
    (swapMarkets : SwapMarkets) (transferOut : TransferOut) (order : OrderAccount)
    (isInsolventCloseAllowed : Bool) (secondaryOrderType : Option SecondaryOrderType) :
    Store.Result (Stage Changed) := do
  let outcome ← executeDecreasePosition oracle prices market position swapMarkets
    transferOut order.toOrder isInsolventCloseAllowed secondaryOrderType
  return ⟨outcome.market, outcome.swapMarkets, ⟨outcome.position, outcome.transferOut,
    outcome.shouldRemovePosition, outcome.paidOrderFeeValue⟩⟩

def changePosition (market : RevertibleMarket) (position : Model.Position)
    (collateralToken : Pubkey) (swapMarkets : SwapMarkets) (transferOut : TransferOut)
    (order : OrderAccount) : Store.Result (Stage Changed) :=
  match order.kind with
  | .marketIncrease | .limitIncrease =>
    executeIncreasePosition oracle prices market position collateralToken swapMarkets
      transferOut order
  | .liquidation =>
    decreaseStage oracle prices market position swapMarkets transferOut order true
      (some .liquidation)
  | .autoDeleveraging =>
    decreaseStage oracle prices market position swapMarkets transferOut order true
      (some .autoDeleveraging)
  | .marketDecrease | .limitDecrease | .stopLossDecrease =>
    decreaseStage oracle prices market position swapMarkets transferOut order false none
  -- A swap order does not come here.
  | .marketSwap | .limitSwap => .error .panic

end

end Gmsol.Ops
