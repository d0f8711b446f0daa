import Gmsol.Ops.Decrease
import Gmsol.Store.Gt

/-!
# Order accounts

An order account holds, beside what its execution needs, the conditions under which it
may be executed: a time from which it is valid, a trigger price, and how old and how new
the prices have to be.
-/

namespace Gmsol.Ops

open Fallible Container Store SwapPath

namespace OrderKind

def isMarket (kind : OrderKind) : Bool :=
  kind = .marketSwap ∨ kind = .marketIncrease ∨ kind = .marketDecrease

def isSwap (kind : OrderKind) : Bool := kind = .marketSwap ∨ kind = .limitSwap

def isIncreasePosition (kind : OrderKind) : Bool :=
  kind = .limitIncrease ∨ kind = .marketIncrease

def isDecreasePosition (kind : OrderKind) : Bool :=
  kind = .limitDecrease ∨ kind = .marketDecrease ∨ kind = .liquidation ∨
    kind = .autoDeleveraging ∨ kind = .stopLossDecrease

def isMarketDecrease (kind : OrderKind) : Bool := kind = .marketDecrease

end OrderKind

inductive ActionState
  | pending
  | completed
  | cancelled
  deriving DecidableEq, Repr

/-- Only a pending action can be completed. -/
def ActionState.complete : ActionState → Store.Result ActionState
  | pending => .ok completed
  | completed | cancelled => .error .preconditionsAreNotMet

structure OrderAccount extends Order where
  actionState : ActionState
  rentReceiver : Pubkey
  updatedAt : ℤ
  updatedAtSlot : ℕ
  initialCollateralToken : Option Pubkey
  triggerPrice : ℕ
  validFromTs : ℤ
  gtReward : ℕ

namespace OrderAccount

def kind (order : OrderAccount) : OrderKind := order.params.kind

def completed (order : OrderAccount) : Store.Result OrderAccount := do
  let actionState ← order.actionState.complete
  return { order with actionState }

/-- Market orders are valid at once. -/
def validateValidFromTs (order : OrderAccount) (clock : Model.SysvarClock) :
    Store.Result Unit :=
  if order.kind.isMarket then .ok ()
  else ensure (order.validFromTs ≤ clock.unixTimestamp) .requireGteViolated

/-- An empty market decrease order is allowed: it claims the funding rebates. -/
def validateNonEmptyOrder (order : OrderAccount) : Store.Result Unit :=
  if order.kind.isIncreasePosition ∨ order.kind.isDecreasePosition then
    ensure (order.params.sizeDeltaValue ≠ 0 ∨
      order.params.initialCollateralDeltaAmount ≠ 0 ∨ order.kind.isMarketDecrease) .emptyOrder
  else ensure (order.params.initialCollateralDeltaAmount ≠ 0) .emptyOrder

/-- The price has come down to the trigger price. -/
def validateNotAbove (triggerPrice : ℕ) (indexPrice : Model.Price) : Store.Result Unit :=
  ensure (indexPrice.pickPrice true ≤ triggerPrice) .invalidTriggerPrice

/-- The price has gone up to the trigger price. -/
def validateNotBelow (triggerPrice : ℕ) (indexPrice : Model.Price) : Store.Result Unit :=
  ensure (triggerPrice ≤ indexPrice.pickPrice false) .invalidTriggerPrice

def validateTriggerPrice (order : OrderAccount) (indexPrice : Model.Price) :
    Store.Result Unit :=
  match order.kind with
  | .limitIncrease =>
    if order.params.isLong then validateNotAbove order.triggerPrice indexPrice
    else validateNotBelow order.triggerPrice indexPrice
  | .limitDecrease =>
    if order.params.isLong then validateNotBelow order.triggerPrice indexPrice
    else validateNotAbove order.triggerPrice indexPrice
  | .stopLossDecrease =>
    if order.params.isLong then
      ensure (indexPrice.pickPrice false ≤ order.triggerPrice) .invalidTriggerPrice
    else ensure (order.triggerPrice ≤ indexPrice.pickPrice true) .invalidTriggerPrice
  -- A limit swap has its minimum output in place of a trigger price.
  | .limitSwap => .ok ()
  | .marketSwap | .marketIncrease | .marketDecrease | .liquidation | .autoDeleveraging =>
    .ok ()

end OrderAccount

/-! ## The time of the prices -/

/-- The oracle with the times of its prices. -/
structure TimedOracle extends SwapPath.Oracle where
  minOracleSlot : Option ℕ
  minOracleTs : ℤ
  maxOracleTs : ℤ

namespace TimedOracle

def validateMinOracleSlot (oracle : TimedOracle) (updatedAfterSlot : Option ℕ) :
    Store.Result Unit := do
  let minSlot ← okOr oracle.minOracleSlot .oracleNotUpdated
  ensure (∀ slot ∈ updatedAfterSlot, slot ≤ minSlot) .invalidOracleSlot

def validateMinOracleTs (oracle : TimedOracle) (updatedAfter : Option ℤ) :
    Store.Result Unit :=
  ensure (∀ after ∈ updatedAfter, after ≤ oracle.minOracleTs)
    .oracleTimestampsAreSmallerThanRequired

def validateMaxOracleTs (oracle : TimedOracle) (updatedBefore : Option ℤ) :
    Store.Result Unit :=
  ensure (∀ before ∈ updatedBefore, oracle.maxOracleTs ≤ before)
    .oracleTimestampsAreLargerThanRequired

end TimedOracle

end Gmsol.Ops
