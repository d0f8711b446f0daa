import Gmsol.Model.Pool

/-!
# Fee parameters and fees

The parameters a market charges fees by, and the fees themselves.  A fee is
computed as a total that is split into the receiver's share, which goes to the
claimable fee pool, and the remainder, which stays in the liquidity pool.
-/

namespace Gmsol.Model

open Gmsol.Fallible

/-! ## Fees -/

structure Fees where
  feeAmountForReceiver : ℕ
  feeAmountForPool : ℕ
  deriving DecidableEq, Repr

structure OrderFees where
  base : Fees
  feeValue : ℕ
  deriving DecidableEq, Repr

structure BorrowingFees where
  feeAmount : ℕ
  feeAmountForReceiver : ℕ
  deriving DecidableEq, Repr

structure FundingFees where
  amount : ℕ
  claimableLongTokenAmount : ℕ
  claimableShortTokenAmount : ℕ
  deriving DecidableEq, Repr

structure LiquidationFees where
  feeValue : ℕ
  feeAmount : ℕ
  feeAmountForReceiver : ℕ
  deriving DecidableEq, Repr

structure PositionFees where
  paidOrderFeeValue : ℕ
  order : OrderFees
  borrowing : BorrowingFees
  funding : FundingFees
  liquidation : Option LiquidationFees
  deriving DecidableEq, Repr

namespace Fees

def zero : Fees := ⟨0, 0⟩

end Fees

namespace OrderFees

def zero : OrderFees := ⟨.zero, 0⟩

end OrderFees

namespace BorrowingFees

def zero : BorrowingFees := ⟨0, 0⟩

def feeAmountForPool (fees : BorrowingFees) : Result ℕ :=
  okOr (checkedSub fees.feeAmount fees.feeAmountForReceiver)
    (.computation "borrowing fee: calculating fee for pool")

end BorrowingFees

namespace FundingFees

def zero : FundingFees := ⟨0, 0, 0⟩

end FundingFees

namespace LiquidationFees

def zero : LiquidationFees := ⟨0, 0, 0⟩

def feeAmountForPool (fees : LiquidationFees) : Result ℕ :=
  okOr (checkedSub fees.feeAmount fees.feeAmountForReceiver)
    (.computation "liquidation fee: calculating fee for pool")

end LiquidationFees

namespace PositionFees

variable [MarketNum]

def forReceiver (fees : PositionFees) : Result ℕ :=
  okOr (do
      let total ← checkedAdd fees.order.base.feeAmountForReceiver
        fees.borrowing.feeAmountForReceiver
      match fees.liquidation with
      | some liquidation => checkedAdd total liquidation.feeAmountForReceiver
      | none => some total)
    (.computation "calculating fee for receiver")

def forPool (fees : PositionFees) : Result ℕ := do
  let borrowingForPool ← fees.borrowing.feeAmountForPool
  let total ← okOr (checkedAdd fees.order.base.feeAmountForPool borrowingForPool)
    (.computation "adding borrowing fee for pool")
  match fees.liquidation with
  | some liquidation => do
    let liquidationForPool ← liquidation.feeAmountForPool
    okOr (checkedAdd total liquidationForPool)
      (.computation "adding liquidation fee for pool")
  | none => .ok total

def totalCostExcludingFunding (fees : PositionFees) : Result ℕ :=
  okOr (do
      let order ← checkedAdd fees.order.base.feeAmountForPool
        fees.order.base.feeAmountForReceiver
      let total ← checkedAdd order fees.borrowing.feeAmount
      match fees.liquidation with
      | some liquidation => checkedAdd total liquidation.feeAmount
      | none => some total)
    (.computation "overflow while calculating total cost excluding funding")

def totalCostAmount (fees : PositionFees) : Result ℕ := do
  let total ← fees.totalCostExcludingFunding
  okOr (checkedAdd total fees.funding.amount) .overflow

omit [MarketNum] in
def clearFeesExcludingFunding (fees : PositionFees) : PositionFees :=
  { fees with order := .zero, borrowing := .zero, liquidation := none }

def setBorrowingFees (fees : PositionFees) (receiverFactor : ℕ) (price : Price)
    (value : ℕ) : Result PositionFees := do
  let amount ← okOr (checkedDiv value (price.pickPrice false))
    (.computation "calculating borrowing amount")
  let forReceiver ← okOr (applyFactor amount receiverFactor)
    (.computation "calculating borrowing fee amount for receiver")
  return { fees with borrowing := ⟨amount, forReceiver⟩ }

end PositionFees

/-! ## Fee parameters -/

structure FeeParams where
  positiveImpactFeeFactor : ℕ
  negativeImpactFeeFactor : ℕ
  feeReceiverFactor : ℕ
  discountFactor : Option ℕ
  deriving DecidableEq, Repr

namespace FeeParams

variable [MarketNum]

def factor (params : FeeParams) (isPositiveImpact : Bool) : ℕ :=
  if isPositiveImpact then params.positiveImpactFeeFactor
  else params.negativeImpactFeeFactor

def fee (params : FeeParams) (isPositiveImpact : Bool) (amount : ℕ) :
    Option ℕ := do
  let fee ← applyFactor amount (params.factor isPositiveImpact)
  let discount ← applyFactor fee (params.discountFactor.getD 0)
  checkedSub fee discount

def receiverFee (params : FeeParams) (feeAmount : ℕ) : Option ℕ :=
  applyFactor feeAmount params.feeReceiverFactor

/-- The amount after fees together with the fees taken from it. -/
def applyFees (params : FeeParams) (isPositiveImpact : Bool) (amount : ℕ) :
    Option (ℕ × Fees) := do
  let feeAmount ← params.fee isPositiveImpact amount
  let receiverAmount ← params.receiverFee feeAmount
  let poolAmount ← checkedSub feeAmount receiverAmount
  let remaining ← checkedSub amount feeAmount
  return (remaining, ⟨receiverAmount, poolAmount⟩)

def orderFees (params : FeeParams) (collateralTokenPrice : Price)
    (sizeDeltaUsd : ℕ) (isPositiveImpact : Bool) : Result OrderFees := do
  ensure (collateralTokenPrice.hasZero = false) .invalidPrices
  let feeValue ← okOr (params.fee isPositiveImpact sizeDeltaUsd)
    (.computation "calculating order fee value")
  let feeAmount ←
    okOr (checkedDiv feeValue (collateralTokenPrice.pickPrice false))
      (.computation "calculating order fee amount")
  let receiverAmount ← okOr (params.receiverFee feeAmount)
    (.computation "calculating order receiver fee")
  let poolAmount ← okOr (checkedSub feeAmount receiverAmount)
    (.computation "calculating order fee for pool")
  return ⟨⟨receiverAmount, poolAmount⟩, feeValue⟩

def basePositionFees (params : FeeParams) (collateralTokenPrice : Price)
    (sizeDeltaUsd : ℕ) (isPositiveImpact : Bool) : Result PositionFees := do
  let order ←
    params.orderFees collateralTokenPrice sizeDeltaUsd isPositiveImpact
  return {
    paidOrderFeeValue := order.feeValue
    order := order
    borrowing := .zero
    funding := .zero
    liquidation := none }

end FeeParams

structure BorrowingFeeParams where
  receiverFactor : ℕ
  exponent : Bool → ℕ
  factor : Bool → ℕ
  skipBorrowingFeeForSmallerSide : Bool

structure BorrowingFeeKinkModelParamsForOneSide where
  optimalUsageFactor : ℕ
  baseBorrowingFactor : ℕ
  aboveOptimalUsageBorrowingFactor : ℕ
  deriving DecidableEq, Repr

inductive FundingRateChangeType
  | noChange
  | increase
  | decrease
  deriving DecidableEq, Repr

structure FundingFeeParams where
  exponent : ℕ
  fundingFactor : ℕ
  increaseFactorPerSecond : ℕ
  decreaseFactorPerSecond : ℕ
  maxFactorPerSecond : ℕ
  minFactorPerSecond : ℕ
  thresholdForStableFunding : ℕ
  thresholdForDecreaseFunding : ℕ
  deriving DecidableEq, Repr

def FundingFeeParams.change (params : FundingFeeParams)
    (fundingFactorPerSecond : ℤ) (longOpenInterest shortOpenInterest
    diffFactor : ℕ) : FundingRateChangeType :=
  let isSkewTheSameDirectionAsFunding :=
    (0 < fundingFactorPerSecond ∧ longOpenInterest > shortOpenInterest) ∨
      (fundingFactorPerSecond < 0 ∧ longOpenInterest < shortOpenInterest)
  if isSkewTheSameDirectionAsFunding then
    if diffFactor > params.thresholdForStableFunding then .increase
    else if diffFactor < params.thresholdForDecreaseFunding then .decrease
    else .noChange
  else .increase

structure LiquidationFeeParams where
  factor : ℕ
  receiverFactor : ℕ
  deriving DecidableEq, Repr

def LiquidationFeeParams.fee [MarketNum] (params : LiquidationFeeParams)
    (sizeDeltaUsd : ℕ) (collateralTokenPrice : Price) :
    Result LiquidationFees :=
  if params.factor = 0 then .ok .zero
  else do
    let feeValue ← okOr (applyFactor sizeDeltaUsd params.factor)
      (.computation "liquidation fee: calculating fee value")
    let feeAmount ←
      okOr (checkedRoundUpDiv feeValue (collateralTokenPrice.pickPrice false))
        (.computation "liquidation fee: calculating fee amount")
    let forReceiver ← okOr (applyFactor feeAmount params.receiverFactor)
      (.computation "liquidation fee: calculating fee amount for receiver")
    return ⟨feeValue, feeAmount, forReceiver⟩

structure PositionParams where
  minPositionSizeUsd : ℕ
  minCollateralValue : ℕ
  minCollateralFactor : ℕ
  maxPositivePositionImpactFactor : ℕ
  maxNegativePositionImpactFactor : ℕ
  maxPositionImpactFactorForLiquidations : ℕ
  deriving DecidableEq, Repr

structure PositionImpactDistributionParams where
  distributeFactor : ℕ
  minPositionImpactPoolAmount : ℕ
  deriving DecidableEq, Repr

end Gmsol.Model
