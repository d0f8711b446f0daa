import Gmsol.Action.Swap
import Gmsol.Model.Position

/-!
# Collateral processor

When a position is decreased its profit, losses and fees are settled one after
the other.  Each cost is paid from the output amount first, then from the
remaining collateral, and last from the secondary output amount, which is kept
in the other pool token.  A cost that cannot be paid in full stops the
settlement; the state reached so far is kept.
-/

namespace Gmsol.Model

open Gmsol.Fallible

inductive DecreasePositionSwapType
  | noSwap
  | pnlTokenToCollateralToken
  | collateralToPnlToken
  deriving DecidableEq, Repr

structure ClaimableCollateral where
  outputTokenAmount : ℕ
  secondaryOutputTokenAmount : ℕ
  deriving DecidableEq, Repr

namespace ClaimableCollateral

def zero : ClaimableCollateral := ⟨0, 0⟩

def tryAddAmount [MarketNum] (claimable : ClaimableCollateral) (amount : ℕ)
    (isOutputToken : Bool) : Result ClaimableCollateral :=
  if isOutputToken then do
    let next ← okOr (checkedAdd claimable.outputTokenAmount amount) .overflow
    return { claimable with outputTokenAmount := next }
  else do
    let next ←
      okOr (checkedAdd claimable.secondaryOutputTokenAmount amount) .overflow
    return { claimable with secondaryOutputTokenAmount := next }

end ClaimableCollateral

namespace CollateralProcessor

/-- What the processor is told about the position. -/
structure Context where
  prices : Prices
  isOutputTokenLong : Bool
  isPnlTokenLong : Bool
  arePnlAndCollateralTokensTheSame : Bool

namespace Context

def pnlTokenPrice (context : Context) : Price :=
  context.prices.collateralTokenPrice context.isPnlTokenLong

def outputTokenPrice (context : Context) : Price :=
  context.prices.collateralTokenPrice context.isOutputTokenLong

end Context

/-- The amounts a cost can be paid from. -/
structure Funds where
  outputAmount : ℕ
  remainingCollateralAmount : ℕ
  secondaryOutputAmount : ℕ
  deriving DecidableEq, Repr

/-- The settlement in progress.  `fundingPaidInCollateral` is the part of the
funding fee that was paid in the collateral token; the program hands it to the
market's payment callback. -/
structure State (isPure : Bool) where
  market : Market isPure
  funds : Funds
  forHolding : ClaimableCollateral
  forUser : ClaimableCollateral
  fees : PositionFees
  fundingPaidInCollateral : ℕ

/-- A state, and the step that ran out of funds if one did. -/
abbrev Outcome (isPure : Bool) := State isPure × Option InsolventCloseStep

variable [MarketNum] {isPure : Bool}

/-- The error texts of one source of payment. -/
structure DrawMessages where
  paidInFull : String
  available : String
  paidInPart : String
  cost : String

/-- Pays a cost from one source: the total paid so far, what is left of the
source and what is left of the cost. -/
def draw (messages : DrawMessages) (paid available cost : ℕ) :
    Result (ℕ × ℕ × ℕ) :=
  if available = 0 then .ok (paid, available, cost)
  else if available > cost then do
    let paidAfter ← okOr (checkedAdd paid cost)
      (.computation messages.paidInFull)
    let availableAfter ← okOr (checkedSub available cost)
      (.computation messages.available)
    return (paidAfter, availableAfter, 0)
  else do
    let paidAfter ← okOr (checkedAdd paid available)
      (.computation messages.paidInPart)
    let costAfter ← okOr (checkedSub cost available)
      (.computation messages.cost)
    return (paidAfter, 0, costAfter)

def drawOutput : ℕ → ℕ → ℕ → Result (ℕ × ℕ × ℕ) :=
  draw {
    paidInFull :=
      "overflow occurred while increasing paid amount for output token [1]"
    available := "underflow occurred while deducting output amount"
    paidInPart :=
      "overflow occurred while increasing paid amount for output token [2]"
    cost :=
      "underflow occurred while deducting remaining cost in output token [1]" }

def drawCollateral : ℕ → ℕ → ℕ → Result (ℕ × ℕ × ℕ) :=
  draw {
    paidInFull :=
      "overflow occurred while increasing paid amount in collateral token [1]"
    available := "underflow occurred while deducting collateral amount"
    paidInPart :=
      "overflow occurred while increasing paid amount for collateral token [2]"
    cost :=
      "underflow occurred while deducting remaining cost in output token [2]" }

def drawSecondary : ℕ → ℕ → ℕ → Result (ℕ × ℕ × ℕ) :=
  draw {
    paidInFull :=
      "overflow occurred while increasing paid amount in secondary token [1]"
    available := "underflow deducting secondary amount"
    paidInPart :=
      "overflow occurred while increasing paid amount for secondary token [2]"
    cost :=
      "underflow occurred while deducting remaining cost in secondary token [2]" }

/-- The result of paying for a cost. -/
structure Payment where
  funds : Funds
  paidInCollateral : ℕ
  paidInSecondary : ℕ
  remainingCost : ℕ
  deriving DecidableEq, Repr

/-- The last source: the rest of the cost as secondary output tokens. -/
def paySecondary (context : Context) (funds : Funds)
    (paidInCollateral remainingInOutputToken : ℕ) : Result Payment := do
  let inSecondary ← okOr (checkedMulDiv remainingInOutputToken
      (context.outputTokenPrice.pickPrice false)
      (context.pnlTokenPrice.pickPrice false))
    (.computation "initializing remaining cost in secondary output token")
  let drawn ← drawSecondary 0 funds.secondaryOutputAmount inSecondary
  let remainingCost ← okOr (checkedMul drawn.2.2
      (context.pnlTokenPrice.pickPrice false))
    (.computation "calculating remaining cost")
  return ⟨{ funds with secondaryOutputAmount := drawn.2.1 }, paidInCollateral,
    drawn.1, remainingCost⟩

def doPayForCost (context : Context) (funds : Funds) (cost : ℕ) :
    Result Payment :=
  if cost = 0 then .ok ⟨funds, 0, 0, 0⟩
  else do
    let inOutputToken ←
      okOr (checkedRoundUpDiv cost (context.outputTokenPrice.pickPrice false))
        (.computation "initializing cost in output tokens")
    let output ← drawOutput 0 funds.outputAmount inOutputToken
    let afterOutput := { funds with outputAmount := output.2.1 }
    if output.2.2 = 0 then return ⟨afterOutput, output.1, 0, 0⟩
    else
      let collateral ← drawCollateral output.1
        afterOutput.remainingCollateralAmount output.2.2
      let afterCollateral :=
        { afterOutput with remainingCollateralAmount := collateral.2.1 }
      if collateral.2.2 = 0 then return ⟨afterCollateral, collateral.1, 0, 0⟩
      else paySecondary context afterCollateral collateral.1 collateral.2.2

/-- Pays a cost, hands the payment to `receive` and stops with `step` when a
part of the cost is left. -/
def payForCost (context : Context) (state : State isPure) (cost : ℕ)
    (receive : State isPure → Payment → Result (State isPure))
    (step : InsolventCloseStep) : Result (Outcome isPure) := do
  let payment ← doPayForCost context state.funds cost
  let received ← receive { state with funds := payment.funds } payment
  return (received, if payment.remainingCost = 0 then none else some step)

def addPnlTokenAmount (context : Context) (funds : Funds) (amount : ℕ) :
    Result Funds :=
  if context.arePnlAndCollateralTokensTheSame then do
    let output ← okOr (checkedAdd funds.outputAmount amount) (.computation
      "overflow occurred while adding deduction amount to output_amount")
    return { funds with outputAmount := output }
  else do
    let secondary ← okOr (checkedAdd funds.secondaryOutputAmount amount)
      (.computation
        "overflow occurred while adding deduction amount to secondary_output_amount")
    return { funds with secondaryOutputAmount := secondary }

/-- Applies a nonzero delta to the liquidity pool. -/
def applyNonzeroDelta (market : Market isPure) (isLongToken : Bool)
    (delta : ℤ) : Result (Market isPure) :=
  if delta = 0 then .ok market else market.applyDelta isLongToken delta

def payToPrimaryPool (context : Context) (market : Market isPure)
    (collateralTokenAmount secondaryOutputTokenAmount : ℕ) :
    Result (Market isPure) := do
  let collateralDelta ← toSigned collateralTokenAmount
  let secondaryDelta ← toSigned secondaryOutputTokenAmount
  let withCollateral ←
    applyNonzeroDelta market context.isOutputTokenLong collateralDelta
  applyNonzeroDelta withCollateral context.isPnlTokenLong secondaryDelta

/-! ## The steps -/

/-- Takes a profit from the liquidity pool as pnl tokens. -/
def deductFromPool (context : Context) (state : State isPure) (profit : ℕ)
    (message : String) : Result (State isPure) := do
  let amount ← okOr (checkedDiv profit (context.pnlTokenPrice.pickPrice true))
    (.computation message)
  let delta ← toOppositeSigned amount
  let market ← state.market.applyDelta context.isPnlTokenLong delta
  let funds ← addPnlTokenAmount context state.funds amount
  return { state with market, funds }

def addPnlIfPositive (context : Context) (pnl : ℤ) (state : State isPure) :
    Result (State isPure) :=
  if 0 < pnl then
    deductFromPool context state pnl.natAbs
      "pnl: calculating deduction amount for pool"
  else .ok state

def addPriceImpactIfPositive (context : Context) (priceImpact : ℤ)
    (state : State isPure) : Result (State isPure) :=
  if 0 < priceImpact then do
    let amount ← okOr (checkedRoundUpDiv priceImpact.natAbs
        (context.prices.indexTokenPrice.pickPrice false))
      (.computation "calculating positive price impact amount")
    let delta ← toOppositeSigned amount
    let market ← state.market.applyDeltaToPositionImpactPool delta
    deductFromPool context { state with market } priceImpact.natAbs
      "impact: calculating deduction amount for pool"
  else .ok state

/-- Swaps the secondary output to the collateral token; a failing swap is
reported and otherwise ignored. -/
def swapProfitToCollateralTokens (context : Context)
    (swap : DecreasePositionSwapType) (state : State isPure) :
    Result (State isPure) :=
  if state.funds.secondaryOutputAmount ≠ 0 ∧
      swap = .pnlTokenToCollateralToken then do
    ensure (context.isPnlTokenLong ≠ context.isOutputTokenLong)
      (.invalidArgument "swap profit: swap is not required")
    match Swap.execute state.market
        ⟨context.isPnlTokenLong, state.funds.secondaryOutputAmount,
          context.prices⟩ with
    | .ok swapped =>
      let output ←
        okOr (checkedAdd state.funds.outputAmount swapped.2.tokenOutAmount)
          (.computation
            "swap profit: overflow occurred while adding token_out_amount")
      return { state with
        market := swapped.1
        funds := { state.funds with
          outputAmount := output, secondaryOutputAmount := 0 } }
    | .error (.panic message) => .error (.panic message)
    | .error _ => return state
  else .ok state

/-- Adds a nonzero amount to a claimable collateral. -/
def addNonzeroAmount (claimable : ClaimableCollateral) (amount : ℕ)
    (isOutputToken : Bool) : Result ClaimableCollateral :=
  if amount = 0 then .ok claimable
  else claimable.tryAddAmount amount isOutputToken

def receiveFunding (state : State isPure) (payment : Payment) :
    Result (State isPure) := do
  let forHolding ←
    addNonzeroAmount state.forHolding payment.paidInSecondary false
  return { state with
    forHolding
    fundingPaidInCollateral :=
      state.fundingPaidInCollateral + payment.paidInCollateral }

def payForFundingFees (context : Context) (state : State isPure) :
    Result (Outcome isPure) :=
  let costAmount := state.fees.funding.amount
  if costAmount = 0 then .ok (state, none)
  else do
    let cost ← okOr (checkedMul costAmount
        (context.outputTokenPrice.pickPrice false))
      (.computation "calculating funding fee cost")
    payForCost context state cost receiveFunding .funding

def receiveToPool (context : Context) (state : State isPure)
    (payment : Payment) : Result (State isPure) := do
  let market ← payToPrimaryPool context state.market payment.paidInCollateral
    payment.paidInSecondary
  return { state with market }

def payForPnlIfNegative (context : Context) (pnl : ℤ) (state : State isPure) :
    Result (Outcome isPure) :=
  if pnl < 0 then
    payForCost context state pnl.natAbs (receiveToPool context) .pnl
  else .ok (state, none)

/-- Fees paid entirely in the collateral token are split between pool and
receiver; otherwise everything that was paid goes to the pool and the fees are
cleared. -/
def receiveFees (context : Context) (state : State isPure)
    (payment : Payment) : Result (State isPure) :=
  if payment.remainingCost = 0 ∧ payment.paidInSecondary = 0 then do
    let forPool ← state.fees.forPool
    let poolDelta ← toSigned forPool
    let withPool ← state.market.applyDelta context.isOutputTokenLong poolDelta
    let forReceiver ← state.fees.forReceiver
    let receiverDelta ← toSigned forReceiver
    let market ← withPool.applyDeltaToClaimableFeePool context.isOutputTokenLong
      receiverDelta
    return { state with market }
  else do
    let market ← payToPrimaryPool context state.market payment.paidInCollateral
      payment.paidInSecondary
    return { state with
      market
      fees := { state.fees.clearFeesExcludingFunding with
        paidOrderFeeValue := 0 } }

def payForFeesExcludingFunding (context : Context) (state : State isPure) :
    Result (Outcome isPure) := do
  let costAmount ← state.fees.totalCostExcludingFunding
  if costAmount = 0 then return (state, none)
  else
    let cost ← okOr (checkedMul costAmount
        (context.outputTokenPrice.pickPrice false))
      (.computation "calculating total fee cost")
    payForCost context state cost (receiveFees context) .fees

/-- Credits the position impact pool with a payment, as index tokens. -/
def creditImpactPool (context : Context) (market : Market isPure)
    (amount price : ℕ) (message : String) : Result (Market isPure) :=
  if amount = 0 then .ok market
  else do
    let credit ← okOr (checkedMulDiv amount price
        (context.prices.indexTokenPrice.pickPrice true))
      (.computation message)
    let delta ← toSigned credit
    market.applyDeltaToPositionImpactPool delta

def receiveImpact (context : Context) (state : State isPure)
    (payment : Payment) : Result (State isPure) := do
  let paid ← payToPrimaryPool context state.market payment.paidInCollateral
    payment.paidInSecondary
  let credited ← creditImpactPool context paid payment.paidInCollateral
    (context.outputTokenPrice.pickPrice false)
    "calculating price impact paid in collateral (output) token"
  let market ← creditImpactPool context credited payment.paidInSecondary
    (context.pnlTokenPrice.pickPrice false)
    "calculating price impact paid in secondary output token"
  return { state with market }

def payForPriceImpactIfNegative (context : Context) (priceImpact : ℤ)
    (state : State isPure) : Result (Outcome isPure) :=
  if priceImpact < 0 then
    payForCost context state priceImpact.natAbs (receiveImpact context) .impact
  else .ok (state, none)

def receiveDiff (state : State isPure) (payment : Payment) :
    Result (State isPure) := do
  let withOutput ← addNonzeroAmount state.forUser payment.paidInCollateral true
  let forUser ← addNonzeroAmount withOutput payment.paidInSecondary false
  return { state with forUser }

def payForPriceImpactDiff (context : Context) (priceImpactDiff : ℕ)
    (state : State isPure) : Result (Outcome isPure) :=
  if priceImpactDiff = 0 then .ok (state, none)
  else payForCost context state priceImpactDiff receiveDiff .diff

/-! ## The whole settlement -/

/-- Continues with the next step unless a step has run out of funds. -/
def andThen (outcome : Outcome isPure)
    (next : State isPure → Result (Outcome isPure)) : Result (Outcome isPure) :=
  match outcome.2 with
  | some step => .ok (outcome.1, some step)
  | none => next outcome.1

/-- What is settled: profit or loss, price impact and the impact cut off by
the cap, and how profits are swapped. -/
structure Settlement where
  pnl : ℤ
  priceImpact : ℤ
  priceImpactDiff : ℕ
  swap : DecreasePositionSwapType

def addProfits (context : Context) (settlement : Settlement)
    (state : State isPure) : Result (State isPure) := do
  let withPnl ← addPnlIfPositive context settlement.pnl state
  let withImpact ←
    addPriceImpactIfPositive context settlement.priceImpact withPnl
  swapProfitToCollateralTokens context settlement.swap withImpact

/-- Everything up to the payment of the fees other than funding. -/
def processBeforeFees (context : Context) (settlement : Settlement)
    (state : State isPure) : Result (Outcome isPure) := do
  let profited ← addProfits context settlement state
  let funded ← payForFundingFees context profited
  andThen funded (payForPnlIfNegative context settlement.pnl)

def processAll (context : Context) (settlement : Settlement)
    (state : State isPure) : Result (Outcome isPure) := do
  let before ← processBeforeFees context settlement state
  let withFees ← andThen before (payForFeesExcludingFunding context)
  let withImpact ← andThen withFees
    (payForPriceImpactIfNegative context settlement.priceImpact)
  andThen withImpact (payForPriceImpactDiff context settlement.priceImpactDiff)

/-- Runs the settlement; running out of funds is an error unless an insolvent
close is allowed. -/
def process (context : Context) (settlement : Settlement)
    (isInsolventCloseAllowed : Bool) (state : State isPure) :
    Result (Outcome isPure) := do
  let outcome ← processAll context settlement state
  match outcome.2 with
  | none => return outcome
  | some step =>
    if isInsolventCloseAllowed then return outcome
    else .error (.insufficientFundsToPayForCosts step)

end CollateralProcessor

end Gmsol.Model
