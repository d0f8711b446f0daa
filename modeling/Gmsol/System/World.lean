import Gmsol.Action.Decrease
import Gmsol.Action.FeeState
import Gmsol.Action.Liquidity
import Gmsol.Library.Run
import Gmsol.Model.Bank

/-!
# The market as a transition system

One market and any finite family of positions, driven by every action of the
program in any order.  Between actions the clock may move and the market may be
reconfigured.  Each step reports the token flows its transfers are made from.
-/

namespace Gmsol.System

open Gmsol.Fallible Gmsol.Model

variable {isPure : Bool} {ι : Type}

structure World (isPure : Bool) (ι : Type) where
  market : Market isPure
  positions : ι → Position

inductive Action (ι : Type)
  | deposit (params : DepositParams)
  | withdraw (params : WithdrawParams)
  | swap (params : SwapParams)
  | increase (index : ι) (params : IncreasePositionParams)
  | decrease (index : ι) (params : DecreasePositionParams)
  | updateFunding (prices : Prices)
  | updateBorrowing (prices : Prices)
  | distributePositionImpact
  | tick (clock : SysvarClock)
  | configure (config : MarketConfig) (isEnabled : Bool)

/-- The tokens of one step: what was taken in, what is paid out and, of the
funding fees, what was charged, what of it was paid in collateral and what the
position may claim. -/
structure Flow where
  taken : Bool → ℕ
  paid : Bool → ℕ
  fundingCharged : Bool → ℕ
  fundingPaid : Bool → ℕ
  fundingCredited : Bool → ℕ

/-- An amount of the token of one side, seen from one of the two tokens; in a
pure market both sides hold the same token. -/
def inToken (isPure side token : Bool) (amount : ℕ) : ℕ :=
  if isPure || side == token then amount else 0

namespace Flow

def none : Flow := ⟨fun _ => 0, fun _ => 0, fun _ => 0, fun _ => 0, fun _ => 0⟩

def ofDeposit (isPure : Bool) (params : DepositParams) : Flow :=
  { none with
    taken := fun token =>
      inToken isPure true token params.longTokenAmount +
        inToken isPure false token params.shortTokenAmount }

def ofWithdraw (isPure : Bool) (report : WithdrawReport) : Flow :=
  { none with
    paid := fun token =>
      inToken isPure true token report.longTokenOutput +
        inToken isPure false token report.shortTokenOutput }

def ofSwap (isPure : Bool) (params : SwapParams) (report : SwapReport) : Flow :=
  { none with
    taken := fun token =>
      inToken isPure params.isTokenInLong token params.tokenInAmount
    paid := fun token =>
      inToken isPure (!params.isTokenInLong) token report.tokenOutAmount }

/-- The funding amounts a settlement credits to the position. -/
def credited (isPure : Bool) (fees : FundingFees) (token : Bool) : ℕ :=
  inToken isPure true token fees.claimableLongTokenAmount +
    inToken isPure false token fees.claimableShortTokenAmount

def ofIncrease (isPure : Bool) (position : Position)
    (params : IncreasePositionParams) (report : IncreasePositionReport) : Flow where
  taken := fun token =>
    inToken isPure position.isCollateralTokenLong token
      params.collateralIncrementAmount
  paid := credited isPure report.fees.funding
  fundingCharged := fun token =>
    inToken isPure position.isCollateralTokenLong token
      report.fees.funding.amount
  fundingPaid := fun token =>
    inToken isPure position.isCollateralTokenLong token
      report.fees.funding.amount
  fundingCredited := credited isPure report.fees.funding

/-- The outputs and claimable collateral of a decrease. -/
def outputs (isPure : Bool) (report : DecreasePositionReport)
    (token : Bool) : ℕ :=
  inToken isPure report.isOutputTokenLong token
      (report.outputAmount + report.forHolding.outputTokenAmount +
        report.forUser.outputTokenAmount) +
    inToken isPure report.isSecondaryOutputTokenLong token
      (report.secondaryOutputAmount +
        report.forHolding.secondaryOutputTokenAmount +
        report.forUser.secondaryOutputTokenAmount)

def ofDecrease (isPure : Bool) (report : DecreasePositionReport) : Flow where
  taken := fun _ => 0
  paid := fun token =>
    outputs isPure report token + credited isPure report.fees.funding token
  fundingCharged := fun token =>
    inToken isPure report.isOutputTokenLong token report.fees.funding.amount
  fundingPaid := fun token =>
    inToken isPure report.isOutputTokenLong token report.fundingPaidInCollateral
  fundingCredited := credited isPure report.fees.funding

end Flow

/-- A new market with positions that have not been opened yet. -/
def World.init (config : MarketConfig) (isEnabled : Bool) (clock : SysvarClock)
    (isLong isCollateralTokenLong : ι → Bool) : World isPure ι where
  market := .init isPure config isEnabled clock
  positions := fun index =>
    .empty (isLong index) (isCollateralTokenLong index)

namespace World

variable [MarketNum] [DecidableEq ι]

/-- Replaces the market and one position. -/
def update (world : World isPure ι) (market : Market isPure) (index : ι)
    (position : Position) : World isPure ι :=
  ⟨market, Function.update world.positions index position⟩

omit [MarketNum] in
/-- What all positions and the next one have, all positions have afterwards. -/
theorem forall_update (holds : Position → Prop) {world : World isPure ι}
    {market : Market isPure} {index : ι} {next : Position}
    (hbefore : ∀ other, holds (world.positions other)) (hnext : holds next)
    (other : ι) : holds ((world.update market index next).positions other) :=
  (Function.forall_update_iff world.positions fun _ => holds).mpr
    ⟨hnext, fun other _ => hbefore other⟩ other

def step (world : World isPure ι) : Action ι → Result (World isPure ι × Flow)
  | .deposit params => do
    let done ← Deposit.execute world.market params
    return ({ world with market := done.1 }, .ofDeposit isPure params)
  | .withdraw params => do
    let done ← Withdrawal.execute world.market params
    return ({ world with market := done.1 }, .ofWithdraw isPure done.2)
  | .swap params => do
    let done ← Swap.execute world.market params
    return ({ world with market := done.1 }, .ofSwap isPure params done.2)
  | .increase index params => do
    let position := world.positions index
    let done ← IncreasePosition.execute world.market position params
    return (world.update done.1 index done.2.1,
      .ofIncrease isPure position params done.2.2)
  | .decrease index params => do
    let done ← DecreasePosition.execute world.market (world.positions index) params
    return (world.update done.1 index done.2.1, .ofDecrease isPure done.2.2)
  | .updateFunding prices => do
    let done ← UpdateFundingState.execute world.market prices
    return ({ world with market := done.1 }, .none)
  | .updateBorrowing prices => do
    let done ← UpdateBorrowingState.execute world.market prices
    return ({ world with market := done.1 }, .none)
  | .distributePositionImpact => do
    let done ← DistributePositionImpact.execute world.market
    return ({ world with market := done.1 }, .none)
  | .tick clock =>
    .ok ({ world with market := { world.market with clock } }, .none)
  | .configure config isEnabled =>
    .ok ({ world with market := { world.market with config, isEnabled } }, .none)

/-- The tokens an action takes in. -/
def taken (world : World isPure ι) (token : Bool) : Action ι → ℕ
  | .deposit params =>
    inToken isPure true token params.longTokenAmount +
      inToken isPure false token params.shortTokenAmount
  | .swap params => inToken isPure params.isTokenInLong token params.tokenInAmount
  | .increase index params =>
    inToken isPure (world.positions index).isCollateralTokenLong token
      params.collateralIncrementAmount
  | .withdraw _ | .decrease _ _ | .updateFunding _ | .updateBorrowing _
  | .distributePositionImpact | .tick _ | .configure _ _ => 0

end World

/-! ## Recorded transfers -/

/-- Records the transfers of both tokens. -/
def recordBoth (record : Market false → Bool → ℕ → Result (Market false))
    (market : Market false) (amounts : Bool → ℕ) : Result (Market false) := do
  let withLong ← record market true (amounts true)
  record withLong false (amounts false)

/-- A step whose input is recorded as transferred in before it and whose outputs
are recorded as transferred out after it. -/
def World.recordedStep [MarketNum] [DecidableEq ι] (world : World false ι)
    (action : Action ι) : Result (World false ι × Flow) := do
  let received ← recordBoth Market.recordTransferredIn world.market
    (world.taken · action)
  let done ← World.step { world with market := received } action
  let paid ←
    recordBoth Market.recordTransferredOut done.1.market done.2.paid
  return ({ done.1 with market := paid }, done.2)

end Gmsol.System
