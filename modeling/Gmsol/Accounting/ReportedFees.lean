import Gmsol.Accounting.Decrease

/-!
# Reported fees

The fees in the report of a decrease are those that the settlement was started with,
unless the payment of the fees clears them.  A settlement that runs out of funds before
this payment reports fees that nobody was paid, and so does one whose payment falls short
by less than one pnl token: the pools are credited with more than was taken.
-/

namespace Gmsol.Model

open Gmsol.Fallible Gmsol.System

variable {isPure : Bool}

namespace PositionFees

/-- All fees other than funding, and the fee value that GT is minted for, are zero. -/
structure NoneButFunding (fees : PositionFees) : Prop where
  paidOrderFeeValue : fees.paidOrderFeeValue = 0
  order : fees.order.base = .zero
  borrowing : fees.borrowing = .zero
  liquidation : ∀ liquidation, fees.liquidation = some liquidation →
    liquidation.feeAmount = 0 ∧ liquidation.feeAmountForReceiver = 0

theorem noneButFunding_clear (fees : PositionFees) :
    NoneButFunding { fees.clearFeesExcludingFunding with paidOrderFeeValue := 0 } where
  paidOrderFeeValue := rfl
  order := rfl
  borrowing := rfl
  liquidation := fun _ hsome => absurd hsome (by simp [clearFeesExcludingFunding])

end PositionFees

/-! ## Fees that cost nothing -/

namespace PositionFees

theorem NoneButFunding.cost_eq_zero [MarketNum] {fees : PositionFees} {cost : ℕ}
    (hnone : fees.NoneButFunding) (hcost : fees.totalCostExcludingFunding = .ok cost) :
    cost = 0 := by
  simp only [totalCostExcludingFunding, hnone.order, hnone.borrowing, okOr_eq_ok,
    option_bind_eq_some, checkedAdd_eq_some] at hcost
  obtain ⟨_, ⟨_, rfl⟩, _, ⟨_, rfl⟩, hcost⟩ := hcost
  cases hliquidation : fees.liquidation with
  | none =>
      rw [hliquidation] at hcost
      exact (Option.some.inj hcost).symm
  | some liquidation =>
      simp only [hliquidation, checkedAdd_eq_some,
        (hnone.liquidation liquidation hliquidation).1] at hcost
      exact hcost.2.symm

/-- The receiver has no share of a fee that is zero. -/
structure Shared (fees : PositionFees) : Prop where
  borrowing : fees.borrowing.feeAmount = 0 → fees.borrowing.feeAmountForReceiver = 0
  liquidation : ∀ liquidation, fees.liquidation = some liquidation →
    liquidation.feeAmount = 0 → liquidation.feeAmountForReceiver = 0

variable [MarketNum]

/-- Shared fees that cost nothing have no shares. -/
theorem Shared.shares_eq_zero {fees : PositionFees} (hshared : fees.Shared)
    (hcost : fees.totalCostExcludingFunding = .ok 0) :
    fees.forPool = .ok 0 ∧ fees.forReceiver = .ok 0 := by
  simp only [totalCostExcludingFunding, okOr_eq_ok, option_bind_eq_some,
    checkedAdd_eq_some] at hcost
  obtain ⟨_, ⟨horderFits, rfl⟩, _, ⟨htotalFits, rfl⟩, hcost⟩ := hcost
  have hborrowing := hshared.borrowing
  simp only [forPool, forReceiver, BorrowingFees.feeAmountForPool,
    LiquidationFees.feeAmountForPool, bind_eq_ok, okOr_eq_ok, option_bind_eq_some,
    checkedAdd_eq_some, checkedSub_eq_some]
  cases hliquidation : fees.liquidation with
  | none =>
      simp only [hliquidation, Option.some.injEq, Except.ok.injEq] at hcost ⊢
      refine ⟨⟨_, ⟨?_, rfl⟩, _, ⟨?_, rfl⟩, ?_⟩, ⟨_, ⟨?_, rfl⟩, ?_⟩⟩ <;> omega
  | some liquidation =>
      have hliquidationShare := hshared.liquidation liquidation hliquidation
      simp only [hliquidation, checkedAdd_eq_some, bind_eq_ok, okOr_eq_ok,
        checkedSub_eq_some] at hcost ⊢
      refine ⟨⟨_, ⟨?_, rfl⟩, _, ⟨?_, rfl⟩, _, ⟨?_, rfl⟩, ?_, ?_⟩,
        ⟨_, ⟨?_, rfl⟩, ?_, ?_⟩⟩ <;> omega

end PositionFees

theorem LiquidationFeeParams.fee_shared [MarketNum] {params : LiquidationFeeParams}
    {sizeDeltaUsd : ℕ} {price : Price} {fees : LiquidationFees}
    (hfee : params.fee sizeDeltaUsd price = .ok fees) (hzero : fees.feeAmount = 0) :
    fees.feeAmountForReceiver = 0 := by
  unfold fee at hfee
  split at hfee
  · rw [← Except.ok.inj hfee]
    rfl
  · simp only [bind_eq_ok, okOr_eq_ok, pure_eq_ok, applyFactor_eq_some] at hfee
    obtain ⟨_, _, _, _, _, ⟨_, rfl⟩, rfl⟩ := hfee
    dsimp only at hzero ⊢
    rw [hzero, zero_mul, Nat.zero_div]

theorem Position.positionFees_shared [MarketNum] {position : Position}
    {market : Market isPure} {price : Price} {sizeDeltaUsd : ℕ}
    {isPositive isLiquidation : Bool} {fees : PositionFees}
    (hfees : position.positionFees market price sizeDeltaUsd isPositive isLiquidation =
      .ok fees) :
    fees.Shared := by
  simp only [positionFees, PositionFees.setBorrowingFees, bind_eq_ok, pure_eq_ok,
    okOr_eq_ok, applyFactor_eq_some] at hfees
  obtain ⟨liquidation, hliquidation, _, _, _, _, _, ⟨_, _, _, ⟨_, rfl⟩, rfl⟩, _, _,
    rfl⟩ := hfees
  refine ⟨fun hzero => ?_, fun found hfound hzero => ?_⟩
  · dsimp only at hzero ⊢
    rw [hzero, zero_mul, Nat.zero_div]
  · dsimp only at hfound
    subst hfound
    cases isLiquidation with
    | true =>
        simp only [liquidationFees, if_true, bind_eq_ok, pure_eq_ok,
          Option.some.injEq] at hliquidation
        obtain ⟨_, hfee, rfl⟩ := hliquidation
        exact LiquidationFeeParams.fee_shared hfee hzero
    | false => exact absurd (Except.ok.inj hliquidation) (by simp)

/-- The shares of the fees are credited to the liquidity pool and to the claimable fee
pool, and nothing else changes. -/
structure Market.FeesCredited [MarketNum] (side : Bool) (fees : PositionFees)
    (before after : Market isPure) : Prop where
  forPool : ∃ amount, fees.forPool = .ok amount ∧ ∀ token,
    after.primary.tokenAmount token =
      before.primary.tokenAmount token + inToken isPure side token amount
  forReceiver : ∃ amount, fees.forReceiver = .ok amount ∧ ∀ token,
    after.claimableFee.tokenAmount token =
      before.claimableFee.tokenAmount token + inToken isPure side token amount
  others : ∃ primary claimableFee, after = { before with primary, claimableFee }

namespace CollateralProcessor

variable {context : Context}

/-! ## Funds that last -/

/-- The collateral tokens among the funds. -/
def Funds.inCollateralToken (funds : Funds) : ℕ :=
  funds.outputAmount + funds.remainingCollateralAmount

/-- The secondary output that a cost takes beside the collateral tokens. -/
def secondaryNeeded (context : Context) (inCollateralToken cost : ℕ) : ℕ :=
  (cost ⌈/⌉ context.outputTokenPrice.pickPrice false - inCollateralToken) *
    context.outputTokenPrice.pickPrice false / context.pnlTokenPrice.pickPrice false

/-- The funds pay the funding fee and then the loss in full. -/
def Funds.LastUntilFees (context : Context) (funds : Funds)
    (fundingAmount loss : ℕ) : Prop :=
  secondaryNeeded context funds.inCollateralToken
      (fundingAmount * context.outputTokenPrice.pickPrice false) +
    secondaryNeeded context (funds.inCollateralToken - fundingAmount) loss ≤
      funds.secondaryOutputAmount

/-- A payment asks for the secondary output that is needed. -/
theorem Pays.secondary_eq {funds : Funds} {cost : ℕ} {payment : Payment}
    (hpays : Pays context funds (cost ⌈/⌉ context.outputTokenPrice.pickPrice false)
      payment) :
    payment.paidInSecondary = min funds.secondaryOutputAmount
        (secondaryNeeded context funds.inCollateralToken cost) ∧
      payment.remainingCost =
        (secondaryNeeded context funds.inCollateralToken cost -
          payment.paidInSecondary) * context.pnlTokenPrice.pickPrice false := by
  have hshortfall : cost ⌈/⌉ context.outputTokenPrice.pickPrice false -
      payment.paidInCollateral =
        cost ⌈/⌉ context.outputTokenPrice.pickPrice false -
          funds.inCollateralToken := by
    rw [hpays.paidInCollateral_eq, Funds.inCollateralToken]
    omega
  rw [secondaryNeeded, ← hshortfall]
  exact ⟨hpays.paidInSecondary_eq, hpays.remainingCost_eq⟩

/-- A cost is paid in full when the secondary output is enough. -/
theorem Pays.remainingCost_eq_zero_iff {funds : Funds} {cost : ℕ} {payment : Payment}
    (hpays : Pays context funds (cost ⌈/⌉ context.outputTokenPrice.pickPrice false)
      payment)
    (hprice : 0 < context.pnlTokenPrice.pickPrice false) :
    payment.remainingCost = 0 ↔
      secondaryNeeded context funds.inCollateralToken cost ≤
        funds.secondaryOutputAmount := by
  obtain ⟨hpaid, hremaining⟩ := hpays.secondary_eq
  rw [hremaining, Nat.mul_eq_zero, or_iff_left hprice.ne', hpaid]
  omega

/-- A payment in full takes what is needed from the funds. -/
theorem Pays.funds_of_paid {funds : Funds} {cost : ℕ} {payment : Payment}
    (hpays : Pays context funds (cost ⌈/⌉ context.outputTokenPrice.pickPrice false)
      payment)
    (hlasts : secondaryNeeded context funds.inCollateralToken cost ≤
      funds.secondaryOutputAmount) :
    payment.funds.inCollateralToken =
        funds.inCollateralToken - cost ⌈/⌉ context.outputTokenPrice.pickPrice false ∧
      payment.funds.secondaryOutputAmount =
        funds.secondaryOutputAmount -
          secondaryNeeded context funds.inCollateralToken cost := by
  have hpaid := hpays.paidInCollateral_eq
  have hcollateral := hpays.collateral_funds
  have hsecondary := hpays.secondary_funds
  have hpaidSecondary := hpays.secondary_eq.1
  rw [min_eq_right hlasts] at hpaidSecondary
  rw [← hpaidSecondary]
  simp only [Funds.inCollateralToken]
  omega

/-! ## The fees of the state -/

variable [MarketNum]

/-- A step that pays a cost leaves the fees as they are if its receiver does. -/
theorem payForCost_fees {state : State isPure} {cost : ℕ}
    {receive : State isPure → Payment → Result (State isPure)}
    {step : InsolventCloseStep} {outcome : Outcome isPure}
    (hreceive : ∀ payment before after, receive before payment = .ok after →
      after.fees = before.fees)
    (hpay : payForCost context state cost receive step = .ok outcome) :
    outcome.1.fees = state.fees := by
  simp only [payForCost, bind_eq_ok, pure_eq_ok] at hpay
  obtain ⟨payment, _, received, hreceived, rfl⟩ := hpay
  exact (hreceive payment _ received hreceived).trans rfl

theorem receiveFunding_fees (payment : Payment) (before after : State isPure)
    (hreceive : receiveFunding before payment = .ok after) :
    after.fees = before.fees := by
  simp only [receiveFunding, bind_eq_ok, pure_eq_ok] at hreceive
  obtain ⟨_, _, rfl⟩ := hreceive
  rfl

theorem receiveToPool_fees (payment : Payment) (before after : State isPure)
    (hreceive : receiveToPool context before payment = .ok after) :
    after.fees = before.fees := by
  simp only [receiveToPool, bind_eq_ok, pure_eq_ok] at hreceive
  obtain ⟨_, _, rfl⟩ := hreceive
  rfl

theorem receiveImpact_fees (payment : Payment) (before after : State isPure)
    (hreceive : receiveImpact context before payment = .ok after) :
    after.fees = before.fees := by
  simp only [receiveImpact, bind_eq_ok, pure_eq_ok] at hreceive
  obtain ⟨_, _, _, _, _, _, rfl⟩ := hreceive
  rfl

theorem receiveDiff_fees (payment : Payment) (before after : State isPure)
    (hreceive : receiveDiff before payment = .ok after) :
    after.fees = before.fees := by
  simp only [receiveDiff, bind_eq_ok, pure_eq_ok] at hreceive
  obtain ⟨_, _, _, _, rfl⟩ := hreceive
  rfl

theorem deductFromPool_fees {before after : State isPure} {profit : ℕ}
    {message : String}
    (hdeduct : deductFromPool context before profit message = .ok after) :
    after.fees = before.fees := by
  simp only [deductFromPool, bind_eq_ok, pure_eq_ok] at hdeduct
  obtain ⟨_, _, _, _, _, _, _, _, rfl⟩ := hdeduct
  rfl

theorem addProfits_fees {before after : State isPure} {settlement : Settlement}
    (hadd : addProfits context settlement before = .ok after) :
    after.fees = before.fees := by
  simp only [addProfits, bind_eq_ok] at hadd
  obtain ⟨withPnl, hpnl, withImpact, himpact, hswap⟩ := hadd
  have hpnlFees : withPnl.fees = before.fees := by
    unfold addPnlIfPositive at hpnl
    split at hpnl
    · exact deductFromPool_fees hpnl
    · rw [Except.ok.inj hpnl]
  have himpactFees : withImpact.fees = withPnl.fees := by
    unfold addPriceImpactIfPositive at himpact
    split at himpact
    · simp only [bind_eq_ok] at himpact
      obtain ⟨_, _, _, _, market, _, hdeduct⟩ := himpact
      exact (deductFromPool_fees hdeduct).trans rfl
    · rw [Except.ok.inj himpact]
  have hswapFees : after.fees = withImpact.fees := by
    unfold swapProfitToCollateralTokens at hswap
    split at hswap
    · simp only [bind_eq_ok] at hswap
      obtain ⟨_, _, hswap⟩ := hswap
      split at hswap
      · simp only [bind_eq_ok, pure_eq_ok] at hswap
        obtain ⟨_, _, rfl⟩ := hswap
        rfl
      · exact absurd hswap (by simp)
      · rw [Except.ok.inj hswap]
    · rw [Except.ok.inj hswap]
  exact hswapFees.trans (himpactFees.trans hpnlFees)

theorem payForPriceImpactIfNegative_fees {priceImpact : ℤ} {state : State isPure}
    {outcome : Outcome isPure}
    (hpay : payForPriceImpactIfNegative context priceImpact state = .ok outcome) :
    outcome.1.fees = state.fees := by
  unfold payForPriceImpactIfNegative at hpay
  split at hpay
  · exact payForCost_fees receiveImpact_fees hpay
  · rw [← Except.ok.inj hpay]

theorem payForPriceImpactDiff_fees {priceImpactDiff : ℕ} {state : State isPure}
    {outcome : Outcome isPure}
    (hpay : payForPriceImpactDiff context priceImpactDiff state = .ok outcome) :
    outcome.1.fees = state.fees := by
  unfold payForPriceImpactDiff at hpay
  split at hpay
  · rw [← Except.ok.inj hpay]
  · exact payForCost_fees receiveDiff_fees hpay

omit [MarketNum] in
theorem andThen_fees {first outcome : Outcome isPure}
    {next : State isPure → Result (Outcome isPure)}
    (hnext : ∀ outcome, next first.1 = .ok outcome → outcome.1.fees = first.1.fees)
    (hthen : andThen first next = .ok outcome) :
    outcome.1.fees = first.1.fees := by
  unfold andThen at hthen
  split at hthen
  · rw [← Except.ok.inj hthen]
  · exact hnext _ hthen

/-! ## Reaching the fees -/

/-- What a step that pays a cost leaves behind when it goes on. -/
structure PaidInFull (context : Context) (cost : ℕ) (before : State isPure)
    (outcome : Outcome isPure) : Prop where
  fees_eq : outcome.1.fees = before.fees
  none_iff : outcome.2 = none ↔
    secondaryNeeded context before.funds.inCollateralToken cost ≤
      before.funds.secondaryOutputAmount
  funds : outcome.2 = none →
    outcome.1.funds.inCollateralToken = before.funds.inCollateralToken -
        cost ⌈/⌉ context.outputTokenPrice.pickPrice false ∧
      outcome.1.funds.secondaryOutputAmount = before.funds.secondaryOutputAmount -
        secondaryNeeded context before.funds.inCollateralToken cost

omit [MarketNum] in
/-- Nothing is needed for no cost. -/
theorem paidInFull_zero (state : State isPure) :
    PaidInFull context 0 state (state, none) where
  fees_eq := rfl
  none_iff := by simp [secondaryNeeded]
  funds := fun _ => by simp [secondaryNeeded]

theorem payForCost_paidInFull {state : State isPure} {cost : ℕ}
    {receive : State isPure → Payment → Result (State isPure)}
    {step : InsolventCloseStep} {outcome : Outcome isPure}
    (hprice : 0 < context.pnlTokenPrice.pickPrice false)
    (hfees : ∀ payment before after, receive before payment = .ok after →
      after.fees = before.fees)
    (hfunds : ∀ payment before after, receive before payment = .ok after →
      after.funds = before.funds)
    (hpay : payForCost context state cost receive step = .ok outcome) :
    PaidInFull context cost state outcome := by
  have hkept := payForCost_fees hfees hpay
  simp only [payForCost, bind_eq_ok, pure_eq_ok] at hpay
  obtain ⟨payment, hpayment, received, hreceived, rfl⟩ := hpay
  have hpays := doPayForCost_eq_ok hpayment
  have hnone : (if payment.remainingCost = 0 then none else some step) = none ↔
      secondaryNeeded context state.funds.inCollateralToken cost ≤
        state.funds.secondaryOutputAmount := by
    rw [← hpays.remainingCost_eq_zero_iff hprice]
    split_ifs with hzero <;> simp [hzero]
  refine ⟨hkept, hnone, fun hfull => ?_⟩
  rw [hfunds payment _ received hreceived]
  exact hpays.funds_of_paid (hnone.mp hfull)

theorem payForFundingFees_paidInFull {state : State isPure} {outcome : Outcome isPure}
    (hprice : 0 < context.pnlTokenPrice.pickPrice false)
    (hpay : payForFundingFees context state = .ok outcome) :
    PaidInFull context
      (state.fees.funding.amount * context.outputTokenPrice.pickPrice false) state
      outcome := by
  dsimp only [payForFundingFees] at hpay
  split at hpay
  · rename_i hzero
    rw [hzero, zero_mul, ← Except.ok.inj hpay]
    exact paidInFull_zero state
  · simp only [bind_eq_ok, okOr_eq_ok, checkedMul_eq_some] at hpay
    obtain ⟨_, ⟨_, rfl⟩, hpay⟩ := hpay
    have hfunds : ∀ payment before after,
        receiveFunding before payment = .ok after →
          (after : State isPure).funds = before.funds := by
      intro payment before after hreceive
      have hreceives : Receives context payment before after 0 :=
        receiveFunding_receives hreceive
      exact hreceives.funds_eq
    exact payForCost_paidInFull hprice receiveFunding_fees hfunds hpay

theorem payForPnlIfNegative_paidInFull {pnl : ℤ} {state : State isPure}
    {outcome : Outcome isPure} (hprice : 0 < context.pnlTokenPrice.pickPrice false)
    (hpay : payForPnlIfNegative context pnl state = .ok outcome) :
    PaidInFull context (-pnl).toNat state outcome := by
  unfold payForPnlIfNegative at hpay
  split at hpay
  · rename_i hnegative
    have hloss : pnl.natAbs = (-pnl).toNat := by omega
    rw [hloss] at hpay
    exact payForCost_paidInFull hprice receiveToPool_fees
      (fun _ _ _ hreceive => (receiveToPool_receives hreceive).funds_eq) hpay
  · rename_i hpositive
    have hloss : (-pnl).toNat = 0 := by omega
    rw [hloss, ← Except.ok.inj hpay]
    exact paidInFull_zero state

/-- The settlement reaches the fees exactly when the funds last until then, and
leaves them as they are. -/
theorem processBeforeFees_reaches {before : State isPure} {settlement : Settlement}
    {outcome : Outcome isPure}
    (houtput : 0 < context.outputTokenPrice.pickPrice false)
    (hprice : 0 < context.pnlTokenPrice.pickPrice false)
    (hprocess : processBeforeFees context settlement before = .ok outcome) :
    ∃ profited, addProfits context settlement before = .ok profited ∧
      outcome.1.fees = before.fees ∧
      (outcome.2 = none ↔ profited.funds.LastUntilFees context
        before.fees.funding.amount (-settlement.pnl).toNat) := by
  simp only [processBeforeFees, bind_eq_ok] at hprocess
  obtain ⟨profited, hprofits, funded, hfunding, hthen⟩ := hprocess
  have hprofitFees := addProfits_fees hprofits
  have hfunded := payForFundingFees_paidInFull hprice hfunding
  rw [hprofitFees] at hfunded
  have hneeded : before.fees.funding.amount *
      context.outputTokenPrice.pickPrice false ⌈/⌉
        context.outputTokenPrice.pickPrice false = before.fees.funding.amount := by
    rw [mul_comm, ← smul_eq_mul, smul_ceilDiv houtput]
  refine ⟨profited, hprofits, ?_, ?_⟩
  · exact (andThen_fees (fun _ hpay => (payForPnlIfNegative_paidInFull hprice
      hpay).fees_eq) hthen).trans (hfunded.fees_eq.trans hprofitFees)
  · unfold andThen at hthen
    unfold Funds.LastUntilFees
    have hnone := hfunded.none_iff
    split at hthen
    · rename_i step hstep
      rw [hstep] at hnone
      rw [← Except.ok.inj hthen]
      simp only [reduceCtorEq, false_iff, not_le] at hnone ⊢
      omega
    · rename_i hstep
      obtain ⟨hcollateral, hsecondary⟩ := hfunded.funds hstep
      have hlost := (payForPnlIfNegative_paidInFull hprice hthen).none_iff
      rw [hneeded] at hcollateral
      rw [hcollateral, hsecondary] at hlost
      rw [hlost]
      have hfunding := hnone.mp hstep
      omega

/-! ## Paying the fees -/

/-- The fees are credited, and what they cost is taken from the funds in the collateral
token. -/
structure FeesPaid (side : Bool) (fees : PositionFees) (before after : State isPure) :
    Prop where
  credited : before.market.FeesCredited side fees after.market
  cost : ∃ cost, fees.totalCostExcludingFunding = .ok cost ∧
    after.funds.inCollateralToken + cost = before.funds.inCollateralToken
  secondary : after.funds.secondaryOutputAmount = before.funds.secondaryOutputAmount

theorem receiveFees_credits {before after : State isPure} {payment : Payment}
    (hfull : payment.remainingCost = 0 ∧ payment.paidInSecondary = 0)
    (hreceive : receiveFees context before payment = .ok after) :
    after.fees = before.fees ∧ after.funds = before.funds ∧
      before.market.FeesCredited context.isOutputTokenLong before.fees after.market := by
  rw [receiveFees, if_pos hfull] at hreceive
  simp only [bind_eq_ok, pure_eq_ok, toSigned_eq_ok, Market.applyDelta,
    Market.applyDeltaToClaimableFeePool] at hreceive
  obtain ⟨forPool, hpool, _, ⟨_, rfl⟩, _, ⟨primary, hprimary, rfl⟩, forReceiver,
    hreceiver, _, ⟨_, rfl⟩, _, ⟨claimableFee, hclaimable, rfl⟩, rfl⟩ := hreceive
  refine ⟨rfl, rfl, ⟨forPool, hpool, fun token => ?_⟩,
    ⟨forReceiver, hreceiver, fun token => ?_⟩, ⟨primary, claimableFee, rfl⟩⟩
  · have hamount := Pool.applyDeltaAmount_tokenAmount hprimary token
    rw [← natCast_inToken] at hamount
    exact_mod_cast hamount
  · have hamount := Pool.applyDeltaAmount_tokenAmount hclaimable token
    rw [← natCast_inToken] at hamount
    exact_mod_cast hamount

theorem receiveFees_clears {before after : State isPure} {payment : Payment}
    (hpart : ¬(payment.remainingCost = 0 ∧ payment.paidInSecondary = 0))
    (hreceive : receiveFees context before payment = .ok after) :
    after.fees.NoneButFunding := by
  rw [receiveFees, if_neg hpart] at hreceive
  simp only [bind_eq_ok, pure_eq_ok] at hreceive
  obtain ⟨_, _, rfl⟩ := hreceive
  exact PositionFees.noneButFunding_clear _

/-- The fees are cleared, or they are credited and taken from the funds, apart from the
excess, which is nobody's. -/
theorem payForFeesExcludingFunding_credits {state : State isPure}
    {outcome : Outcome isPure} {cost : ℕ} (hshared : state.fees.Shared)
    (houtput : 0 < context.outputTokenPrice.pickPrice false)
    (hpnl : 0 < context.pnlTokenPrice.pickPrice false)
    (hcost : state.fees.totalCostExcludingFunding = .ok cost)
    (hpay : payForFeesExcludingFunding context state = .ok outcome) :
    feesExcess context state.funds cost = 0 ∧ outcome.1.fees.NoneButFunding ∨
      outcome.1.fees = state.fees ∧
        state.market.FeesCredited context.isOutputTokenLong state.fees outcome.1.market ∧
        outcome.1.funds.inCollateralToken + cost =
          state.funds.inCollateralToken + feesExcess context state.funds cost ∧
        outcome.1.funds.secondaryOutputAmount = state.funds.secondaryOutputAmount := by
  simp only [payForFeesExcludingFunding, bind_eq_ok, ite_eq_ok, pure_eq_ok,
    okOr_eq_ok, checkedMul_eq_some, payForCost] at hpay
  obtain ⟨found, hfound, hpay⟩ := hpay
  obtain rfl := Except.ok.inj (hcost.symm.trans hfound)
  rcases hpay with ⟨rfl, rfl⟩ | ⟨_, _, ⟨_, rfl⟩, payment, hpayment, received,
    hreceived, rfl⟩
  · obtain ⟨hpool, hreceiver⟩ := hshared.shares_eq_zero hcost
    exact .inr ⟨rfl, ⟨⟨0, hpool, fun token => by simp [inToken]⟩,
      ⟨0, hreceiver, fun token => by simp [inToken]⟩, ⟨_, _, rfl⟩⟩, by simp [feesExcess],
      rfl⟩
  · have hpays := doPayForCost_eq_ok hpayment
    have hneeded : cost * context.outputTokenPrice.pickPrice false ⌈/⌉
        context.outputTokenPrice.pickPrice false = cost := by
      rw [mul_comm, ← smul_eq_mul, smul_ceilDiv houtput]
    rw [hneeded] at hpays
    have hexcess := hpays.paid_add_excess hpnl
    have hcollateral := hpays.collateral_funds
    have hsecondary := hpays.secondary_funds
    split_ifs at hexcess with hfull
    · obtain ⟨hfees, hfunds, hcredited⟩ := receiveFees_credits hfull hreceived
      refine .inr ⟨hfees, hcredited, ?_, ?_⟩
      · rw [hfunds]
        simp only [Funds.inCollateralToken]
        omega
      · rw [hfunds]
        dsimp only
        omega
    · exact .inl ⟨by omega, receiveFees_clears hfull hreceived⟩

/-- The fees after the settlement are those after their payment, if it is reached. -/
theorem processAll_fees {before : State isPure} {settlement : Settlement}
    {outcome : Outcome isPure}
    (hprocess : processAll context settlement before = .ok outcome) :
    ∃ first, processBeforeFees context settlement before = .ok first ∧
      (first.2 ≠ none → outcome.1.fees = first.1.fees) ∧
      (first.2 = none → ∃ paid,
        payForFeesExcludingFunding context first.1 = .ok paid ∧
          outcome.1.fees = paid.1.fees) := by
  simp only [processAll, bind_eq_ok] at hprocess
  obtain ⟨first, hfirst, withFees, hwithFees, withImpact, hwithImpact, hdiff⟩ :=
    hprocess
  have hlater : outcome.1.fees = withFees.1.fees :=
    (andThen_fees (fun _ => payForPriceImpactDiff_fees) hdiff).trans
      (andThen_fees (fun _ => payForPriceImpactIfNegative_fees) hwithImpact)
  refine ⟨first, hfirst, fun hstopped => ?_, fun hreached => ?_⟩
  · obtain ⟨step, hstep⟩ := Option.ne_none_iff_exists'.mp hstopped
    simp only [andThen, hstep] at hwithFees
    rw [hlater, ← Except.ok.inj hwithFees]
  · simp only [andThen, hreached] at hwithFees
    exact ⟨withFees, hwithFees, hlater⟩

end CollateralProcessor

/-! ## The report of a decrease -/

namespace DecreasePosition

open CollateralProcessor

variable [MarketNum]

/-- The settlement reaches the payment of the fees, and there they are paid. -/
def FeesWerePaid (market : Market isPure) (position : Position)
    (params : DecreasePositionParams) (fees : PositionFees) : Prop :=
  ∃ order prepared state paid,
    checkedOrder market position params = .ok order ∧
    prepare market position order = .ok prepared ∧
    processBeforeFees (contextOf position isPure order.params.prices)
      prepared.settlement (initialState market position prepared.fees) =
        .ok (state, none) ∧
    payForFeesExcludingFunding (contextOf position isPure order.params.prices) state =
      .ok paid ∧
    FeesPaid position.isCollateralTokenLong fees state paid.1

/-- The fees of the report are zero or were paid. -/
def ReportedFeesPaid (market : Market isPure) (position : Position)
    (params : DecreasePositionParams) (report : DecreasePositionReport) : Prop :=
  report.fees.NoneButFunding ∨ FeesWerePaid market position params report.fees

/-- The position owes fees, and its funds with the profits added do not pay the funding
fee and the loss. -/
def FundsRunOutBeforeFees (market : Market isPure) (position : Position)
    (params : DecreasePositionParams) : Prop :=
  ∃ order prepared profited,
    checkedOrder market position params = .ok order ∧
    prepare market position order = .ok prepared ∧
    addProfits (contextOf position isPure order.params.prices) prepared.settlement
      (initialState market position prepared.fees) = .ok profited ∧
    ¬prepared.fees.NoneButFunding ∧
    ¬profited.funds.LastUntilFees (contextOf position isPure order.params.prices)
      prepared.fees.funding.amount (-prepared.settlement.pnl).toNat

theorem prepare_shared {market : Market isPure} {position : Position}
    {order : DecreaseOrder} {prepared : Prepared}
    (hprepare : prepare market position order = .ok prepared) :
    prepared.fees.Shared := by
  simp only [prepare, bind_eq_ok, pure_eq_ok] at hprepare
  obtain ⟨_, _, _, _, fees, hfees, rfl⟩ := hprepare
  exact Position.positionFees_shared hfees

/-- The settlement of a decrease that succeeds, with its funds after the profits. -/
theorem execute_settles {before after : Market isPure} {position next : Position}
    {params : DecreasePositionParams} {report : DecreasePositionReport}
    (hexecute : execute before position params = .ok (after, next, report)) :
    ∃ order prepared outcome,
      checkedOrder before position params = .ok order ∧
      prepare before position order = .ok prepared ∧
      order.params.prices.isValid = true ∧
      processAll (contextOf position isPure order.params.prices) prepared.settlement
        (initialState before position prepared.fees) = .ok outcome ∧
      report.fees = outcome.1.fees := by
  simp only [execute, processCollateral, bind_eq_ok, pure_eq_ok] at hexecute
  obtain ⟨order, horder, _, ⟨prepared, hprepare, outcome, houtcome, _, _, _, _, rfl⟩,
    _, _, _, _, _, _, _, _, _, _, hresult⟩ := hexecute
  simp only [Prod.mk.injEq] at hresult
  obtain ⟨_, _, rfl⟩ := hresult
  have hchecked := checkedOrder_eq_ok horder
  refine ⟨order, prepared, outcome, horder, hprepare, ?_, process_eq_ok houtcome, rfl⟩
  rw [hchecked.prices_eq]
  exact hchecked.prices_valid

/-- How far the settlement of a decrease comes before the fees, and what its report states. -/
structure ComesTo (market : Market isPure) (position : Position)
    (params : DecreasePositionParams) (report : DecreasePositionReport)
    (order : DecreaseOrder) (prepared : Prepared) (profited : State isPure)
    (first : Outcome isPure) : Prop where
  checked : checkedOrder market position params = .ok order
  prepares : prepare market position order = .ok prepared
  valid : order.params.prices.isValid = true
  profits : addProfits (contextOf position isPure order.params.prices)
    prepared.settlement (initialState market position prepared.fees) = .ok profited
  beforeFees : processBeforeFees (contextOf position isPure order.params.prices)
    prepared.settlement (initialState market position prepared.fees) = .ok first
  fees_eq : first.1.fees = prepared.fees
  none_iff : first.2 = none ↔
    profited.funds.LastUntilFees (contextOf position isPure order.params.prices)
      prepared.fees.funding.amount (-prepared.settlement.pnl).toNat
  stopped : first.2 ≠ none → report.fees = first.1.fees
  reached : first.2 = none → ∃ paid,
    payForFeesExcludingFunding (contextOf position isPure order.params.prices) first.1 =
      .ok paid ∧ report.fees = paid.1.fees

/-- At valid prices both tokens of a settlement have a price. -/
theorem contextOf_pos (isPure : Bool) (position : Position) {prices : Prices}
    (hvalid : prices.isValid = true) :
    0 < (contextOf position isPure prices).outputTokenPrice.pickPrice false ∧
      0 < (contextOf position isPure prices).pnlTokenPrice.pickPrice false :=
  ⟨Prices.min_pos_of_isValid (Prices.collateralTokenPrice_isValid hvalid _),
    Prices.min_pos_of_isValid (Prices.collateralTokenPrice_isValid hvalid _)⟩

theorem execute_comesTo {before after : Market isPure} {position next : Position}
    {params : DecreasePositionParams} {report : DecreasePositionReport}
    (hexecute : execute before position params = .ok (after, next, report)) :
    ∃ order prepared profited first,
      ComesTo before position params report order prepared profited first := by
  obtain ⟨order, prepared, outcome, horder, hprepare, hvalid, hall, hreport⟩ :=
    execute_settles hexecute
  obtain ⟨houtput, hpnl⟩ := contextOf_pos isPure position hvalid
  obtain ⟨first, hfirst, hstopped, hreached⟩ := processAll_fees hall
  obtain ⟨profited, hprofits, hkept, hlasts⟩ :=
    processBeforeFees_reaches houtput hpnl hfirst
  refine ⟨order, prepared, profited, first, horder, hprepare, hvalid, hprofits, hfirst,
    hkept, hlasts, fun hstop => hreport.trans (hstopped hstop), fun hnone => ?_⟩
  obtain ⟨paid, hpay, hfees⟩ := hreached hnone
  exact ⟨paid, hpay, hreport.trans hfees⟩

section Coming

variable {market : Market isPure} {position : Position} {params : DecreasePositionParams}
  {report : DecreasePositionReport} {order : DecreaseOrder} {prepared : Prepared}
  {profited : State isPure} {first : Outcome isPure}

theorem ComesTo.fundsRunOut_iff
    (hcomes : ComesTo market position params report order prepared profited first) :
    FundsRunOutBeforeFees market position params ↔
      ¬prepared.fees.NoneButFunding ∧ first.2 ≠ none := by
  constructor
  · rintro ⟨order', prepared', profited', horder, hprepare, hprofits, howed, hout⟩
    obtain rfl := Except.ok.inj (hcomes.checked.symm.trans horder)
    obtain rfl := Except.ok.inj (hcomes.prepares.symm.trans hprepare)
    obtain rfl := Except.ok.inj (hcomes.profits.symm.trans hprofits)
    exact ⟨howed, fun hnone => hout (hcomes.none_iff.mp hnone)⟩
  · rintro ⟨howed, hstop⟩
    exact ⟨order, prepared, profited, hcomes.checked, hcomes.prepares, hcomes.profits,
      howed, fun hlast => hstop (hcomes.none_iff.mpr hlast)⟩

/-- Fees are paid after the settlement has come to them. -/
theorem ComesTo.feesPaid
    (hcomes : ComesTo market position params report order prepared profited first)
    {fees : PositionFees} (hpaid : FeesWerePaid market position params fees) :
    first.2 = none ∧
      ∃ paid, FeesPaid position.isCollateralTokenLong fees first.1 paid := by
  obtain ⟨order', prepared', state, paid, horder, hprepare, hstate, _, hpaid⟩ := hpaid
  obtain rfl := Except.ok.inj (hcomes.checked.symm.trans horder)
  obtain rfl := Except.ok.inj (hcomes.prepares.symm.trans hprepare)
  obtain rfl := Except.ok.inj (hcomes.beforeFees.symm.trans hstate)
  exact ⟨rfl, paid.1, hpaid⟩

theorem ComesTo.feesFallShort_reached
    (hcomes : ComesTo market position params report order prepared profited first)
    (hshort : FeesFallShort market position params) : first.2 = none := by
  obtain ⟨order', prepared', state, cost, horder, hprepare, hstate, -⟩ := hshort
  obtain rfl := Except.ok.inj (hcomes.checked.symm.trans horder)
  obtain rfl := Except.ok.inj (hcomes.prepares.symm.trans hprepare)
  obtain rfl := Except.ok.inj (hcomes.beforeFees.symm.trans hstate)
  rfl

theorem ComesTo.beforeFees_of_none
    (hcomes : ComesTo market position params report order prepared profited first)
    (hnone : first.2 = none) :
    processBeforeFees (contextOf position isPure order.params.prices)
      prepared.settlement (initialState market position prepared.fees) =
        .ok (first.1, none) := by
  rw [hcomes.beforeFees, ← hnone]

theorem ComesTo.feesFallShort_iff
    (hcomes : ComesTo market position params report order prepared profited first)
    (hnone : first.2 = none) {cost : ℕ}
    (hcost : first.1.fees.totalCostExcludingFunding = .ok cost) :
    FeesFallShort market position params ↔
      feesExcess (contextOf position isPure order.params.prices) first.1.funds cost ≠
        0 := by
  rw [DecreasePosition.feesFallShort_iff, excess_eq_of_ok hcomes.checked hcomes.prepares]
  simp only [excessOf, hcomes.beforeFees_of_none hnone, hcost]

/-- A settlement that stops before the fees states those it was started with. -/
theorem ComesTo.reportedFeesPaid_iff_of_stopped
    (hcomes : ComesTo market position params report order prepared profited first)
    (hstop : first.2 ≠ none) :
    ReportedFeesPaid market position params report ↔
      report.fees.NoneButFunding := by
  constructor
  · rintro (hzero | hpaid)
    · exact hzero
    · exact absurd (hcomes.feesPaid hpaid).1 hstop
  · exact Or.inl

/-- A settlement that comes to the fees states them unless they are cleared, and they are
paid unless they fall short. -/
theorem ComesTo.reportedFeesPaid_iff_of_reached
    (hcomes : ComesTo market position params report order prepared profited first)
    (hnone : first.2 = none) :
    ReportedFeesPaid market position params report ↔
      ¬FeesFallShort market position params := by
  obtain ⟨houtput, hpnl⟩ := contextOf_pos isPure position hcomes.valid
  obtain ⟨paid, hpay, hreported⟩ := hcomes.reached hnone
  obtain ⟨cost, hcost, -⟩ := payForFeesExcludingFunding_settled houtput hpnl hpay
  have hshared : first.1.fees.Shared := by
    rw [hcomes.fees_eq]
    exact prepare_shared hcomes.prepares
  rw [hcomes.feesFallShort_iff hnone hcost, not_not]
  rcases payForFeesExcludingFunding_credits hshared houtput hpnl hcost hpay with
    ⟨hexcess, hzero⟩ | ⟨hsame, hcredited, hcollateral, hsecondary⟩
  · refine ⟨fun _ => hexcess, fun _ => .inl ?_⟩
    rw [hreported]
    exact hzero
  · rw [hsame] at hreported
    constructor
    · rintro (hzero | hpaid)
      · obtain rfl := hzero.cost_eq_zero (hreported ▸ hcost)
        simp [feesExcess]
      · obtain ⟨-, after, hpaid⟩ := hcomes.feesPaid hpaid
        obtain ⟨found, hfound, htaken⟩ := hpaid.cost
        rw [hreported] at hfound
        obtain rfl := Except.ok.inj (hcost.symm.trans hfound)
        have hcovered : cost ≤ first.1.funds.inCollateralToken :=
          Nat.le.intro ((Nat.add_comm _ _).trans htaken)
        rw [Funds.inCollateralToken] at hcovered
        simp [feesExcess, Nat.sub_eq_zero_of_le hcovered]
    · intro hexcess
      rw [hexcess, Nat.add_zero] at hcollateral
      refine .inr ⟨order, prepared, first.1, paid, hcomes.checked, hcomes.prepares,
        hcomes.beforeFees_of_none hnone, hpay, ?_⟩
      rw [hreported]
      exact ⟨hcredited, ⟨cost, hcost, hcollateral⟩, hsecondary⟩

end Coming

/-- A report states fees that were paid exactly when the funds last until the fees and do
not fall short of them. -/
theorem reportedFeesPaid_iff {before after : Market isPure} {position next : Position}
    {params : DecreasePositionParams} {report : DecreasePositionReport}
    (hexecute : execute before position params = .ok (after, next, report)) :
    ReportedFeesPaid before position params report ↔
      ¬FundsRunOutBeforeFees before position params ∧
        ¬FeesFallShort before position params := by
  obtain ⟨order, prepared, profited, first, hcomes⟩ := execute_comesTo hexecute
  rw [hcomes.fundsRunOut_iff]
  by_cases hnone : first.2 = none
  · rw [hcomes.reportedFeesPaid_iff_of_reached hnone]
    exact ⟨fun hpaid => ⟨fun hstop => hstop.2 hnone, hpaid⟩, And.right⟩
  · have hfees : report.fees = prepared.fees :=
      (hcomes.stopped hnone).trans hcomes.fees_eq
    have hpaid : ¬FeesFallShort before position params :=
      fun hshort => hnone (hcomes.feesFallShort_reached hshort)
    rw [hcomes.reportedFeesPaid_iff_of_stopped hnone, hfees]
    constructor
    · intro hzero
      exact ⟨fun howed => howed.1 hzero, hpaid⟩
    · rintro ⟨hfunds, -⟩
      by_contra howed
      exact hfunds ⟨howed, hnone⟩

end DecreasePosition

namespace DecreasePosition

open CollateralProcessor

section Store

attribute [local instance] storeNumbers

/-- Liquidating the long of `feeMarketRun` at the price `price`. -/
def liquidateAt (price : ℕ) : DecreasePositionParams :=
  ⟨⟨⟨price, price⟩, ⟨price, price⟩, ⟨1, 1⟩⟩, 480, none, 0, ⟨true, true, false⟩,
    .noSwap⟩

/-- At a price of 120 the fees of the close are paid. -/
theorem reportedFeesPaid_at_120 :
    ∃ flows world after next report,
      feeMarketRun = some (flows, world) ∧
      execute world.market (world.positions ()) (closeAt 120) =
        .ok (after, next, report) ∧
      (ReportedFeesPaid world.market (world.positions ()) (closeAt 120) report ↔
        ¬FundsRunOutBeforeFees world.market (world.positions ()) (closeAt 120) ∧
          ¬FeesFallShort world.market (world.positions ()) (closeAt 120)) := by
  obtain ⟨⟨flows, world⟩, hrun, hclose⟩ :
      ∃ done, feeMarketRun = some done ∧
        (execute done.2.market (done.2.positions ()) (closeAt 120)).isOk = true :=
    exists_of_any (by decide +kernel)
  obtain ⟨⟨after, next, report⟩, hexecute⟩ := exists_of_isOk hclose
  exact ⟨flows, world, after, next, report, hrun, hexecute,
    reportedFeesPaid_iff hexecute⟩

/-- Whether the settlement of a decrease stops before the fees. -/
def stopsBeforeFees (market : Market isPure) (position : Position)
    (params : DecreasePositionParams) : Bool :=
  (checkedOrder market position params).toOption.any fun order =>
    (prepare market position order).toOption.any fun prepared =>
      (processBeforeFees (contextOf position isPure order.params.prices)
        prepared.settlement
          (initialState market position prepared.fees)).toOption.any fun outcome =>
            outcome.2.isSome

/-- At a price of 60 the loss of 240 takes the whole collateral of 52, and the order
fee of 48 is reported although nothing was credited for it. -/
theorem reportedFees_unpaid_at_60 :
    ∃ flows world after next report,
      feeMarketRun = some (flows, world) ∧
      (liquidateAt 60).prices.isValid = true ∧
      execute world.market (world.positions ()) (liquidateAt 60) =
        .ok (after, next, report) ∧
      report.fees.paidOrderFeeValue = 48 ∧
      ¬ReportedFeesPaid world.market (world.positions ()) (liquidateAt 60) report := by
  obtain ⟨⟨flows, world⟩, hrun, hclose, hstops⟩ :
      ∃ done, feeMarketRun = some done ∧
        (execute done.2.market (done.2.positions ()) (liquidateAt 60)).toOption.any
          (fun result => decide (result.2.2.fees.paidOrderFeeValue = 48)) = true ∧
        stopsBeforeFees done.2.market (done.2.positions ()) (liquidateAt 60) = true :=
    exists_of_any (by decide +kernel)
  obtain ⟨⟨after, next, report⟩, hexecute, hvalue⟩ := exists_ok_iff_any.mpr hclose
  refine ⟨flows, world, after, next, report, hrun, by decide, hexecute, hvalue, ?_⟩
  rintro (hzero | ⟨order, prepared, state, _, horder, hprepare, hbefore, _, _⟩)
  · exact absurd (hvalue.symm.trans hzero.paidOrderFeeValue) (by decide)
  · simp [stopsBeforeFees, horder, hprepare, hbefore, Except.toOption] at hstops

/-- At a price of 86 the loss takes the whole collateral, and the fees of 48 that are
reported fall short by less than one pnl token. -/
example : ∃ done, feeMarketRun = some done ∧
    (execute done.2.market (done.2.positions ()) (liquidateAt 86)).toOption.any
      (fun result => decide (result.2.2.fees.paidOrderFeeValue = 48)) = true ∧
    excess done.2.market (done.2.positions ()) (liquidateAt 86) = 48 :=
  exists_of_any (by decide +kernel)

end Store

end DecreasePosition

end Gmsol.Model
