import Gmsol.Accounting.Positions

/-!
# Accounting of the collateral processor

Every step of the settlement moves tokens between the pools, the funds of the
position and what is set aside for the user and for holding; the total is the
same before and after.  The one exception is the payment of the fees when the
collateral token falls short by less than one pnl token.
-/

namespace Gmsol.Model.CollateralProcessor

open Gmsol.Fallible Gmsol.System

variable {isPure : Bool}

namespace State

/-- Everything the state holds of one token: the pools, the funds, the claims
and the funding that was paid in collateral. -/
def total (context : Context) (state : State isPure) (token : Bool) : ℤ :=
  state.market.poolTotal token +
    signedInToken isPure context.isOutputTokenLong token
      (state.funds.outputAmount + state.funds.remainingCollateralAmount +
        state.forHolding.outputTokenAmount + state.forUser.outputTokenAmount +
        state.fundingPaidInCollateral) +
    signedInToken isPure context.isPnlTokenLong token
      (state.funds.secondaryOutputAmount +
        state.forHolding.secondaryOutputTokenAmount +
        state.forUser.secondaryOutputTokenAmount)

end State

/-- The context of a position: the tokens are the same exactly when their sides
are, or in a pure market. -/
def Context.Consistent (context : Context) (isPure : Bool) : Prop :=
  context.arePnlAndCollateralTokensTheSame =
    (context.isPnlTokenLong == context.isOutputTokenLong || isPure)

section Consistent

variable {context : Context}

theorem Context.Consistent.signedInToken_eq (hcontext : context.Consistent isPure)
    (hsame : context.arePnlAndCollateralTokensTheSame = true) (token : Bool)
    (amount : ℤ) :
    signedInToken isPure context.isPnlTokenLong token amount =
      signedInToken isPure context.isOutputTokenLong token amount := by
  rw [hcontext, Bool.or_eq_true, beq_iff_eq] at hsame
  rcases hsame with hsides | hpure
  · rw [hsides]
  · exact signedInToken_of_pure _ _ _ _ hpure

end Consistent

variable [MarketNum] {context : Context}

/-! ## Paying a cost -/

omit context in
theorem draw_eq_ok {messages : DrawMessages} {paid available cost : ℕ}
    {drawn : ℕ × ℕ × ℕ} (hdraw : draw messages paid available cost = .ok drawn) :
    drawn.1 = paid + min available cost ∧ drawn.2.1 = available - cost ∧
      drawn.2.2 = cost - available := by
  unfold draw at hdraw
  split at hdraw
  · rename_i hzero
    obtain rfl := Except.ok.inj hdraw
    dsimp only
    omega
  split at hdraw
  · simp only [bind_eq_ok, okOr_eq_ok, pure_eq_ok, checkedAdd_eq_some,
      checkedSub_eq_some] at hdraw
    obtain ⟨_, ⟨_, rfl⟩, _, ⟨_, rfl⟩, rfl⟩ := hdraw
    dsimp only
    omega
  · simp only [bind_eq_ok, okOr_eq_ok, pure_eq_ok, checkedAdd_eq_some,
      checkedSub_eq_some] at hdraw
    obtain ⟨_, ⟨_, rfl⟩, _, ⟨_, rfl⟩, rfl⟩ := hdraw
    dsimp only
    omega

/-- What paying `needed` output tokens does: the payment comes out of the
funds, the output and the collateral are used up first, and the rest is asked
for in secondary tokens rounded down. -/
structure Pays (context : Context) (funds : Funds) (needed : ℕ)
    (payment : Payment) : Prop where
  paidInCollateral_eq : payment.paidInCollateral =
    min (funds.outputAmount + funds.remainingCollateralAmount) needed
  collateral_funds :
    payment.funds.outputAmount + payment.funds.remainingCollateralAmount +
      payment.paidInCollateral =
        funds.outputAmount + funds.remainingCollateralAmount
  remainingCollateral_le :
    payment.funds.remainingCollateralAmount ≤ funds.remainingCollateralAmount
  secondary_funds :
    payment.funds.secondaryOutputAmount + payment.paidInSecondary =
      funds.secondaryOutputAmount
  paidInSecondary_eq : payment.paidInSecondary =
    min funds.secondaryOutputAmount
      ((needed - payment.paidInCollateral) *
        context.outputTokenPrice.pickPrice false /
        context.pnlTokenPrice.pickPrice false)
  remainingCost_eq : payment.remainingCost =
    ((needed - payment.paidInCollateral) *
        context.outputTokenPrice.pickPrice false /
        context.pnlTokenPrice.pickPrice false - payment.paidInSecondary) *
      context.pnlTokenPrice.pickPrice false

omit [MarketNum] in
/-- A payment that needs no secondary output. -/
theorem Pays.of_covered {funds : Funds} {needed output remaining : ℕ}
    (hcovered : needed ≤ funds.outputAmount + funds.remainingCollateralAmount)
    (hfunds : output + remaining + needed =
      funds.outputAmount + funds.remainingCollateralAmount)
    (hremaining : remaining ≤ funds.remainingCollateralAmount) :
    Pays context funds needed
      ⟨⟨output, remaining, funds.secondaryOutputAmount⟩, needed, 0, 0⟩ where
  paidInCollateral_eq := (min_eq_right hcovered).symm
  collateral_funds := hfunds
  remainingCollateral_le := hremaining
  secondary_funds := rfl
  paidInSecondary_eq := by simp
  remainingCost_eq := by simp

theorem doPayForCost_eq_ok {funds : Funds} {cost : ℕ} {payment : Payment}
    (hpay : doPayForCost context funds cost = .ok payment) :
    Pays context funds (cost ⌈/⌉ context.outputTokenPrice.pickPrice false)
      payment := by
  unfold doPayForCost at hpay
  split at hpay
  · rename_i hzero
    obtain rfl := Except.ok.inj hpay
    rw [hzero, zero_ceilDiv]
    exact Pays.of_covered (Nat.zero_le _) rfl le_rfl
  · simp only [bind_eq_ok, okOr_eq_ok, checkedRoundUpDiv_eq_some, ite_eq_ok,
      pure_eq_ok, drawOutput, drawCollateral] at hpay
    obtain ⟨_, ⟨_, _, rfl⟩, output, houtput, hpay⟩ := hpay
    obtain ⟨hpaidOutput, hleftOutput, hcostOutput⟩ := draw_eq_ok houtput
    generalize cost ⌈/⌉ context.outputTokenPrice.pickPrice false = needed at *
    rcases hpay with ⟨hcost, rfl⟩ | ⟨_, collateral, hcollateral, hpay⟩
    · obtain rfl : output.1 = needed := by omega
      exact Pays.of_covered (by omega) (by omega) le_rfl
    · obtain ⟨hpaidCollateral, hleftCollateral, hcostCollateral⟩ :=
        draw_eq_ok hcollateral
      rcases hpay with ⟨hcost, rfl⟩ | ⟨_, hpay⟩
      · obtain rfl : collateral.1 = needed := by omega
        exact Pays.of_covered (by omega) (by omega) (by omega)
      · simp only [paySecondary, drawSecondary, bind_eq_ok, okOr_eq_ok, pure_eq_ok,
          checkedMulDiv_eq_some, checkedMul_eq_some] at hpay
        obtain ⟨_, ⟨_, _, rfl⟩, secondary, hsecondary, _, ⟨_, rfl⟩, rfl⟩ := hpay
        obtain ⟨hpaidSecondary, hleftSecondary, hcostSecondary⟩ :=
          draw_eq_ok hsecondary
        have hrest : collateral.2.2 = needed - collateral.1 := by omega
        rw [hrest] at hpaidSecondary hleftSecondary hcostSecondary
        exact {
          paidInCollateral_eq := by dsimp only; omega
          collateral_funds := by dsimp only; omega
          remainingCollateral_le := by dsimp only; omega
          secondary_funds := by dsimp only; omega
          paidInSecondary_eq := by dsimp only; omega
          remainingCost_eq := by
            dsimp only
            rw [hcostSecondary]
            congr 1
            omega }

/-! ## Steps -/

/-- A part of the settlement that creates `excess` tokens of the collateral
out of nothing and otherwise only moves tokens. -/
structure Settled (context : Context) (before after : State isPure)
    (excess : ℕ) : Prop where
  keepsPositions : before.market.KeepsPositions after.market
  remainingCollateral_le : after.funds.remainingCollateralAmount ≤
    before.funds.remainingCollateralAmount
  funding_eq : after.fees.funding = before.fees.funding
  total_eq : ∀ token, after.total context token =
    before.total context token +
      signedInToken isPure context.isOutputTokenLong token excess

omit [MarketNum] in
theorem Settled.refl (state : State isPure) : Settled context state state 0 where
  keepsPositions := .refl _
  remainingCollateral_le := le_rfl
  funding_eq := rfl
  total_eq := fun token => by simp

omit [MarketNum] in
theorem Settled.trans {first second third : State isPure} {left right : ℕ}
    (hleft : Settled context first second left)
    (hright : Settled context second third right) :
    Settled context first third (left + right) where
  keepsPositions := hleft.keepsPositions.trans hright.keepsPositions
  remainingCollateral_le :=
    hright.remainingCollateral_le.trans hleft.remainingCollateral_le
  funding_eq := hright.funding_eq.trans hleft.funding_eq
  total_eq := fun token => by
    rw [hright.total_eq, hleft.total_eq, Nat.cast_add, signedInToken_add, add_assoc]

/-- What is done with a payment: it arrives in the state, with an excess. -/
structure Receives (context : Context) (payment : Payment)
    (before after : State isPure) (excess : ℕ) : Prop where
  keepsPositions : before.market.KeepsPositions after.market
  funds_eq : after.funds = before.funds
  funding_eq : after.fees.funding = before.fees.funding
  total_eq : ∀ token, after.total context token =
    before.total context token +
      signedInToken isPure context.isOutputTokenLong token
        (payment.paidInCollateral + excess) +
      signedInToken isPure context.isPnlTokenLong token payment.paidInSecondary

omit [MarketNum] in
/-- A payment that arrives settles its cost. -/
theorem Pays.settled {state received : State isPure} {needed excess : ℕ}
    {payment : Payment} (hpays : Pays context state.funds needed payment)
    (hreceives : Receives context payment { state with funds := payment.funds }
      received excess) :
    Settled context state received excess where
  keepsPositions := hreceives.keepsPositions
  remainingCollateral_le := by
    rw [hreceives.funds_eq]
    exact hpays.remainingCollateral_le
  funding_eq := hreceives.funding_eq
  total_eq := fun token => by
    have hcollateral := hpays.collateral_funds
    have hsecondary := hpays.secondary_funds
    rw [hreceives.total_eq token]
    simp only [State.total, signedInToken]
    split_ifs <;> omega

/-- A cost whose payment is received without excess. -/
theorem payForCost_settled {state : State isPure} {cost : ℕ}
    {receive : State isPure → Payment → Result (State isPure)}
    {step : InsolventCloseStep} {outcome : Outcome isPure}
    (hreceive : ∀ payment before after, receive before payment = .ok after →
      Receives context payment before after 0)
    (hpay : payForCost context state cost receive step = .ok outcome) :
    Settled context state outcome.1 0 := by
  simp only [payForCost, bind_eq_ok, pure_eq_ok] at hpay
  obtain ⟨payment, hpayment, received, hreceived, rfl⟩ := hpay
  exact (doPayForCost_eq_ok hpayment).settled (hreceive _ _ _ hreceived)

/-! ## Paying the pool -/

theorem applyNonzeroDelta_eq_ok {before after : Market isPure} {side : Bool}
    {delta : ℤ} (happly : applyNonzeroDelta before side delta = .ok after) :
    before.KeepsPositions after ∧
      ∀ token, (after.poolTotal token : ℤ) =
        before.poolTotal token + signedInToken isPure side token delta := by
  unfold applyNonzeroDelta at happly
  split at happly
  · rename_i hzero
    obtain rfl := Except.ok.inj happly
    exact ⟨.refl _, fun token => by simp [hzero]⟩
  · obtain ⟨hkeeps, hpool, _⟩ := Market.applyDelta_eq_ok happly
    exact ⟨hkeeps, hpool⟩

theorem payToPrimaryPool_eq_ok {before after : Market isPure}
    {collateralAmount secondaryAmount : ℕ}
    (hpay : payToPrimaryPool context before collateralAmount secondaryAmount =
      .ok after) :
    before.KeepsPositions after ∧
      ∀ token, (after.poolTotal token : ℤ) =
        before.poolTotal token +
          signedInToken isPure context.isOutputTokenLong token collateralAmount +
          signedInToken isPure context.isPnlTokenLong token secondaryAmount := by
  simp only [payToPrimaryPool, bind_eq_ok, toSigned_eq_ok] at hpay
  obtain ⟨_, ⟨_, rfl⟩, _, ⟨_, rfl⟩, middle, hcollateral, hsecondary⟩ := hpay
  obtain ⟨hkeepsFirst, hfirst⟩ := applyNonzeroDelta_eq_ok hcollateral
  obtain ⟨hkeepsSecond, hsecond⟩ := applyNonzeroDelta_eq_ok hsecondary
  exact ⟨hkeepsFirst.trans hkeepsSecond, fun token => by
    rw [hsecond token, hfirst token]⟩

omit [MarketNum] in
/-- Paying into the pools of the market is receiving. -/
theorem Receives.of_market {state : State isPure} {payment : Payment}
    {market : Market isPure} {fees : PositionFees} {excess : ℕ}
    (hkeeps : state.market.KeepsPositions market)
    (hfunding : fees.funding = state.fees.funding)
    (hpool : ∀ token, (market.poolTotal token : ℤ) =
      state.market.poolTotal token +
        signedInToken isPure context.isOutputTokenLong token
          (payment.paidInCollateral + excess) +
        signedInToken isPure context.isPnlTokenLong token
          payment.paidInSecondary) :
    Receives context payment state { state with market, fees } excess where
  keepsPositions := hkeeps
  funds_eq := rfl
  funding_eq := hfunding
  total_eq := fun token => by
    simp only [State.total]
    rw [hpool token]
    ring

theorem receiveToPool_receives {before after : State isPure} {payment : Payment}
    (hreceive : receiveToPool context before payment = .ok after) :
    Receives context payment before after 0 := by
  simp only [receiveToPool, bind_eq_ok, pure_eq_ok] at hreceive
  obtain ⟨market, hpay, rfl⟩ := hreceive
  obtain ⟨hkeeps, hpool⟩ := payToPrimaryPool_eq_ok hpay
  exact .of_market hkeeps rfl (by simpa using hpool)

theorem payForPnlIfNegative_settled {pnl : ℤ} {state : State isPure}
    {outcome : Outcome isPure}
    (hpay : payForPnlIfNegative context pnl state = .ok outcome) :
    Settled context state outcome.1 0 := by
  unfold payForPnlIfNegative at hpay
  split at hpay
  · exact payForCost_settled (fun _ _ _ => receiveToPool_receives) hpay
  · obtain rfl := Except.ok.inj hpay
    exact .refl state

theorem creditImpactPool_eq_ok {before after : Market isPure}
    {amount price : ℕ} {message : String}
    (hcredit : creditImpactPool context before amount price message = .ok after) :
    before.KeepsPositions after ∧
      ∀ token, after.poolTotal token = before.poolTotal token := by
  unfold creditImpactPool at hcredit
  split at hcredit
  · obtain rfl := Except.ok.inj hcredit
    exact ⟨.refl _, fun _ => rfl⟩
  · simp only [bind_eq_ok] at hcredit
    obtain ⟨_, _, _, _, happly⟩ := hcredit
    exact Market.applyDeltaToPositionImpactPool_eq_ok happly

theorem receiveImpact_receives {before after : State isPure} {payment : Payment}
    (hreceive : receiveImpact context before payment = .ok after) :
    Receives context payment before after 0 := by
  simp only [receiveImpact, bind_eq_ok, pure_eq_ok] at hreceive
  obtain ⟨paid, hpay, credited, hcredited, market, hmarket, rfl⟩ := hreceive
  obtain ⟨hkeepsPaid, hpool⟩ := payToPrimaryPool_eq_ok hpay
  obtain ⟨hkeepsCredited, hfirst⟩ := creditImpactPool_eq_ok hcredited
  obtain ⟨hkeepsMarket, hsecond⟩ := creditImpactPool_eq_ok hmarket
  refine .of_market ((hkeepsPaid.trans hkeepsCredited).trans hkeepsMarket) rfl ?_
  intro token
  rw [hsecond token, hfirst token]
  simpa using hpool token

theorem payForPriceImpactIfNegative_settled {priceImpact : ℤ}
    {state : State isPure} {outcome : Outcome isPure}
    (hpay : payForPriceImpactIfNegative context priceImpact state = .ok outcome) :
    Settled context state outcome.1 0 := by
  unfold payForPriceImpactIfNegative at hpay
  split at hpay
  · exact payForCost_settled (fun _ _ _ => receiveImpact_receives) hpay
  · obtain rfl := Except.ok.inj hpay
    exact .refl state

/-! ## Setting amounts aside -/

theorem addNonzeroAmount_eq_ok {before after : ClaimableCollateral}
    {amount : ℕ} {isOutputToken : Bool}
    (hadd : addNonzeroAmount before amount isOutputToken = .ok after) :
    after.outputTokenAmount =
        before.outputTokenAmount + (if isOutputToken then amount else 0) ∧
      after.secondaryOutputTokenAmount =
        before.secondaryOutputTokenAmount +
          if isOutputToken then 0 else amount := by
  unfold addNonzeroAmount at hadd
  split at hadd
  · rename_i hzero
    obtain rfl := Except.ok.inj hadd
    simp [hzero]
  · cases isOutputToken <;>
      simp only [ClaimableCollateral.tryAddAmount, if_true, Bool.false_eq_true,
        if_false, bind_eq_ok, okOr_eq_ok, pure_eq_ok, checkedAdd_eq_some] at hadd <;>
      obtain ⟨_, ⟨_, rfl⟩, rfl⟩ := hadd <;>
      exact ⟨rfl, rfl⟩

theorem receiveFunding_receives {before after : State isPure}
    {payment : Payment} (hreceive : receiveFunding before payment = .ok after) :
    Receives context payment before after 0 := by
  simp only [receiveFunding, bind_eq_ok, pure_eq_ok] at hreceive
  obtain ⟨forHolding, hadd, rfl⟩ := hreceive
  obtain ⟨houtput, hsecondary⟩ := addNonzeroAmount_eq_ok hadd
  refine ⟨.refl _, rfl, rfl, fun token => ?_⟩
  simp only [Bool.false_eq_true, if_false] at houtput hsecondary
  simp only [State.total, signedInToken]
  split_ifs <;> omega

theorem payForFundingFees_settled {state : State isPure}
    {outcome : Outcome isPure}
    (hpay : payForFundingFees context state = .ok outcome) :
    Settled context state outcome.1 0 := by
  unfold payForFundingFees at hpay
  dsimp only at hpay
  split at hpay
  · obtain rfl := Except.ok.inj hpay
    exact .refl state
  · simp only [bind_eq_ok] at hpay
    obtain ⟨cost, _, hpay⟩ := hpay
    exact payForCost_settled (fun _ _ _ => receiveFunding_receives) hpay

theorem receiveDiff_receives {before after : State isPure} {payment : Payment}
    (hreceive : receiveDiff before payment = .ok after) :
    Receives context payment before after 0 := by
  simp only [receiveDiff, bind_eq_ok, pure_eq_ok] at hreceive
  obtain ⟨withOutput, haddOutput, forUser, haddSecondary, rfl⟩ := hreceive
  obtain ⟨houtput, hsecondary⟩ := addNonzeroAmount_eq_ok haddOutput
  obtain ⟨houtput', hsecondary'⟩ := addNonzeroAmount_eq_ok haddSecondary
  refine ⟨.refl _, rfl, rfl, fun token => ?_⟩
  simp only [if_true] at houtput hsecondary
  simp only [Bool.false_eq_true, if_false] at houtput' hsecondary'
  simp only [State.total, signedInToken]
  split_ifs <;> omega

theorem payForPriceImpactDiff_settled {priceImpactDiff : ℕ}
    {state : State isPure} {outcome : Outcome isPure}
    (hpay : payForPriceImpactDiff context priceImpactDiff state = .ok outcome) :
    Settled context state outcome.1 0 := by
  unfold payForPriceImpactDiff at hpay
  split at hpay
  · obtain rfl := Except.ok.inj hpay
    exact .refl state
  · exact payForCost_settled (fun _ _ _ => receiveDiff_receives) hpay

/-! ## Paying the fees -/

/-- The tokens that paying `cost` for the fees creates.  When the collateral
falls short by less than one pnl token is worth, nothing is taken from the
secondary output and no cost is left over: the fees count as paid in full. -/
def feesExcess (context : Context) (funds : Funds) (cost : ℕ) : ℕ :=
  let shortfall := cost - (funds.outputAmount + funds.remainingCollateralAmount)
  if shortfall * context.outputTokenPrice.pickPrice false <
      context.pnlTokenPrice.pickPrice false
  then shortfall else 0

theorem receiveFees_receives {before after : State isPure} {payment : Payment}
    {cost excess : ℕ} (hcost : before.fees.totalCostExcludingFunding = .ok cost)
    (hexcess : payment.paidInCollateral + excess =
      if payment.remainingCost = 0 ∧ payment.paidInSecondary = 0 then cost
      else payment.paidInCollateral)
    (hreceive : receiveFees context before payment = .ok after) :
    Receives context payment before after excess := by
  unfold receiveFees at hreceive
  split at hreceive
  · rename_i hfull
    rw [if_pos hfull] at hexcess
    simp only [bind_eq_ok, pure_eq_ok, toSigned_eq_ok] at hreceive
    obtain ⟨forPool, hpool, _, ⟨_, rfl⟩, withPool, hwithPool, forReceiver,
      hreceiver, _, ⟨_, rfl⟩, market, hmarket, rfl⟩ := hreceive
    have hshares := PositionFees.shares_add hreceiver hpool hcost
    obtain ⟨hkeepsPool, hpoolTotal, _⟩ := Market.applyDelta_eq_ok hwithPool
    obtain ⟨hkeepsMarket, hmarketTotal⟩ :=
      Market.applyDeltaToClaimableFeePool_eq_ok hmarket
    refine .of_market (hkeepsPool.trans hkeepsMarket) rfl fun token => ?_
    rw [hmarketTotal token, hpoolTotal token, hfull.2, Nat.cast_zero,
      signedInToken_zero, add_zero, add_assoc, ← signedInToken_add]
    congr 2
    omega
  · rename_i hpart
    rw [if_neg hpart] at hexcess
    obtain rfl : excess = 0 := by omega
    simp only [bind_eq_ok, pure_eq_ok] at hreceive
    obtain ⟨market, hpay, rfl⟩ := hreceive
    obtain ⟨hkeeps, hpool⟩ := payToPrimaryPool_eq_ok hpay
    exact .of_market hkeeps rfl (by simpa using hpool)

omit [MarketNum] in
/-- What a payment of `cost` tokens leaves for the pools to make up. -/
theorem Pays.paid_add_excess {funds : Funds} {cost : ℕ} {payment : Payment}
    (hpays : Pays context funds cost payment)
    (hprice : 0 < context.pnlTokenPrice.pickPrice false) :
    payment.paidInCollateral + feesExcess context funds cost =
      if payment.remainingCost = 0 ∧ payment.paidInSecondary = 0 then cost
      else payment.paidInCollateral := by
  have hpaid := hpays.paidInCollateral_eq
  have hsecondary := hpays.paidInSecondary_eq
  have hremaining := hpays.remainingCost_eq
  have hshortfall : cost - payment.paidInCollateral =
      cost - (funds.outputAmount + funds.remainingCollateralAmount) := by omega
  rw [hshortfall] at hsecondary hremaining
  simp only [feesExcess]
  generalize cost - (funds.outputAmount + funds.remainingCollateralAmount) =
    shortfall at *
  split_ifs with hsmall hfull hfull
  · omega
  · have hzero := Nat.div_eq_of_lt hsmall
    rw [hzero] at hsecondary hremaining
    exact absurd ⟨by simp [hremaining], by simpa using hsecondary⟩ hfull
  · obtain ⟨hnone, hzero⟩ := hfull
    rw [hzero, Nat.sub_zero] at hremaining
    have hdiv := (Nat.mul_eq_zero.mp (hremaining.symm.trans hnone)).resolve_right
      hprice.ne'
    exact absurd ((Nat.div_eq_zero_iff_lt hprice).mp hdiv) hsmall
  · rfl

/-- Paying the fees settles them up to the excess. -/
theorem payForFeesExcludingFunding_settled {state : State isPure}
    {outcome : Outcome isPure}
    (houtput : 0 < context.outputTokenPrice.pickPrice false)
    (hpnl : 0 < context.pnlTokenPrice.pickPrice false)
    (hpay : payForFeesExcludingFunding context state = .ok outcome) :
    ∃ cost, state.fees.totalCostExcludingFunding = .ok cost ∧
      Settled context state outcome.1 (feesExcess context state.funds cost) := by
  simp only [payForFeesExcludingFunding, bind_eq_ok, ite_eq_ok, pure_eq_ok,
    okOr_eq_ok, checkedMul_eq_some, payForCost] at hpay
  obtain ⟨cost, hcost, hpay⟩ := hpay
  refine ⟨cost, hcost, ?_⟩
  rcases hpay with ⟨rfl, rfl⟩ | ⟨_, _, ⟨_, rfl⟩, payment, hpayment, received,
    hreceived, rfl⟩
  · have hnone : feesExcess context state.funds 0 = 0 := by simp [feesExcess]
    rw [hnone]
    exact .refl state
  · have hpays := doPayForCost_eq_ok hpayment
    have hneeded : cost * context.outputTokenPrice.pickPrice false ⌈/⌉
        context.outputTokenPrice.pickPrice false = cost := by
      rw [mul_comm, ← smul_eq_mul, smul_ceilDiv houtput]
    rw [hneeded] at hpays
    exact hpays.settled
      (receiveFees_receives hcost (hpays.paid_add_excess hpnl) hreceived)

/-! ## Adding profits -/

theorem addPnlTokenAmount_eq_ok {before after : Funds} {amount : ℕ}
    (hcontext : context.Consistent isPure)
    (hadd : addPnlTokenAmount context before amount = .ok after) (token : Bool) :
    after.remainingCollateralAmount = before.remainingCollateralAmount ∧
      signedInToken isPure context.isOutputTokenLong token after.outputAmount +
          signedInToken isPure context.isPnlTokenLong token
            after.secondaryOutputAmount =
        signedInToken isPure context.isOutputTokenLong token before.outputAmount +
          signedInToken isPure context.isPnlTokenLong token
            before.secondaryOutputAmount +
          signedInToken isPure context.isPnlTokenLong token amount := by
  unfold addPnlTokenAmount at hadd
  split at hadd
  · rename_i hsame
    simp only [bind_eq_ok, okOr_eq_ok, pure_eq_ok, checkedAdd_eq_some] at hadd
    obtain ⟨_, ⟨_, rfl⟩, rfl⟩ := hadd
    refine ⟨rfl, ?_⟩
    dsimp only
    rw [hcontext.signedInToken_eq hsame token amount, Nat.cast_add,
      signedInToken_add]
    ring
  · simp only [bind_eq_ok, okOr_eq_ok, pure_eq_ok, checkedAdd_eq_some] at hadd
    obtain ⟨_, ⟨_, rfl⟩, rfl⟩ := hadd
    refine ⟨rfl, ?_⟩
    dsimp only
    rw [Nat.cast_add, signedInToken_add]
    ring

theorem deductFromPool_settled {before after : State isPure} {profit : ℕ}
    {message : String} (hcontext : context.Consistent isPure)
    (hdeduct : deductFromPool context before profit message = .ok after) :
    Settled context before after 0 := by
  simp only [deductFromPool, bind_eq_ok, pure_eq_ok, toOppositeSigned_eq_ok]
    at hdeduct
  obtain ⟨amount, _, _, ⟨_, rfl⟩, market, hmarket, funds, hfunds, rfl⟩ := hdeduct
  obtain ⟨hkeeps, hpool, _⟩ := Market.applyDelta_eq_ok hmarket
  have hadded := addPnlTokenAmount_eq_ok hcontext hfunds
  refine ⟨hkeeps, (hadded true).1.le, rfl, fun token => ?_⟩
  obtain ⟨hremaining, htokens⟩ := hadded token
  have hpoolToken := hpool token
  rw [signedInToken_neg] at hpoolToken
  simp only [State.total, signedInToken_add, hremaining, Nat.cast_zero,
    signedInToken_zero]
  linarith

theorem addPnlIfPositive_settled {before after : State isPure} {pnl : ℤ}
    (hcontext : context.Consistent isPure)
    (hadd : addPnlIfPositive context pnl before = .ok after) :
    Settled context before after 0 := by
  unfold addPnlIfPositive at hadd
  split at hadd
  · exact deductFromPool_settled hcontext hadd
  · obtain rfl := Except.ok.inj hadd
    exact .refl before

theorem addPriceImpactIfPositive_settled {before after : State isPure}
    {priceImpact : ℤ} (hcontext : context.Consistent isPure)
    (hadd : addPriceImpactIfPositive context priceImpact before = .ok after) :
    Settled context before after 0 := by
  unfold addPriceImpactIfPositive at hadd
  split at hadd
  · simp only [bind_eq_ok] at hadd
    obtain ⟨_, _, _, _, market, hmarket, hdeduct⟩ := hadd
    obtain ⟨hkeeps, hpool⟩ := Market.applyDeltaToPositionImpactPool_eq_ok hmarket
    have himpact : Settled context before { before with market } 0 :=
      ⟨hkeeps, le_rfl, rfl, fun token => by simp [State.total, hpool token]⟩
    exact himpact.trans (deductFromPool_settled hcontext hdeduct)
  · obtain rfl := Except.ok.inj hadd
    exact .refl before

theorem swapProfitToCollateralTokens_settled {before after : State isPure}
    {swap : DecreasePositionSwapType}
    (hswap : swapProfitToCollateralTokens context swap before = .ok after) :
    Settled context before after 0 := by
  unfold swapProfitToCollateralTokens at hswap
  split at hswap
  · simp only [bind_eq_ok, ensure_eq_ok] at hswap
    obtain ⟨_, hsides, hswap⟩ := hswap
    split at hswap
    · rename_i swapped hexecute
      simp only [bind_eq_ok, okOr_eq_ok, pure_eq_ok, checkedAdd_eq_some] at hswap
      obtain ⟨_, ⟨_, rfl⟩, rfl⟩ := hswap
      obtain ⟨hkeeps, _, hpool⟩ :=
        Swap.tryExecute_eq_ok (Swap.execute_eq_ok hexecute)
      refine ⟨hkeeps, le_rfl, rfl, fun token => ?_⟩
      have hout : (!context.isPnlTokenLong) = context.isOutputTokenLong := by
        cases hleft : context.isPnlTokenLong <;>
          cases hright : context.isOutputTokenLong <;> simp_all
      have hpoolToken := hpool token
      simp only [hout] at hpoolToken
      simp only [State.total, signedInToken_add, hpoolToken, Nat.cast_add,
        Nat.cast_zero, signedInToken_zero]
      ring
    · exact absurd hswap (by simp)
    · obtain rfl := Except.ok.inj hswap
      exact .refl before
  · obtain rfl := Except.ok.inj hswap
    exact .refl before

theorem addProfits_settled {before after : State isPure}
    {settlement : Settlement} (hcontext : context.Consistent isPure)
    (hadd : addProfits context settlement before = .ok after) :
    Settled context before after 0 := by
  simp only [addProfits, bind_eq_ok] at hadd
  obtain ⟨withPnl, hpnl, withImpact, himpact, hswap⟩ := hadd
  exact ((addPnlIfPositive_settled hcontext hpnl).trans
    (addPriceImpactIfPositive_settled hcontext himpact)).trans
      (swapProfitToCollateralTokens_settled hswap)

/-! ## The whole settlement -/

omit [MarketNum] in
theorem andThen_settled {before : State isPure} {first outcome : Outcome isPure}
    {next : State isPure → Result (Outcome isPure)} {excess : ℕ}
    (hfirst : Settled context before first.1 excess)
    (hnext : ∀ outcome, next first.1 = .ok outcome →
      Settled context first.1 outcome.1 0)
    (hthen : andThen first next = .ok outcome) :
    Settled context before outcome.1 excess := by
  unfold andThen at hthen
  split at hthen
  · obtain rfl := Except.ok.inj hthen
    exact hfirst
  · exact hfirst.trans (hnext _ hthen)

theorem processBeforeFees_settled {before : State isPure}
    {settlement : Settlement} {outcome : Outcome isPure}
    (hcontext : context.Consistent isPure)
    (hprocess : processBeforeFees context settlement before = .ok outcome) :
    Settled context before outcome.1 0 := by
  simp only [processBeforeFees, bind_eq_ok] at hprocess
  obtain ⟨profited, hprofits, funded, hfunding, hthen⟩ := hprocess
  have hfunded := (addProfits_settled hcontext hprofits).trans
    (payForFundingFees_settled hfunding)
  exact andThen_settled hfunded (fun _ => payForPnlIfNegative_settled) hthen

/-- The tokens a settlement creates: the excess of the fees, if their payment
is reached. -/
def excessOf (context : Context) (settlement : Settlement)
    (state : State isPure) : ℕ :=
  match processBeforeFees context settlement state with
  | .ok (before, none) =>
    match before.fees.totalCostExcludingFunding with
    | .ok cost => feesExcess context before.funds cost
    | .error _ => 0
  | _ => 0

/-- The settlement creates its excess and otherwise only moves tokens. -/
theorem processAll_settled {before : State isPure} {settlement : Settlement}
    {outcome : Outcome isPure} (hcontext : context.Consistent isPure)
    (houtput : 0 < context.outputTokenPrice.pickPrice false)
    (hpnl : 0 < context.pnlTokenPrice.pickPrice false)
    (hprocess : processAll context settlement before = .ok outcome) :
    Settled context before outcome.1 (excessOf context settlement before) := by
  simp only [processAll, bind_eq_ok] at hprocess
  obtain ⟨first, hfirst, withFees, hwithFees, withImpact, hwithImpact, hdiff⟩ :=
    hprocess
  have hbefore := processBeforeFees_settled hcontext hfirst
  have hfees : Settled context before withFees.1
      (excessOf context settlement before) := by
    obtain ⟨state, step⟩ := first
    cases step with
    | some step =>
        obtain rfl := Except.ok.inj hwithFees
        simpa only [excessOf, hfirst] using hbefore
    | none =>
        obtain ⟨cost, hcost, hsettled⟩ :=
          payForFeesExcludingFunding_settled houtput hpnl hwithFees
        simp only [excessOf, hfirst, hcost]
        simpa using hbefore.trans hsettled
  have himpact := andThen_settled hfees
    (fun _ => payForPriceImpactIfNegative_settled) hwithImpact
  exact andThen_settled himpact (fun _ => payForPriceImpactDiff_settled) hdiff

theorem process_eq_ok {before : State isPure} {settlement : Settlement}
    {isInsolventCloseAllowed : Bool} {outcome : Outcome isPure}
    (hprocess : process context settlement isInsolventCloseAllowed before =
      .ok outcome) :
    processAll context settlement before = .ok outcome := by
  simp only [process, bind_eq_ok] at hprocess
  obtain ⟨result, hall, hprocess⟩ := hprocess
  split at hprocess
  · exact hall.trans hprocess
  · split at hprocess
    · exact hall.trans hprocess
    · exact absurd hprocess (by simp)

end Gmsol.Model.CollateralProcessor
