import Gmsol.Accounting.Processor

/-!
# Paying a cost

A cost is rounded up to output tokens and paid from three sources, one after the
other.  What was paid and what is left of the cost make up the whole cost, up to
one output token above it and one secondary token below it.
-/

namespace Gmsol.Model.CollateralProcessor

open Gmsol.Fallible

section Payment

variable [MarketNum] {context : Context} {funds : Funds} {cost : ℕ} {payment : Payment}

/-- The value of what was paid, at the minimal prices. -/
def Payment.value (payment : Payment) (context : Context) : ℕ :=
  payment.paidInCollateral * context.outputTokenPrice.pickPrice false +
    payment.paidInSecondary * context.pnlTokenPrice.pickPrice false

/-- The whole cost is accounted for, and the sources are used in their order. -/
structure CostAccounted (context : Context) (funds : Funds) (cost : ℕ)
    (payment : Payment) : Prop where
  covered : cost < payment.value context + payment.remainingCost +
    context.pnlTokenPrice.pickPrice false
  notExceeded : payment.value context + payment.remainingCost <
    cost + context.outputTokenPrice.pickPrice false
  paidInCollateral :
    payment.funds.outputAmount + payment.funds.remainingCollateralAmount +
      payment.paidInCollateral =
        funds.outputAmount + funds.remainingCollateralAmount
  paidInSecondary :
    payment.funds.secondaryOutputAmount + payment.paidInSecondary =
      funds.secondaryOutputAmount
  collateralTouched :
    payment.funds.remainingCollateralAmount ≠ funds.remainingCollateralAmount →
      payment.funds.outputAmount = 0
  secondaryTouched :
    payment.funds.secondaryOutputAmount ≠ funds.secondaryOutputAmount →
      payment.funds.outputAmount = 0 ∧ payment.funds.remainingCollateralAmount = 0
  costLeft : payment.remainingCost ≠ 0 →
    payment.funds.outputAmount = 0 ∧ payment.funds.remainingCollateralAmount = 0 ∧
      payment.funds.secondaryOutputAmount = 0

/-- The output amount is used up before the collateral is drawn on. -/
theorem doPayForCost_funds (hpay : doPayForCost context funds cost = .ok payment) :
    payment.funds.outputAmount =
        funds.outputAmount - cost ⌈/⌉ context.outputTokenPrice.pickPrice false ∧
      payment.funds.remainingCollateralAmount = funds.remainingCollateralAmount -
        (cost ⌈/⌉ context.outputTokenPrice.pickPrice false - funds.outputAmount) := by
  unfold doPayForCost at hpay
  split at hpay
  · rename_i hzero
    obtain rfl := Except.ok.inj hpay
    rw [hzero, zero_ceilDiv, Nat.zero_sub]
    exact ⟨rfl, rfl⟩
  · simp only [bind_eq_ok, okOr_eq_ok, checkedRoundUpDiv_eq_some, ite_eq_ok,
      pure_eq_ok, drawOutput, drawCollateral] at hpay
    obtain ⟨_, ⟨_, _, rfl⟩, output, houtput, hpay⟩ := hpay
    obtain ⟨-, hleftOutput, hcostOutput⟩ := draw_eq_ok houtput
    generalize cost ⌈/⌉ context.outputTokenPrice.pickPrice false = needed at *
    rcases hpay with ⟨hcost, rfl⟩ | ⟨-, collateral, hcollateral, hpay⟩
    · refine ⟨hleftOutput, ?_⟩
      dsimp only
      omega
    · obtain ⟨-, hleftCollateral, -⟩ := draw_eq_ok hcollateral
      rw [hcostOutput] at hleftCollateral
      rcases hpay with ⟨-, rfl⟩ | ⟨-, hpay⟩
      · exact ⟨hleftOutput, hleftCollateral⟩
      · simp only [paySecondary, bind_eq_ok, pure_eq_ok] at hpay
        obtain ⟨_, -, _, -, _, -, rfl⟩ := hpay
        exact ⟨hleftOutput, hleftCollateral⟩

omit [MarketNum] in
/-- What is paid in secondary tokens and what is left of the cost are together the
secondary tokens that the rest of the cost is worth. -/
theorem Pays.secondary_add_remaining {needed : ℕ}
    (hpays : Pays context funds needed payment) :
    payment.paidInSecondary * context.pnlTokenPrice.pickPrice false +
        payment.remainingCost =
      (needed - payment.paidInCollateral) *
          context.outputTokenPrice.pickPrice false /
        context.pnlTokenPrice.pickPrice false *
          context.pnlTokenPrice.pickPrice false := by
  have hpaid : payment.paidInSecondary ≤
      (needed - payment.paidInCollateral) *
        context.outputTokenPrice.pickPrice false /
          context.pnlTokenPrice.pickPrice false := by
    rw [hpays.paidInSecondary_eq]
    exact min_le_right _ _
  rw [hpays.remainingCost_eq, ← Nat.add_mul, Nat.add_sub_cancel' hpaid]

omit [MarketNum] in
/-- Only the rounding to secondary tokens is lost of the tokens that were needed. -/
theorem Pays.value_bounds {needed : ℕ} (hpays : Pays context funds needed payment)
    (hsecondary : 0 < context.pnlTokenPrice.pickPrice false) :
    payment.value context + payment.remainingCost ≤
        needed * context.outputTokenPrice.pickPrice false ∧
      needed * context.outputTokenPrice.pickPrice false <
        payment.value context + payment.remainingCost +
          context.pnlTokenPrice.pickPrice false := by
  have hpaid : payment.paidInCollateral ≤ needed := by
    rw [hpays.paidInCollateral_eq]
    exact min_le_right _ _
  have hneeded : needed * context.outputTokenPrice.pickPrice false =
      payment.paidInCollateral * context.outputTokenPrice.pickPrice false +
        (needed - payment.paidInCollateral) *
          context.outputTokenPrice.pickPrice false := by
    rw [← Nat.add_mul, Nat.add_sub_cancel' hpaid]
  have hrest := hpays.secondary_add_remaining
  have hbelow := Nat.div_mul_le_self ((needed - payment.paidInCollateral) *
    context.outputTokenPrice.pickPrice false) (context.pnlTokenPrice.pickPrice false)
  have habove := Nat.lt_div_mul_add hsecondary
    (a := (needed - payment.paidInCollateral) *
      context.outputTokenPrice.pickPrice false)
  rw [Payment.value, hneeded]
  omega

/-- A cost that is paid for is accounted for as a whole. -/
theorem doPayForCost_costAccounted (context : Context) (funds : Funds) (cost : ℕ)
    (payment : Payment)
    (houtput : 0 < context.outputTokenPrice.pickPrice false)
    (hsecondary : 0 < context.pnlTokenPrice.pickPrice false)
    (hpay : doPayForCost context funds cost = .ok payment) :
    CostAccounted context funds cost payment := by
  have hpays := doPayForCost_eq_ok hpay
  obtain ⟨hleftOutput, hleftCollateral⟩ := doPayForCost_funds hpay
  obtain ⟨hupper, hlower⟩ := hpays.value_bounds hsecondary
  have hroundedUp :
      cost ≤ cost ⌈/⌉ context.outputTokenPrice.pickPrice false *
        context.outputTokenPrice.pickPrice false := by
    rw [Nat.mul_comm]
    exact le_smul_ceilDiv houtput
  have hrounding :
      cost ⌈/⌉ context.outputTokenPrice.pickPrice false *
        context.outputTokenPrice.pickPrice false <
          cost + context.outputTokenPrice.pickPrice false := by
    rw [Nat.ceilDiv_eq_add_pred_div]
    have hfloor := Nat.div_mul_le_self
      (cost + context.outputTokenPrice.pickPrice false - 1)
      (context.outputTokenPrice.pickPrice false)
    omega
  -- A rest in output tokens means that both sources of them are used up.
  have hexhausted : payment.funds.secondaryOutputAmount ≠ funds.secondaryOutputAmount ∨
      payment.remainingCost ≠ 0 →
        payment.funds.outputAmount = 0 ∧ payment.funds.remainingCollateralAmount = 0 := by
    intro htouched
    have hrest := hpays.secondary_add_remaining
    have hfunds := hpays.secondary_funds
    have hshort : payment.paidInCollateral <
        cost ⌈/⌉ context.outputTokenPrice.pickPrice false := by
      by_contra hnone
      rw [Nat.sub_eq_zero_of_le (not_lt.mp hnone), Nat.zero_mul, Nat.zero_div,
        Nat.zero_mul, Nat.add_eq_zero_iff, Nat.mul_eq_zero] at hrest
      omega
    rw [hpays.paidInCollateral_eq] at hshort
    omega
  exact {
    covered := by omega
    notExceeded := by omega
    paidInCollateral := hpays.collateral_funds
    paidInSecondary := hpays.secondary_funds
    collateralTouched := by
      intro htouched
      omega
    secondaryTouched := fun htouched => hexhausted (.inl htouched)
    costLeft := by
      intro hleft
      obtain ⟨hnoOutput, hnoCollateral⟩ := hexhausted (.inr hleft)
      refine ⟨hnoOutput, hnoCollateral, ?_⟩
      have hfunds := hpays.secondary_funds
      have hpaid := hpays.paidInSecondary_eq
      rw [hpays.remainingCost_eq, Nat.mul_ne_zero_iff] at hleft
      omega }

end Payment

section Store

attribute [local instance] storeNumbers

/-- The collateral is the long token and the profit is in short tokens. -/
def collateralContext : Context :=
  ⟨⟨⟨3, 3⟩, ⟨3, 3⟩, ⟨7, 7⟩⟩, true, false, false⟩

/-- All three sources are used up for a cost of 100, and 63 of it are left. -/
theorem doPayForCost_costAccounted_short : ∃ payment,
    doPayForCost collateralContext ⟨4, 5, 1⟩ 100 = .ok payment ∧
      payment.remainingCost = 63 ∧
      CostAccounted collateralContext ⟨4, 5, 1⟩ 100 payment := by
  obtain ⟨payment, hpay, hcost⟩ : ∃ payment,
      doPayForCost collateralContext ⟨4, 5, 1⟩ 100 = .ok payment ∧
        payment.remainingCost = 63 :=
    exists_ok_iff_any.mpr (by decide +kernel)
  exact ⟨payment, hpay, hcost,
    doPayForCost_costAccounted collateralContext _ _ payment (by decide) (by decide) hpay⟩

end Store

end Gmsol.Model.CollateralProcessor
