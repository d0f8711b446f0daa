import Gmsol.Accounting.Conservation
import Gmsol.Library.Dilution

/-!
# The share of a liquidity provider

Deposits mint market tokens for what they add to the liquidity pool, withdrawals burn them
for what they take, and every rounding favours the pool.  At one price of each token, the
value of a market token therefore never falls, whatever the fees and the price impact.
-/

namespace Gmsol.Model

open Gmsol.Fallible Gmsol.Dilution

variable {isPure : Bool} {prices : Prices}

/-- Every token has one price; the two tokens of a pure market are one. -/
structure SpotPrices (isPure : Bool) (prices : Prices) : Prop where
  index : prices.indexTokenPrice.max = prices.indexTokenPrice.min
  collateral : ∀ isLong, (prices.collateralTokenPrice isLong).max =
    (prices.collateralTokenPrice isLong).min
  pure : isPure = true → prices.longTokenPrice = prices.shortTokenPrice

theorem Price.pickPrice_spot {price : Price} (hspot : price.max = price.min)
    (maximize : Bool) : price.pickPrice maximize = price.min := by
  cases maximize
  · rfl
  · exact hspot

theorem Price.pickPriceForPnl_spot {price : Price} (hspot : price.max = price.min)
    (isLong maximize : Bool) : price.pickPriceForPnl isLong maximize = price.min := by
  rw [pickPriceForPnl, hspot, ite_self]

/-- The value of a liquidity pool. -/
def Pool.value (pool : Pool isPure) (prices : Prices) : ℤ :=
  pool.longAmount * prices.longTokenPrice.min + pool.shortAmount * prices.shortTokenPrice.min

theorem Pool.value_applyDelta [MarketNum] (hspot : SpotPrices isPure prices)
    {pool next : Pool isPure} {side : Bool} {delta : ℤ}
    (happly : pool.applyDeltaAmount side delta = .ok next) :
    next.value prices =
      pool.value prices + delta * (prices.collateralTokenPrice side).min := by
  cases isPure with
  | true =>
      have htotal := applyDeltaAmount_total happly
      have hprice : (prices.collateralTokenPrice side).min = prices.shortTokenPrice.min := by
        cases side
        · rfl
        · rw [Prices.collateralTokenPrice, if_pos rfl, hspot.pure rfl]
      simp only [value, hspot.pure rfl, hprice, ← add_mul]
      simp only [total, Nat.cast_add] at htotal
      rw [htotal]
  | false =>
      have hlong := applyDeltaAmount_amount happly true
      have hshort := applyDeltaAmount_amount happly false
      simp only [amount, if_true, Bool.false_eq_true, if_false] at hlong hshort
      rw [value, value, hlong, hshort]
      cases side
      · simp only [Bool.false_eq_true, if_false, if_true, Prices.collateralTokenPrice]
        ring
      · simp only [Bool.true_eq_false, if_false, if_true, Prices.collateralTokenPrice]
        ring

namespace Market

/-- `after` differs from `before` at most in the pools that deposits and withdrawals
change, and in the supply. -/
def KeepsTraders (before after : Market isPure) : Prop :=
  ∃ primary swapImpact claimableFee totalSupply,
    after = { before with primary, swapImpact, claimableFee, totalSupply }

theorem KeepsTraders.refl (market : Market isPure) : KeepsTraders market market :=
  ⟨_, _, _, _, rfl⟩

theorem KeepsTraders.trans {first second third : Market isPure}
    (hleft : KeepsTraders first second) (hright : KeepsTraders second third) :
    KeepsTraders first third := by
  obtain ⟨_, _, _, _, rfl⟩ := hleft
  obtain ⟨_, _, _, _, rfl⟩ := hright
  exact ⟨_, _, _, _, rfl⟩

/-- The liquidity pool gains a value. -/
structure Gains (prices : Prices) (before after : Market isPure) (gained : ℤ) : Prop where
  keeps : KeepsTraders before after
  supply : after.totalSupply = before.totalSupply
  value : after.primary.value prices = before.primary.value prices + gained

theorem Gains.refl (market : Market isPure) : Gains prices market market 0 :=
  ⟨.refl market, rfl, (add_zero _).symm⟩

theorem Gains.trans {first second third : Market isPure} {gained more : ℤ}
    (hfirst : Gains prices first second gained) (hsecond : Gains prices second third more) :
    Gains prices first third (gained + more) where
  keeps := hfirst.keeps.trans hsecond.keeps
  supply := hsecond.supply.trans hfirst.supply
  value := by rw [hsecond.value, hfirst.value, add_assoc]

variable [MarketNum] {before after : Market isPure} {side : Bool} {delta : ℤ}

theorem applyDelta_gains (hspot : SpotPrices isPure prices)
    (happly : before.applyDelta side delta = .ok after) :
    Gains prices before after (delta * (prices.collateralTokenPrice side).min) := by
  simp only [applyDelta, bind_eq_ok, pure_eq_ok] at happly
  obtain ⟨primary, hprimary, rfl⟩ := happly
  exact ⟨⟨_, _, _, _, rfl⟩, rfl, Pool.value_applyDelta hspot hprimary⟩

theorem applyDeltaToClaimableFeePool_gains
    (happly : before.applyDeltaToClaimableFeePool side delta = .ok after) :
    Gains prices before after 0 := by
  simp only [applyDeltaToClaimableFeePool, bind_eq_ok, pure_eq_ok] at happly
  obtain ⟨claimableFee, _, rfl⟩ := happly
  exact ⟨⟨_, _, _, _, rfl⟩, rfl, (add_zero _).symm⟩

theorem applySwapImpactValueWithCap_gains {price : Price} {usdImpact : ℤ}
    {applied : Market isPure × ℕ}
    (happly : before.applySwapImpactValueWithCap side price usdImpact = .ok applied) :
    Gains prices before applied.1 0 := by
  simp only [applySwapImpactValueWithCap, bind_eq_ok, pure_eq_ok] at happly
  obtain ⟨_, _, _, _, swapImpact, _, rfl⟩ := happly
  exact ⟨⟨_, _, _, _, rfl⟩, rfl, (add_zero _).symm⟩

end Market

/-- Shares for a value are worth that value at most. -/
theorem usdToMarketTokenAmount_le [MarketNum] {usdValue poolValue supply divisor amount : ℕ}
    (hsupply : 0 < supply)
    (hamount : usdToMarketTokenAmount usdValue poolValue supply divisor = some amount) :
    amount * poolValue ≤ supply * usdValue := by
  simp only [usdToMarketTokenAmount, hsupply.ne', false_and, if_false] at hamount
  split_ifs at hamount
  obtain ⟨_, _, rfl⟩ := checkedMulDiv_eq_some.mp hamount
  exact Nat.div_mul_le_self _ _

/-! ## Deposits -/

namespace Deposit

variable [MarketNum]

/-- Market tokens are minted for their value at most. -/
theorem mintFor_le {usdValue poolValue supply minted : ℕ} {message : String}
    (hsupply : 0 < supply) (hmint : mintFor usdValue poolValue supply message = .ok minted) :
    minted * poolValue ≤ supply * usdValue := by
  rw [mintFor, okOr_eq_ok] at hmint
  exact usdToMarketTokenAmount_le hsupply hmint

/-- What the impact adds to the liquidity pool covers the tokens that are minted for it. -/
theorem settleImpact_gains {market : Market isPure} {params : DepositParams}
    {isLongToken : Bool} {poolValue amount : ℕ} {impact : ℤ} {settled : ImpactSettled isPure}
    (hspot : SpotPrices isPure params.prices) {supply : ℕ} (hsupply : 0 < supply)
    (hsettle : settleImpact market params isLongToken poolValue supply amount impact =
      .ok settled) :
    ∃ gained : ℕ, market.Gains params.prices settled.market gained ∧
      settled.minted * poolValue ≤ supply * gained := by
  unfold settleImpact at hsettle
  split_ifs at hsettle
  · simp only [settlePositiveImpact, bind_eq_ok, okOr_eq_ok, pure_eq_ok, toSigned_eq_ok,
      checkedMul_eq_some, checkedAdd_eq_some] at hsettle
    obtain ⟨applied, happlied, _, ⟨_, rfl⟩, minted, hminted, _, ⟨_, rfl⟩, _, ⟨_, rfl⟩, next,
      hnext, _, _, rfl⟩ := hsettle
    have hgains := (Market.applySwapImpactValueWithCap_gains happlied).trans
      (Market.applyDelta_gains hspot hnext)
    refine ⟨applied.2 * (params.prices.collateralTokenPrice !isLongToken).min, ?_, ?_⟩
    · rw [zero_add] at hgains
      push_cast
      exact hgains
    · rw [zero_add]
      have hworth := mintFor_le hsupply hminted
      rwa [Price.pickPrice_spot (hspot.collateral _)] at hworth
  · simp only [settleNegativeImpact, bind_eq_ok, pure_eq_ok] at hsettle
    obtain ⟨applied, happlied, remaining, _, rfl⟩ := hsettle
    exact ⟨0, Market.applySwapImpactValueWithCap_gains happlied, by simp⟩
  · obtain rfl := Except.ok.inj hsettle
    exact ⟨0, .refl market, by simp⟩

theorem executeDeposit_gains {before : Market isPure} {params : DepositParams}
    {isLongToken : Bool} {poolValue : ℕ} {impact : ℤ} {result : Market isPure × ℕ × Fees}
    (hspot : SpotPrices isPure params.prices) (hsupply : 0 < before.totalSupply)
    (hdeposit : executeDeposit before params isLongToken poolValue impact = .ok result) :
    ∃ gained : ℕ, before.Gains params.prices result.1 gained ∧
      result.2.1 * poolValue ≤ before.totalSupply * gained := by
  simp only [executeDeposit, bind_eq_ok, okOr_eq_ok, pure_eq_ok, toSigned_eq_ok,
    checkedAdd_eq_some, checkedMul_eq_some] at hdeposit
  obtain ⟨_, _, charged, _, _, ⟨_, rfl⟩, withFees, hwithFees, settled, hsettled, _, ⟨_, rfl⟩,
    minted, hminted, _, ⟨_, rfl⟩, _, ⟨_, rfl⟩, _, ⟨_, rfl⟩, next, hnext, _, _, _, _,
    rfl⟩ := hdeposit
  obtain ⟨gained, hsettle, hworth⟩ := settleImpact_gains hspot hsupply hsettled
  have hadded := mintFor_le hsupply hminted
  rw [Price.pickPrice_spot (hspot.collateral _)] at hadded
  have hgains := ((Market.applyDeltaToClaimableFeePool_gains hwithFees).trans hsettle).trans
    (Market.applyDelta_gains hspot hnext)
  refine ⟨gained + (settled.amount + charged.2.feeAmountForPool) *
    (params.prices.collateralTokenPrice isLongToken).min, ?_, ?_⟩
  · rw [zero_add] at hgains
    push_cast
    exact_mod_cast hgains
  · calc (settled.minted + minted) * poolValue
        = settled.minted * poolValue + minted * poolValue := Nat.add_mul _ _ _
      _ ≤ before.totalSupply * gained + before.totalSupply *
            (settled.amount * (params.prices.collateralTokenPrice isLongToken).min) :=
          Nat.add_le_add hworth hadded
      _ ≤ before.totalSupply * (gained + (settled.amount + charged.2.feeAmountForPool) *
            (params.prices.collateralTokenPrice isLongToken).min) := by
          rw [← Nat.mul_add]
          apply Nat.mul_le_mul_left
          apply Nat.add_le_add_left
          exact Nat.mul_le_mul_right _ (Nat.le_add_right _ _)

theorem executeSide_gains {before : Market isPure} {params : DepositParams}
    {isLongToken : Bool} {poolValue : ℕ} {impact : ℤ}
    {usdValue totalLong totalShort minted : ℕ} {message : String}
    {result : Market isPure × ℕ × Fees}
    (hspot : SpotPrices isPure params.prices) (hsupply : 0 < before.totalSupply)
    (hside : executeSide before params isLongToken poolValue impact usdValue totalLong
      totalShort minted message = .ok result) :
    ∃ gained more : ℕ, before.Gains params.prices result.1 gained ∧
      result.2.1 = minted + more ∧ more * poolValue ≤ before.totalSupply * gained := by
  unfold executeSide at hside
  split_ifs at hside
  · obtain rfl := Except.ok.inj hside
    exact ⟨0, 0, .refl before, rfl, by simp⟩
  · simp only [bind_eq_ok, okOr_eq_ok, pure_eq_ok, checkedAdd_eq_some] at hside
    obtain ⟨_, _, _, _, deposited, hdeposited, _, ⟨_, rfl⟩, rfl⟩ := hside
    obtain ⟨gained, hgains, hworth⟩ := executeDeposit_gains hspot hsupply hdeposited
    exact ⟨gained, deposited.2.1, hgains, rfl, hworth⟩

/-- What a deposit adds to the liquidity pool covers the tokens that it mints. -/
theorem execute_gains {before after : Market isPure} {params : DepositParams}
    {report : DepositReport} (hspot : SpotPrices isPure params.prices)
    (hsupply : 0 < before.totalSupply)
    (hdeposit : execute before params = .ok (after, report)) :
    ∃ (poolValue : ℤ) (gained : ℕ),
      before.poolValue params.prices .maxAfterDeposit true = .ok poolValue ∧
      before.KeepsTraders after ∧ after.totalSupply = before.totalSupply + report.minted ∧
      after.primary.value params.prices = before.primary.value params.prices + gained ∧
      report.minted * poolValue ≤ before.totalSupply * gained := by
  simp only [execute, bind_eq_ok, ensure_eq_ok, pure_eq_ok] at hdeposit
  obtain ⟨_, _, _, _, _, _, poolValue, hpoolValue, _, hnonneg, afterLong, hlong, afterShort,
    hshort, next, hmint, hresult⟩ := hdeposit
  obtain ⟨rfl, rfl⟩ := Prod.mk.inj hresult
  obtain ⟨gainedLong, mintedLong, hlongGains, hlongMinted, hlongWorth⟩ :=
    executeSide_gains hspot hsupply hlong
  obtain ⟨gainedShort, mintedShort, hshortGains, hshortMinted, hshortWorth⟩ :=
    executeSide_gains hspot (hlongGains.supply.symm ▸ hsupply) hshort
  have hgains := hlongGains.trans hshortGains
  obtain rfl := Market.mint_eq_ok hmint
  rw [hlongGains.supply] at hshortWorth
  refine ⟨poolValue, gainedLong + gainedShort, hpoolValue,
    hgains.keeps.trans ⟨_, _, _, _, rfl⟩, ?_, ?_, ?_⟩
  · dsimp only
    rw [hgains.supply]
  · push_cast
    exact hgains.value
  · dsimp only
    rw [hshortMinted, hlongMinted, Nat.zero_add, ← Int.natAbs_of_nonneg hnonneg]
    have hworth := Nat.add_le_add hlongWorth hshortWorth
    rw [← Nat.add_mul, ← Nat.mul_add] at hworth
    exact_mod_cast hworth

end Deposit

/-! ## Withdrawals -/

namespace Withdrawal

variable [MarketNum]

theorem tokenAmountFor_le {marketTokenValue tokenValue totalValue price amount : ℕ}
    {message : String}
    (hamount : tokenAmountFor marketTokenValue tokenValue totalValue price message =
      .ok amount) :
    totalValue ≠ 0 ∧ amount * price ≤ marketTokenValue * tokenValue / totalValue := by
  simp only [tokenAmountFor, okOr_eq_ok, option_bind_eq_some, checkedMulDiv_eq_some,
    checkedDiv_eq_some] at hamount
  obtain ⟨_, ⟨htotal, _, rfl⟩, _, rfl⟩ := hamount
  exact ⟨htotal, Nat.div_mul_le_self _ _⟩

/-- The amounts that are paid for market tokens are worth their share at most. -/
theorem outputAmounts_le {market : Market isPure} {params : WithdrawParams}
    {amounts : ℕ × ℕ} (hspot : SpotPrices isPure params.prices)
    (houtput : outputAmounts market params = .ok amounts) :
    ∃ poolValue : ℤ, market.poolValue params.prices .maxAfterWithdrawal false =
        .ok poolValue ∧
      ((amounts.1 * params.prices.longTokenPrice.min +
        amounts.2 * params.prices.shortTokenPrice.min : ℕ) : ℤ) * market.totalSupply ≤
          poolValue * params.marketTokenAmount := by
  simp only [outputAmounts, bind_eq_ok, ensure_eq_ok, okOr_eq_ok, pure_eq_ok,
    checkedAdd_eq_some, marketTokenAmountToUsd, checkedMulDiv_eq_some] at houtput
  obtain ⟨poolValue, hpoolValue, _, hnonneg, _, _, longValue, _, shortValue, _, _, ⟨_, rfl⟩,
    marketTokenValue, ⟨_, _, rfl⟩, longAmount, hlong, shortAmount, hshort, rfl⟩ := houtput
  obtain ⟨htotal, hlongWorth⟩ := tokenAmountFor_le hlong
  obtain ⟨_, hshortWorth⟩ := tokenAmountFor_le hshort
  have hlongSpot : params.prices.longTokenPrice.max = params.prices.longTokenPrice.min :=
    hspot.collateral true
  have hshortSpot : params.prices.shortTokenPrice.max = params.prices.shortTokenPrice.min :=
    hspot.collateral false
  rw [Price.pickPrice_spot hlongSpot] at hlongWorth
  rw [Price.pickPrice_spot hshortSpot] at hshortWorth
  refine ⟨poolValue, hpoolValue, ?_⟩
  set value := poolValue.natAbs * params.marketTokenAmount / market.totalSupply with hvalue
  have hpaid : longAmount * params.prices.longTokenPrice.min +
      shortAmount * params.prices.shortTokenPrice.min ≤ value := by
    calc longAmount * params.prices.longTokenPrice.min +
          shortAmount * params.prices.shortTokenPrice.min
        ≤ value * longValue / (longValue + shortValue) +
            value * shortValue / (longValue + shortValue) :=
          Nat.add_le_add hlongWorth hshortWorth
      _ ≤ (value * longValue + value * shortValue) / (longValue + shortValue) :=
          Nat.div_add_div_le_add_div
      _ = value := by
          rw [← Nat.mul_add, Nat.mul_div_cancel _ (Nat.pos_of_ne_zero htotal)]
  have hworth : value * market.totalSupply ≤ poolValue.natAbs * params.marketTokenAmount :=
    Nat.div_mul_le_self _ _
  rw [← Int.natAbs_of_nonneg hnonneg]
  exact_mod_cast (Nat.mul_le_mul_right _ hpaid).trans hworth

theorem creditReceiver_gains {before after : Market isPure} {side : Bool} {fees : Fees}
    (hcredit : creditReceiver before side fees = .ok after) :
    before.Gains prices after 0 := by
  simp only [creditReceiver, bind_eq_ok] at hcredit
  obtain ⟨_, _, happly⟩ := hcredit
  exact Market.applyDeltaToClaimableFeePool_gains happly

/-- An output leaves the liquidity pool with the fee of the receiver; the fee of the pool
stays in it. -/
theorem takeOutput_gains {before after : Market isPure} {side : Bool} {amount : ℕ}
    {charged : ℕ × Fees} (hspot : SpotPrices isPure prices)
    (hcharged : charged.1 + charged.2.feeAmountForPool + charged.2.feeAmountForReceiver =
      amount)
    (htake : takeOutput before side charged.2 charged.1 = .ok after) :
    ∃ paid ≤ amount * (prices.collateralTokenPrice side).min,
      before.Gains prices after (-(paid : ℕ)) := by
  simp only [takeOutput, bind_eq_ok, okOr_eq_ok, checkedAdd_eq_some,
    toOppositeSigned_eq_ok] at htake
  obtain ⟨_, ⟨_, rfl⟩, _, ⟨_, rfl⟩, happly⟩ := htake
  have hgains := Market.applyDelta_gains hspot happly
  refine ⟨(charged.2.feeAmountForReceiver + charged.1) *
    (prices.collateralTokenPrice side).min, ?_, ?_⟩
  · apply Nat.mul_le_mul_right
    omega
  · push_cast at hgains ⊢
    rw [neg_mul] at hgains
    exact hgains

/-- What a withdrawal takes from the liquidity pool is worth at most the market tokens
that it burns. -/
theorem execute_gains {before after : Market isPure} {params : WithdrawParams}
    {report : WithdrawReport} (hspot : SpotPrices isPure params.prices)
    (hwithdraw : execute before params = .ok (after, report)) :
    ∃ (poolValue : ℤ) (paid : ℕ),
      before.poolValue params.prices .maxAfterWithdrawal false = .ok poolValue ∧
      before.KeepsTraders after ∧ params.marketTokenAmount ≤ before.totalSupply ∧
      after.totalSupply = before.totalSupply - params.marketTokenAmount ∧
      after.primary.value params.prices = before.primary.value params.prices - paid ∧
      paid * before.totalSupply ≤ poolValue * params.marketTokenAmount := by
  simp only [execute, bind_eq_ok, pure_eq_ok, chargeFees, okOr_eq_ok] at hwithdraw
  obtain ⟨_, _, amounts, houtput, long, hlongFees, short, hshortFees, withLongFee, hlongFee,
    withFees, hshortFee, withoutLong, hlong, withoutShort, hshort, _, _, _, _, _, _, next,
    hburn, hresult⟩ := hwithdraw
  obtain ⟨rfl, rfl⟩ := Prod.mk.inj hresult
  obtain ⟨poolValue, hpoolValue, hworth⟩ := outputAmounts_le hspot houtput
  obtain ⟨paidLong, hpaidLong, hlongGains⟩ :=
    takeOutput_gains hspot (FeeParams.applyFees_eq_some hlongFees) hlong
  obtain ⟨paidShort, hpaidShort, hshortGains⟩ :=
    takeOutput_gains hspot (FeeParams.applyFees_eq_some hshortFees) hshort
  have hgains := (((creditReceiver_gains hlongFee).trans
    (creditReceiver_gains hshortFee)).trans hlongGains).trans hshortGains
  obtain ⟨henough, rfl⟩ := Market.burn_eq_ok hburn
  rw [hgains.supply] at henough
  refine ⟨poolValue, paidLong + paidShort, hpoolValue, hgains.keeps.trans ⟨_, _, _, _, rfl⟩,
    henough, ?_, ?_, ?_⟩
  · dsimp only
    rw [hgains.supply]
  · have hvalue := hgains.value
    push_cast
    rw [hvalue]
    ring
  · apply le_trans _ hworth
    exact_mod_cast Nat.mul_le_mul_right _ (Nat.add_le_add hpaidLong hpaidShort)

end Withdrawal

/-! ## The value of a market -/

namespace Market

variable [MarketNum] {market before after : Market isPure}

/-- No profit of the traders is capped. -/
def PnlUncapped (market : Market isPure) (prices : Prices) : Prop :=
  ∀ kind isLong maximize pnl poolValue capped,
    market.pnl prices.indexTokenPrice isLong maximize = .ok pnl →
    market.poolValueWithoutPnlForOneSide prices isLong (!maximize) = .ok poolValue →
    market.capPnl isLong pnl poolValue kind = .ok capped → capped = pnl

/-- Without positions there is no profit to cap. -/
theorem pnlUncapped_of_empty (hinterest : market.openInterest = ⟨.empty, .empty⟩)
    (htokens : market.openInterestInTokens = ⟨.empty, .empty⟩) :
    market.PnlUncapped prices := by
  intro kind isLong maximize pnl poolValue capped hpnl _ hcap
  have hzero : pnl = 0 := by
    have hnone : market.pnl prices.indexTokenPrice isLong maximize = .ok 0 := by
      rw [Market.pnl, openInterestAmount, openInterestInTokensAmount, hinterest, htokens]
      cases isPure <;> cases isLong <;> rfl
    exact Except.ok.inj (hpnl.symm.trans hnone)
  subst hzero
  exact (Except.ok.inj hcap).symm

/-- At rest the borrowing fees that are pending do not grow. -/
theorem totalPendingBorrowingFees_rest {isLong : Bool} {fees : ℕ}
    (hrest : market.passedInSecondsForBorrowing = 0)
    (hfees : market.totalPendingBorrowingFees prices isLong = .ok fees) :
    ∃ openInterest total, market.openInterestAmount isLong = .ok openInterest ∧
      applyFactor openInterest (market.cumulativeBorrowingFactor isLong) = some total ∧
      checkedSub total (market.totalBorrowingAmount isLong) = some fees := by
  simp only [totalPendingBorrowingFees, nextCumulativeBorrowingFactor, hrest, bind_eq_ok,
    okOr_eq_ok, pure_eq_ok, option_bind_eq_some, narrow_eq_some, checkedMul_eq_some,
    checkedAdd_eq_some] at hfees
  obtain ⟨openInterest, hinterest, _, ⟨_, _, _, ⟨_, rfl⟩, _, ⟨_, rfl⟩, _, ⟨_, rfl⟩, rfl⟩,
    total, htotal, hsub⟩ := hfees
  rw [Nat.mul_zero, Nat.add_zero] at htotal
  exact ⟨openInterest, total, hinterest, htotal, hsub⟩

/-- At rest the pending borrowing fees do not depend on the liquidity. -/
theorem totalPendingBorrowingFees_keeps {isLong : Bool} {fees other : ℕ}
    (hkeeps : before.KeepsTraders after) (hrest : before.passedInSecondsForBorrowing = 0)
    (hbefore : before.totalPendingBorrowingFees prices isLong = .ok fees)
    (hafter : after.totalPendingBorrowingFees prices isLong = .ok other) : other = fees := by
  have hsame : after.openInterestAmount isLong = before.openInterestAmount isLong ∧
      after.cumulativeBorrowingFactor isLong = before.cumulativeBorrowingFactor isLong ∧
      after.totalBorrowingAmount isLong = before.totalBorrowingAmount isLong ∧
      after.passedInSecondsForBorrowing = before.passedInSecondsForBorrowing := by
    obtain ⟨_, _, _, _, rfl⟩ := hkeeps
    exact ⟨rfl, rfl, rfl, rfl⟩
  obtain ⟨hinterest, hfactor, hborrowing, hclock⟩ := hsame
  obtain ⟨interest, total, hfound, htotal, hsub⟩ := totalPendingBorrowingFees_rest hrest hbefore
  obtain ⟨otherInterest, otherTotal, hotherFound, hotherTotal, hotherSub⟩ :=
    totalPendingBorrowingFees_rest (hclock.trans hrest) hafter
  rw [hinterest, hfound] at hotherFound
  obtain rfl := Except.ok.inj hotherFound
  rw [hfactor, htotal] at hotherTotal
  obtain rfl := Option.some.inj hotherTotal
  rw [hborrowing, hsub] at hotherSub
  exact (Option.some.inj hotherSub).symm

theorem pendingBorrowingFeesForPool_keeps {fees other : ℤ} (hkeeps : before.KeepsTraders after)
    (hrest : before.passedInSecondsForBorrowing = 0)
    (hbefore : before.pendingBorrowingFeesForPool prices = .ok fees)
    (hafter : after.pendingBorrowingFeesForPool prices = .ok other) : other = fees := by
  have hconfig : after.config = before.config := by
    obtain ⟨_, _, _, _, rfl⟩ := hkeeps
    rfl
  simp only [pendingBorrowingFeesForPool, bind_eq_ok] at hbefore hafter
  obtain ⟨long, hlong, short, hshort, total, htotal, forPool, hforPool, hfees⟩ := hbefore
  obtain ⟨otherLong, hotherLong, otherShort, hotherShort, otherTotal, hotherTotal,
    otherForPool, hotherForPool, hother⟩ := hafter
  obtain rfl := totalPendingBorrowingFees_keeps hkeeps hrest hlong hotherLong
  obtain rfl := totalPendingBorrowingFees_keeps hkeeps hrest hshort hotherShort
  rw [htotal] at hotherTotal
  obtain rfl := Except.ok.inj hotherTotal
  rw [hconfig, hforPool] at hotherForPool
  obtain rfl := Except.ok.inj hotherForPool
  rw [hfees] at hother
  exact (Except.ok.inj hother).symm

/-- What the value of a market consists of, when no profit is capped. -/
theorem poolValue_parts (huncapped : market.PnlUncapped prices) {kind : PnlFactorKind}
    {maximize : Bool} {value : ℤ}
    (hvalue : market.poolValue prices kind maximize = .ok value) :
    ∃ fees longPnl shortPnl impact,
      market.pendingBorrowingFeesForPool prices = .ok fees ∧
      market.pnl prices.indexTokenPrice true (!maximize) = .ok longPnl ∧
      market.pnl prices.indexTokenPrice false (!maximize) = .ok shortPnl ∧
      market.impactPoolValue prices (!maximize) = .ok impact ∧
      value = market.primary.longAmount * prices.longTokenPrice.pickPrice maximize +
        market.primary.shortAmount * prices.shortTokenPrice.pickPrice maximize +
        fees - (longPnl + shortPnl) - impact := by
  simp only [poolValue, bind_eq_ok, okOr_eq_ok, checkedAdd_eq_some, toSigned_eq_ok,
    signedAdd_eq_some, signedSub_eq_some] at hvalue
  obtain ⟨long, hlong, short, hshort, _, ⟨_, rfl⟩, _, ⟨_, rfl⟩, fees, hfees, _, ⟨_, rfl⟩,
    longCapped, hlongCapped, shortCapped, hshortCapped, _, ⟨_, rfl⟩, _, ⟨_, rfl⟩, impact,
    himpact, _, rfl⟩ := hvalue
  simp only [cappedPnl, bind_eq_ok] at hlongCapped hshortCapped
  obtain ⟨longPnl, hlongPnl, hlongCap⟩ := hlongCapped
  obtain ⟨shortPnl, hshortPnl, hshortCap⟩ := hshortCapped
  obtain rfl := huncapped kind true _ _ _ _ hlongPnl (by rwa [Bool.not_not]) hlongCap
  obtain rfl := huncapped kind false _ _ _ _ hshortPnl (by rwa [Bool.not_not]) hshortCap
  refine ⟨fees, _, _, impact, hfees, hlongPnl, hshortPnl, himpact, ?_⟩
  simp only [poolValueWithoutPnlForOneSide, okOr_eq_ok, checkedMul_eq_some] at hlong hshort
  rw [← hlong.2, ← hshort.2]
  push_cast
  rfl

/-- What the value of a market consists of, when prices are spot and no profit is capped. -/
theorem poolValue_eq_ok (hspot : SpotPrices isPure prices)
    (huncapped : market.PnlUncapped prices) {kind : PnlFactorKind} {maximize : Bool}
    {value : ℤ} (hvalue : market.poolValue prices kind maximize = .ok value) :
    ∃ fees longPnl shortPnl impact,
      market.pendingBorrowingFeesForPool prices = .ok fees ∧
      market.pnl prices.indexTokenPrice true false = .ok longPnl ∧
      market.pnl prices.indexTokenPrice false false = .ok shortPnl ∧
      market.impactPoolValue prices false = .ok impact ∧
      value = market.primary.value prices + fees - (longPnl + shortPnl) - impact := by
  have hpnl (isLong maximize : Bool) :
      market.pnl prices.indexTokenPrice isLong maximize =
        market.pnl prices.indexTokenPrice isLong false := by
    simp only [pnl, Price.pickPriceForPnl_spot hspot.index]
  have himpact : market.impactPoolValue prices (!maximize) =
      market.impactPoolValue prices false := by
    simp only [impactPoolValue, Price.pickPrice_spot hspot.index]
  obtain ⟨fees, longPnl, shortPnl, impact, hfees, hlong, hshort, hvalueOfImpact, rfl⟩ :=
    poolValue_parts huncapped hvalue
  rw [hpnl] at hlong hshort
  rw [himpact] at hvalueOfImpact
  refine ⟨fees, longPnl, shortPnl, impact, hfees, hlong, hshort, hvalueOfImpact, ?_⟩
  have hlongPrice := Price.pickPrice_spot (hspot.collateral true) maximize
  have hshortPrice := Price.pickPrice_spot (hspot.collateral false) maximize
  simp only [Prices.collateralTokenPrice, if_true, Bool.false_eq_true, if_false]
    at hlongPrice hshortPrice
  rw [hlongPrice, hshortPrice, Pool.value]

/-- The value of a market changes by what its liquidity pool gains. -/
theorem poolValue_keeps (hspot : SpotPrices isPure prices) (hkeeps : before.KeepsTraders after)
    (hrest : before.passedInSecondsForBorrowing = 0) (hbefore : before.PnlUncapped prices)
    (hafter : after.PnlUncapped prices) {kind otherKind : PnlFactorKind}
    {maximize otherMaximize : Bool} {value other : ℤ}
    (hvalue : before.poolValue prices kind maximize = .ok value)
    (hother : after.poolValue prices otherKind otherMaximize = .ok other) :
    other = value + (after.primary.value prices - before.primary.value prices) := by
  obtain ⟨fees, longPnl, shortPnl, impact, hfees, hlong, hshort, himpact, rfl⟩ :=
    poolValue_eq_ok hspot hbefore hvalue
  obtain ⟨otherFees, otherLong, otherShort, otherImpact, hotherFees, hotherLong, hotherShort,
    hotherImpact, rfl⟩ := poolValue_eq_ok hspot hafter hother
  obtain rfl := pendingBorrowingFeesForPool_keeps hkeeps hrest hfees hotherFees
  have hsame : (∀ isLong, after.pnl prices.indexTokenPrice isLong false =
        before.pnl prices.indexTokenPrice isLong false) ∧
      after.impactPoolValue prices false = before.impactPoolValue prices false := by
    obtain ⟨_, _, _, _, rfl⟩ := hkeeps
    exact ⟨fun _ => rfl, rfl⟩
  rw [hsame.1, hlong] at hotherLong
  rw [hsame.1, hshort] at hotherShort
  rw [hsame.2, himpact] at hotherImpact
  obtain rfl := Except.ok.inj hotherLong
  obtain rfl := Except.ok.inj hotherShort
  obtain rfl := Except.ok.inj hotherImpact
  ring

end Market

/-! ## Runs -/

/-- Liquidity is provided: there are market tokens, and no profit is capped. -/
structure Provided [MarketNum] (prices : Prices) (market : Market isPure) : Prop where
  supply : 0 < market.totalSupply
  uncapped : market.PnlUncapped prices

/-- Deposits and withdrawals at the same prices, one after the other. -/
inductive Serves [MarketNum] (prices : Prices) (first : Market isPure) :
    Market isPure → Prop
  | start (hstate : Provided prices first) : Serves prices first first
  | deposit {before after : Market isPure} {longTokenAmount shortTokenAmount : ℕ}
      {report : DepositReport} (hrun : Serves prices first before)
      (hdeposit : Deposit.execute before ⟨longTokenAmount, shortTokenAmount, prices⟩ =
        .ok (after, report))
      (hstate : Provided prices after) : Serves prices first after
  | withdraw {before after : Market isPure} {marketTokenAmount : ℕ}
      {report : WithdrawReport} (hrun : Serves prices first before)
      (hwithdraw : Withdrawal.execute before ⟨marketTokenAmount, prices⟩ =
        .ok (after, report))
      (hstate : Provided prices after) : Serves prices first after

namespace Serves

variable [MarketNum] {first last : Market isPure}

theorem provided (hserves : Serves prices first last) : Provided prices last := by
  cases hserves <;> assumption

theorem keepsTraders (hspot : SpotPrices isPure prices) (hserves : Serves prices first last) :
    first.KeepsTraders last := by
  induction hserves with
  | start => exact .refl first
  | deposit hrun hdeposit _ ih =>
      obtain ⟨_, _, _, hkeeps, _⟩ := Deposit.execute_gains hspot hrun.provided.supply hdeposit
      exact ih.trans hkeeps
  | withdraw _ hwithdraw _ ih =>
      obtain ⟨_, _, _, hkeeps, _⟩ := Withdrawal.execute_gains hspot hwithdraw
      exact ih.trans hkeeps

/-- Deposits and withdrawals never lower the value of a market token. -/
theorem perShare_le (hspot : SpotPrices isPure prices)
    (hrest : first.passedInSecondsForBorrowing = 0) (hserves : Serves prices first last)
    {kind otherKind : PnlFactorKind} {maximize otherMaximize : Bool} {value other : ℤ}
    (hvalue : first.poolValue prices kind maximize = .ok value)
    (hother : last.poolValue prices otherKind otherMaximize = .ok other) :
    perShare value first.totalSupply ≤ perShare other last.totalSupply := by
  induction hserves generalizing otherKind otherMaximize other with
  | start hstate =>
      rw [Market.poolValue_keeps hspot (.refl first) hrest hstate.uncapped hstate.uncapped
        hvalue hother, sub_self, add_zero]
  | @deposit before after _ _ report hrun hdeposit hstate ih =>
      have hprovided := hrun.provided
      obtain ⟨poolValue, gained, hpoolValue, hkeeps, hsupply, hgained, hworth⟩ :=
        Deposit.execute_gains hspot hprovided.supply hdeposit
      have hclock : before.passedInSecondsForBorrowing = 0 := by
        obtain ⟨_, _, _, _, rfl⟩ := hrun.keepsTraders hspot
        exact hrest
      rw [Market.poolValue_keeps hspot hkeeps hclock hprovided.uncapped hstate.uncapped
        hpoolValue hother, hgained, hsupply, add_sub_cancel_left]
      exact (ih hpoolValue).trans (perShare_le_mint hprovided.supply hworth)
  | @withdraw before after marketTokenAmount _ hrun hwithdraw hstate ih =>
      have hprovided := hrun.provided
      obtain ⟨poolValue, paid, hpoolValue, hkeeps, henough, hsupply, hpaid, hworth⟩ :=
        Withdrawal.execute_gains hspot hwithdraw
      have hclock : before.passedInSecondsForBorrowing = 0 := by
        obtain ⟨_, _, _, _, rfl⟩ := hrun.keepsTraders hspot
        exact hrest
      have hburned : marketTokenAmount < before.totalSupply := by
        have hleft := hstate.supply
        rw [hsupply] at hleft
        exact Nat.lt_of_sub_pos hleft
      rw [Market.poolValue_keeps hspot hkeeps hclock hprovided.uncapped hstate.uncapped
        hpoolValue hother, hpaid, hsupply, sub_sub_cancel_left, ← sub_eq_add_neg]
      exact (ih hpoolValue).trans (perShare_le_burn hburned hworth)

end Serves

section Store

attribute [local instance] storeNumbers

def spotPricesExample : Prices :=
  ⟨⟨10 ^ 13, 10 ^ 13⟩, ⟨3 * 10 ^ 13, 3 * 10 ^ 13⟩, ⟨10 ^ 13, 10 ^ 13⟩⟩

/-- A market with liquidity and no positions, whose swap fees are one percent. -/
def providedExample : Market false :=
  { Market.init false
      { MarketConfig.unrestricted with swapFeeParams := ⟨10 ^ 18, 10 ^ 18, 3 * 10 ^ 19, none⟩ }
      true ⟨0, 0⟩ with
    primary := ⟨1000, 2000⟩
    totalSupply := 700 }

/-- A deposit of the long token and a withdrawal. -/
theorem Serves.perShare_le_exchange :
    ∃ middle last deposited withdrawn value other,
      Deposit.execute providedExample ⟨500, 0, spotPricesExample⟩ =
        .ok (middle, deposited) ∧
      Withdrawal.execute middle ⟨123, spotPricesExample⟩ = .ok (last, withdrawn) ∧
      providedExample.poolValue spotPricesExample .maxAfterDeposit true = .ok value ∧
      last.poolValue spotPricesExample .maxAfterDeposit true = .ok other ∧
      perShare value providedExample.totalSupply ≤ perShare other last.totalSupply := by
  have hspot : SpotPrices false spotPricesExample :=
    ⟨rfl, fun isLong => by cases isLong <;> rfl, fun hpure => absurd hpure (by decide)⟩
  have hprovided (market : Market false) (hsupply : 0 < market.totalSupply)
      (hinterest : market.openInterest = ⟨.empty, .empty⟩)
      (htokens : market.openInterestInTokens = ⟨.empty, .empty⟩) :
      Provided spotPricesExample market :=
    ⟨hsupply, Market.pnlUncapped_of_empty hinterest htokens⟩
  obtain ⟨⟨middle, deposited⟩, hdeposit, hmiddle, hinterest, htokens, hrest⟩ :=
    exists_ok_iff_any.mpr (show (Deposit.execute providedExample
      ⟨500, 0, spotPricesExample⟩).toOption.any (fun result => decide
        (0 < result.1.totalSupply ∧ result.1.openInterest = ⟨.empty, .empty⟩ ∧
          result.1.openInterestInTokens = ⟨.empty, .empty⟩ ∧
          (Withdrawal.execute result.1 ⟨123, spotPricesExample⟩).toOption.any (fun after =>
            decide (0 < after.1.totalSupply ∧ after.1.openInterest = ⟨.empty, .empty⟩ ∧
              after.1.openInterestInTokens = ⟨.empty, .empty⟩ ∧
              (after.1.poolValue spotPricesExample .maxAfterDeposit true).isOk = true)) =
            true)) = true by decide +kernel)
  obtain ⟨⟨last, withdrawn⟩, hwithdraw, hlast, hlastInterest, hlastTokens, hvalue⟩ :=
    exists_ok_iff_any.mpr hrest
  obtain ⟨other, hother⟩ := exists_of_isOk hvalue
  have hfirst : (providedExample.poolValue spotPricesExample .maxAfterDeposit true).isOk =
      true := by
    decide +kernel
  obtain ⟨value, hvalue⟩ := exists_of_isOk hfirst
  have hserves : Serves spotPricesExample providedExample last :=
    ((Serves.start (hprovided providedExample (by decide) rfl rfl)).deposit hdeposit
      (hprovided middle hmiddle hinterest htokens)).withdraw hwithdraw
        (hprovided last hlast hlastInterest hlastTokens)
  exact ⟨middle, last, deposited, withdrawn, value, other, hdeposit, hwithdraw, hvalue, hother,
    Serves.perShare_le hspot (by decide) hserves hvalue hother⟩

end Store

end Gmsol.Model
