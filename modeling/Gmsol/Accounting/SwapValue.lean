import Gmsol.Accounting.Conservation

/-!
# The value of a swap

What a swap pays out, valued at the price that favours the pool, is covered by
what it takes in after fees and by the price impact.  Each rounding on the way
keeps the remainder in the pool: the impact amount never exceeds the impact
value, and the part cut off by the cap is converted at most at its value.
-/

namespace Gmsol.Model

open Gmsol.Fallible

variable [MarketNum] {isPure : Bool}

/-- The minimal price is positive and does not exceed the maximal one. -/
def Price.Ordered (price : Price) : Prop := 0 < price.min ∧ price.min ≤ price.max

instance (price : Price) : Decidable price.Ordered := by
  unfold Price.Ordered
  infer_instance

/-! ## Impact amounts -/

/-- Truncating a nonnegative value loses value. -/
theorem signedDiv_mul_le {value divisor result : ℤ}
    (hdiv : signedDiv value divisor = some result) (hvalue : 0 ≤ value)
    (hdivisor : 0 < divisor) : result * divisor ≤ value := by
  rw [signedDiv, if_neg hdivisor.ne', narrowSigned_eq_some] at hdiv
  rw [← hdiv.2, Int.tdiv_eq_ediv_of_nonneg hvalue]
  exact Int.ediv_mul_le value hdivisor.ne'

/-- A negative value that is shifted by its divisor first is rounded away from
zero. -/
theorem signedDiv_shifted_mul_le {value divisor result : ℤ}
    (hdiv : signedDiv (value - divisor + 1) divisor = some result)
    (hvalue : value ≤ 0) (hdivisor : 0 < divisor) :
    result * divisor ≤ value := by
  rw [signedDiv, if_neg hdivisor.ne', narrowSigned_eq_some] at hdiv
  have hflip : (value - divisor + 1).tdiv divisor =
      -((divisor - 1 - value) / divisor) := by
    rw [← Int.tdiv_eq_ediv_of_nonneg (by omega), ← Int.neg_tdiv]
    congr 1
    ring
  have hfloor := Int.lt_ediv_add_one_mul_self (divisor - 1 - value) hdivisor
  rw [← hdiv.2, hflip]
  linarith [add_mul ((divisor - 1 - value) / divisor) 1 divisor]

namespace Market

variable {market : Market isPure} {side : Bool} {price : Price} {usdImpact : ℤ}
  {capped : ℤ × ℕ}

/-- A positive impact is paid from the impact pool of the token, and what is
paid together with what the cap leaves over is worth at most the impact. -/
theorem swapImpactAmountWithCap_positive
    (hcap : market.swapImpactAmountWithCap side price usdImpact = .ok capped)
    (hpositive : 0 < usdImpact) (hprice : 0 < price.max) :
    capped.1 ≤ market.swapImpact.amount side ∧
      capped.1 * price.max + capped.2 ≤ usdImpact := by
  unfold swapImpactAmountWithCap at hcap
  split at hcap
  · exact absurd hcap (by simp)
  simp only [bind_eq_ok, okOr_eq_ok, toSigned_eq_ok, ite_eq_ok,
    pure_eq_ok, option_bind_eq_some, signedSub_eq_some, checkedMul_eq_some] at hcap
  obtain ⟨maxPrice, ⟨_, rfl⟩, amount, hamount, maxAmount, ⟨_, rfl⟩, hcases⟩ := hcap
  have hworth : amount * price.max ≤ usdImpact :=
    signedDiv_mul_le hamount hpositive.le (Int.natCast_pos.mpr hprice)
  rcases hcases with ⟨hexceeds, diffValue, ⟨diff, ⟨_, rfl⟩, _, rfl⟩, rfl⟩ |
    ⟨hwithin, rfl⟩
  · refine ⟨le_refl _, ?_⟩
    have habs : ((amount - market.swapImpact.amount side).natAbs : ℤ) =
        amount - market.swapImpact.amount side := by omega
    calc (market.swapImpact.amount side : ℤ) * price.max +
          (((amount - market.swapImpact.amount side).natAbs *
            price.pickPrice true : ℕ) : ℤ)
        = amount * price.max := by
          rw [Nat.cast_mul, habs]
          simp only [Price.pickPrice, if_true]
          ring
      _ ≤ usdImpact := hworth
  · exact ⟨not_lt.mp hwithin, by simpa using hworth⟩

/-- A negative impact is charged in full. -/
theorem swapImpactAmountWithCap_nonpositive
    (hcap : market.swapImpactAmountWithCap side price usdImpact = .ok capped)
    (hnonpositive : usdImpact ≤ 0) (hprice : 0 < price.min) :
    capped.1 ≤ 0 ∧ capped.1 * price.min ≤ usdImpact := by
  refine ⟨(swapImpactAmountWithCap_sign hcap).2 hnonpositive, ?_⟩
  unfold swapImpactAmountWithCap at hcap
  split at hcap
  · exact absurd hcap (by simp)
  rw [if_neg (not_lt.mpr hnonpositive)] at hcap
  split at hcap
  · simp only [bind_eq_ok, okOr_eq_ok, toSigned_eq_ok, pure_eq_ok,
      option_bind_eq_some, signedSub_eq_some, signedAdd_eq_some] at hcap
    obtain ⟨_, ⟨_, rfl⟩, amount, ⟨_, ⟨_, rfl⟩, _, ⟨_, rfl⟩, hamount⟩, rfl⟩ := hcap
    exact signedDiv_shifted_mul_le hamount hnonpositive
      (Int.natCast_pos.mpr hprice)
  · rename_i hzero
    obtain rfl : (0, 0) = capped := by simpa using hcap
    simpa using not_lt.mp hzero

/-- What is paid of an impact never exceeds the impact pool of the token. -/
theorem swapImpactAmountWithCap_le
    (hcap : market.swapImpactAmountWithCap side price usdImpact = .ok capped) :
    capped.1 ≤ market.swapImpact.amount side := by
  by_cases hpositive : 0 < usdImpact
  · have hprice : 0 < price.max := by
      by_contra hzero
      have hmax : price.max = 0 := by omega
      simp [swapImpactAmountWithCap, Price.hasZero, hmax] at hcap
    exact (swapImpactAmountWithCap_positive hcap hpositive hprice).1
  · have hsign := (swapImpactAmountWithCap_sign hcap).2 (not_lt.mp hpositive)
    exact hsign.trans (Int.natCast_nonneg _)

end Market

namespace Pool

/-- The amounts fit their type. -/
def InRange (pool : Pool isPure) : Prop :=
  pool.longTokenAmount ≤ maxUnsigned ∧ pool.shortTokenAmount ≤ maxUnsigned

theorem checkedAddSigned_neg {value : ℕ} {amount : ℤ} (hamount : 0 ≤ amount)
    (hcovered : amount ≤ value) (hfits : value ≤ maxUnsigned) :
    checkedAddSigned value (-amount) = some (value - amount.toNat) := by
  have hnext : ((value : ℤ) + -amount).toNat = value - amount.toNat := by omega
  rw [checkedAddSigned, if_pos (by omega), hnext, narrow_eq_some]
  exact ⟨by omega, rfl⟩

/-- Taking amounts that each side covers does not underflow, not even in a pure
pool where both sides draw on one amount. -/
theorem exists_checkedApplyDelta_neg {pool : Pool isPure} (hrange : pool.InRange)
    {long short : ℤ} (hlong : 0 ≤ long) (hshort : 0 ≤ short)
    (hlongCovered : long ≤ pool.longAmount)
    (hshortCovered : short ≤ pool.shortAmount) :
    ∃ next, pool.checkedApplyDelta ⟨some (-long), some (-short)⟩ = .ok next := by
  have htotal : (pool.longAmount : ℤ) ≤ pool.longTokenAmount := by
    cases isPure with
    | true =>
        have hsum := pool.total_pure
        rw [total] at hsum
        omega
    | false => simp [longAmount]
  have hfirst : pool.applyDeltaToLongAmount (-long) = .ok
      { pool with longTokenAmount := pool.longTokenAmount - long.toNat } := by
    rw [applyDeltaToLongAmount, checkedAddSigned_neg hlong (by omega) hrange.1]
    rfl
  simp only [checkedApplyDelta, hfirst, bind, Except.bind]
  cases isPure with
  | true =>
      have hsum := pool.total_pure
      rw [total] at hsum
      rw [applyDeltaToShortAmount, if_pos rfl,
        checkedAddSigned_neg hshort (by dsimp only; omega)
          (by have := hrange.1; dsimp only; omega)]
      exact ⟨_, rfl⟩
  | false =>
      have hside : (pool.shortAmount : ℤ) = pool.shortTokenAmount := by
        simp [shortAmount]
      rw [applyDeltaToShortAmount, if_neg (by simp),
        checkedAddSigned_neg hshort (by omega) hrange.2]
      exact ⟨_, rfl⟩

end Pool

namespace Swap

/-! ## The branches of a swap -/

theorem reassignValues_prices {params : SwapParams} {values : ReassignedValues}
    (hvalues : reassignValues params = .ok values) :
    values.tokenInPrice =
        params.prices.collateralTokenPrice params.isTokenInLong ∧
      values.tokenOutPrice =
        params.prices.collateralTokenPrice !params.isTokenInLong := by
  unfold reassignValues at hvalues
  split at hvalues <;> rename_i hside <;>
    simp only [bind_eq_ok, pure_eq_ok] at hvalues <;>
    obtain ⟨_, _, _, _, _, _, _, _, rfl⟩ := hvalues <;>
    simp [Prices.collateralTokenPrice, hside]

variable {market : Market isPure} {params : SwapParams}

/-- The part of the impact that the token in pays is worth at most what the cap
left over. -/
theorem cappedDiffTokenInAmount_le {price : Price} {value : ℕ} {amount : ℤ}
    (hdiff : cappedDiffTokenInAmount market params price value = .ok amount)
    (hprice : 0 < price.max) :
    0 ≤ amount ∧ amount ≤ market.swapImpact.amount params.isTokenInLong ∧
      amount * price.max ≤ value := by
  unfold cappedDiffTokenInAmount at hdiff
  split at hdiff
  · obtain rfl : (0 : ℤ) = amount := by simpa using hdiff
    exact ⟨le_refl _, Int.natCast_nonneg _, by simp⟩
  · rename_i hnonzero
    simp only [bind_eq_ok, toSigned_eq_ok, pure_eq_ok] at hdiff
    obtain ⟨_, ⟨_, rfl⟩, capped, hcap, rfl⟩ := hdiff
    have hsign := (Market.swapImpactAmountWithCap_sign hcap).1
      (Int.natCast_nonneg _)
    obtain ⟨hle, hworth⟩ :=
      Market.swapImpactAmountWithCap_positive hcap (by omega) hprice
    exact ⟨hsign, hle, by omega⟩

/-- The amount taken from the pool is worth at most the amount put in. -/
theorem checkedMulDiv_worth {amount numerator denominator result : ℕ}
    (hresult : checkedMulDiv amount numerator denominator = some result) :
    (result : ℤ) * denominator ≤ amount * numerator := by
  rw [checkedMulDiv_eq_some] at hresult
  obtain ⟨-, -, rfl⟩ := hresult
  exact_mod_cast Nat.div_mul_le_self _ _

variable {values : ReassignedValues} {impact : ℤ} {amountAfterFees : ℕ}
  {result : Amounts isPure}

theorem amountsForPositiveImpact_worth
    (hresult : amountsForPositiveImpact market params values impact
      amountAfterFees = .ok result)
    (hpositive : 0 < impact) (hin : values.tokenInPrice.Ordered)
    (hout : values.tokenOutPrice.Ordered) :
    (result.tokenOutAmount : ℤ) * values.tokenOutPrice.max ≤
      amountAfterFees * values.tokenInPrice.min + impact := by
  simp only [amountsForPositiveImpact, bind_eq_ok, okOr_eq_ok, pure_eq_ok,
    checkedAdd_eq_some] at hresult
  obtain ⟨capped, hcap, diffAmount, hdiff, tokenInAmount, htokenIn, _, _, _, _,
    _, _, poolAmountOut, hpoolOut, tokenOutAmount, ⟨_, rfl⟩, rfl⟩ := hresult
  have hsign := (Market.swapImpactAmountWithCap_sign hcap).1 hpositive.le
  obtain ⟨-, hpaid⟩ := Market.swapImpactAmountWithCap_positive hcap hpositive
    (hout.1.trans_le hout.2)
  obtain ⟨hnonneg, -, hdiffWorth⟩ := cappedDiffTokenInAmount_le hdiff
    (hin.1.trans_le hin.2)
  have hadded : (tokenInAmount : ℤ) = amountAfterFees + diffAmount := by
    split at htokenIn
    · rename_i hzero
      obtain rfl : amountAfterFees = tokenInAmount := by simpa using htokenIn
      rw [cappedDiffTokenInAmount, if_pos hzero] at hdiff
      obtain rfl : (0 : ℤ) = diffAmount := by simpa using hdiff
      simp
    · rw [okOr_eq_ok, checkedAdd_eq_some] at htokenIn
      omega
  have hpool := checkedMulDiv_worth hpoolOut
  simp only [Price.pickPrice, if_true, Bool.false_eq_true, if_false] at hpool
  have hminimal : diffAmount * (values.tokenInPrice.min : ℤ) ≤
      diffAmount * values.tokenInPrice.max :=
    mul_le_mul_of_nonneg_left (by exact_mod_cast hin.2) hnonneg
  have habs : ((capped.1.natAbs : ℕ) : ℤ) = capped.1 := by omega
  calc ((poolAmountOut + capped.1.natAbs : ℕ) : ℤ) * values.tokenOutPrice.max
      = poolAmountOut * values.tokenOutPrice.max +
          capped.1 * values.tokenOutPrice.max := by
        rw [Nat.cast_add, habs]
        ring
    _ ≤ tokenInAmount * values.tokenInPrice.min +
          capped.1 * values.tokenOutPrice.max := by gcongr
    _ = amountAfterFees * values.tokenInPrice.min +
          diffAmount * values.tokenInPrice.min +
          capped.1 * values.tokenOutPrice.max := by
        rw [hadded]
        ring
    _ ≤ amountAfterFees * values.tokenInPrice.min + impact := by linarith

theorem amountsForNegativeImpact_worth
    (hresult : amountsForNegativeImpact market params values impact
      amountAfterFees = .ok result)
    (hnonpositive : impact ≤ 0) (hin : values.tokenInPrice.Ordered) :
    (result.tokenOutAmount : ℤ) * values.tokenOutPrice.max ≤
      amountAfterFees * values.tokenInPrice.min + impact := by
  simp only [amountsForNegativeImpact, bind_eq_ok, okOr_eq_ok, pure_eq_ok,
    ensure_eq_ok, checkedSub_eq_some] at hresult
  obtain ⟨capped, hcap, _, _, _, _, tokenInAmount, ⟨henough, rfl⟩, _, _,
    tokenOutAmount, hout, rfl⟩ := hresult
  obtain ⟨hsign, hcharged⟩ :=
    Market.swapImpactAmountWithCap_nonpositive hcap hnonpositive hin.1
  have hpool := checkedMulDiv_worth hout
  simp only [Price.pickPrice, if_true, Bool.false_eq_true, if_false] at hpool
  have hleft : ((amountAfterFees - capped.1.natAbs : ℕ) : ℤ) =
      amountAfterFees + capped.1 := by omega
  calc (tokenOutAmount : ℤ) * values.tokenOutPrice.max
      ≤ ((amountAfterFees - capped.1.natAbs : ℕ) : ℤ) *
          values.tokenInPrice.min := hpool
    _ = amountAfterFees * values.tokenInPrice.min +
          capped.1 * values.tokenInPrice.min := by
        rw [hleft]
        ring
    _ ≤ amountAfterFees * values.tokenInPrice.min + impact := by linarith

theorem amounts_worth
    (hresult : amounts market params values impact amountAfterFees = .ok result)
    (hin : values.tokenInPrice.Ordered) (hout : values.tokenOutPrice.Ordered) :
    (result.tokenOutAmount : ℤ) * values.tokenOutPrice.max ≤
      amountAfterFees * values.tokenInPrice.min + impact := by
  unfold amounts at hresult
  split at hresult
  · rename_i hpositive
    exact amountsForPositiveImpact_worth hresult hpositive hin hout
  · rename_i hnonpositive
    exact amountsForNegativeImpact_worth hresult (not_lt.mp hnonpositive) hin

/-! ## The whole swap -/

/-- The amounts a swap takes from the impact pool are in the pool, so taking
them does not underflow. -/
def ImpactWithinPool (market : Market isPure) (params : SwapParams)
    (impact : ℤ) : Prop :=
  let tokenIn := params.isTokenInLong
  let tokenInPrice := params.prices.collateralTokenPrice tokenIn
  let tokenOutPrice := params.prices.collateralTokenPrice !tokenIn
  if 0 < impact then
    ∀ capped diffAmount,
      market.swapImpactAmountWithCap (!tokenIn) tokenOutPrice impact =
        .ok capped →
      cappedDiffTokenInAmount market params tokenInPrice capped.2 =
        .ok diffAmount →
      capped.1 ≤ market.swapImpact.amount !tokenIn ∧
        diffAmount ≤ market.swapImpact.amount tokenIn ∧
        ∃ next, market.swapImpact.checkedApplyDelta
          (.newBothSides (!tokenIn) (-capped.1) (-diffAmount)) = .ok next
  else
    ∀ capped,
      market.swapImpactAmountWithCap tokenIn tokenInPrice impact = .ok capped →
      capped.1 ≤ market.swapImpact.amount tokenIn ∧ 0 ≤ -capped.1

theorem impactWithinPool (market : Market isPure) (params : SwapParams)
    (hrange : market.swapImpact.InRange)
    (hprices : ∀ isLong, (params.prices.collateralTokenPrice isLong).Ordered)
    (impact : ℤ) : ImpactWithinPool market params impact := by
  simp only [ImpactWithinPool]
  split
  · rename_i hpositive
    intro capped diffAmount hcap hdiff
    have hsign := (Market.swapImpactAmountWithCap_sign hcap).1 hpositive.le
    have hcapped := Market.swapImpactAmountWithCap_le hcap
    have hin := hprices params.isTokenInLong
    obtain ⟨hnonneg, hdiffAmount, -⟩ := cappedDiffTokenInAmount_le hdiff
      (hin.1.trans_le hin.2)
    refine ⟨hcapped, hdiffAmount, ?_⟩
    cases hside : params.isTokenInLong with
    | true =>
        rw [hside] at hcapped hdiffAmount
        exact Pool.exists_checkedApplyDelta_neg hrange hnonneg hsign hdiffAmount
          hcapped
    | false =>
        rw [hside] at hcapped hdiffAmount
        exact Pool.exists_checkedApplyDelta_neg hrange hsign hnonneg hcapped
          hdiffAmount
  · rename_i hnonpositive
    intro capped hcap
    have hsign := (Market.swapImpactAmountWithCap_sign hcap).2
      (not_lt.mp hnonpositive)
    exact ⟨Market.swapImpactAmountWithCap_le hcap, by omega⟩

theorem execute_worth {after : Market isPure} {report : SwapReport}
    (hprices : ∀ isLong, (params.prices.collateralTokenPrice isLong).Ordered)
    (hswap : execute market params = .ok (after, report)) :
    (report.tokenOutAmount : ℤ) *
        (params.prices.collateralTokenPrice !params.isTokenInLong).max ≤
      (params.tokenInAmount - report.tokenInFees.feeAmountForReceiver -
          report.tokenInFees.feeAmountForPool) *
        (params.prices.collateralTokenPrice params.isTokenInLong).min +
      report.priceImpactValue := by
  have htry := execute_eq_ok hswap
  simp only [tryExecute, bind_eq_ok, okOr_eq_ok, pure_eq_ok] at htry
  obtain ⟨values, hvalues, impact, _, charged, hcharged, _, _, _, _, amounts,
    hamounts, _, _, _, _, _, _, _, _, _, _, hresult⟩ := htry
  obtain ⟨-, rfl⟩ := Prod.mk.inj hresult
  obtain ⟨hin, hout⟩ := reassignValues_prices hvalues
  have hworth := amounts_worth hamounts (hin ▸ hprices _) (hout ▸ hprices _)
  have hfees := FeeParams.applyFees_eq_some hcharged
  rw [hin, hout] at hworth
  have hafter : (charged.1 : ℤ) = params.tokenInAmount -
      charged.2.feeAmountForReceiver - charged.2.feeAmountForPool := by omega
  rw [hafter] at hworth
  exact hworth

/-- A swap never pays more than it takes plus the price impact, and what it
takes from the impact pool is in the pool. -/
theorem swap_covered (market : Market isPure) (params : SwapParams)
    (hprices : ∀ isLong, (params.prices.collateralTokenPrice isLong).Ordered) :
    (∀ after report, execute market params = .ok (after, report) →
      (report.tokenOutAmount : ℤ) *
          (params.prices.collateralTokenPrice !params.isTokenInLong).max ≤
        (params.tokenInAmount - report.tokenInFees.feeAmountForReceiver -
            report.tokenInFees.feeAmountForPool) *
          (params.prices.collateralTokenPrice params.isTokenInLong).min +
        report.priceImpactValue) ∧
      (market.swapImpact.InRange →
        ∀ impact, ImpactWithinPool market params impact) :=
  ⟨fun _ _ hswap => execute_worth hprices hswap,
    fun hrange impact => impactWithinPool market params hrange hprices impact⟩

/-- A market whose impact pool cannot pay the whole positive impact in the token
that a swap pays out. -/
def unbalancedMarket : Market false :=
  { Market.init false
      { MarketConfig.unrestricted with swapImpactParams := ⟨10 ^ 20, 10 ^ 19, 10 ^ 19⟩ }
      true ⟨0, 0⟩ with
    primary := ⟨100, 5000⟩
    swapImpact := ⟨1000, 7⟩ }

/-- A swap of the long token with a capped positive impact. -/
def unbalancedSwap : SwapParams where
  isTokenInLong := true
  tokenInAmount := 100
  prices := ⟨⟨10 ^ 20, 10 ^ 20⟩, ⟨10 ^ 20, 11 * 10 ^ 19⟩, ⟨10 ^ 20, 10 ^ 20⟩⟩

omit [MarketNum] in
theorem swap_covered_unbalanced :
    ∃ after report,
      @execute storeNumbers false unbalancedMarket unbalancedSwap =
        .ok (after, report) ∧
      report.tokenOutAmount = 119 ∧
      (report.tokenOutAmount : ℤ) * 10 ^ 20 ≤
        (100 - report.tokenInFees.feeAmountForReceiver -
          report.tokenInFees.feeAmountForPool) * 10 ^ 20 +
          report.priceImpactValue ∧
      ∀ impact, @ImpactWithinPool storeNumbers false unbalancedMarket
        unbalancedSwap impact := by
  obtain ⟨⟨after, report⟩, hswap, hout⟩ :
      ∃ result, @execute storeNumbers false unbalancedMarket unbalancedSwap =
        .ok result ∧ result.2.tokenOutAmount = 119 :=
    exists_ok_iff_any.mpr (by decide +kernel)
  obtain ⟨hworth, hwithin⟩ :=
    @swap_covered storeNumbers false unbalancedMarket unbalancedSwap (by decide)
  exact ⟨after, report, hswap, hout, hworth after report hswap,
    hwithin (by constructor <;> decide)⟩

end Swap

end Gmsol.Model
