import Gmsol.Accounting.PositionImpact

/-!
# The execution price of a decrease

The price impact of a decrease moves its execution price.  The factors of the market
cap the impact; while they are at most one half, neither the impact nor the
adjustment that is computed from it can be too large.
-/

namespace Gmsol.Model

open Gmsol.Fallible

/-! ## Truncation -/

/-- The value is the exact number without its fractional part. -/
structure Truncates (exact : ℚ) (value : ℤ) : Prop where
  close : |exact - value| < 1
  towardZero : |(value : ℚ)| ≤ |exact|
  sameSign : 0 ≤ value * exact

theorem Truncates.neg {exact : ℚ} {value : ℤ} (htruncates : Truncates exact value) :
    Truncates (-exact) (-value) where
  close := by
    have hneg : -exact - ((-value : ℤ) : ℚ) = -(exact - value) := by
      push_cast
      ring
    rw [hneg, abs_neg]
    exact htruncates.close
  towardZero := by
    rw [Int.cast_neg, abs_neg, abs_neg]
    exact htruncates.towardZero
  sameSign := by
    rw [Int.cast_neg, neg_mul_neg]
    exact htruncates.sameSign

theorem truncates_natDiv (numerator : ℕ) {denominator : ℕ} (hpositive : 0 < denominator) :
    Truncates (numerator / denominator) ((numerator / denominator : ℕ) : ℤ) := by
  have hdenominator : (0 : ℚ) < denominator := Nat.cast_pos.mpr hpositive
  have hbelow : ((numerator / denominator : ℕ) : ℚ) ≤ numerator / denominator :=
    Nat.cast_div_le
  have habove : (numerator / denominator : ℚ) < (numerator / denominator : ℕ) + 1 := by
    have hrest : numerator < (numerator / denominator + 1) * denominator := by
      rw [Nat.add_one_mul]
      exact Nat.lt_div_mul_add hpositive
    rw [div_lt_iff₀ hdenominator]
    exact_mod_cast hrest
  have hnonneg : (0 : ℚ) ≤ (numerator / denominator : ℕ) := Nat.cast_nonneg _
  constructor
  · rw [Int.cast_natCast, abs_of_nonneg (sub_nonneg.mpr hbelow)]
    linarith
  · rw [Int.cast_natCast, abs_of_nonneg hnonneg, abs_of_nonneg (hnonneg.trans hbelow)]
    exact hbelow
  · rw [Int.cast_natCast]
    exact mul_nonneg hnonneg (hnonneg.trans hbelow)

section Adjustment

variable [MarketNum] {isPure : Bool}

/-! ## The capped impact -/

/-- A negative impact is cut to the maximal factor of the size. -/
theorem capNegativePositionPriceImpact_ge {market : Market isPure}
    {sizeDeltaUsd impact : ℤ} {capped : ℤ × ℕ}
    (hcap : market.capNegativePositionPriceImpact sizeDeltaUsd false impact =
      .ok capped) :
    -((sizeDeltaUsd.natAbs *
      market.config.positionParams.maxNegativePositionImpactFactor / unit : ℕ) : ℤ) ≤
        capped.1 := by
  rw [Market.capNegativePositionPriceImpact] at hcap
  split at hcap
  · simp only [Bool.false_eq_true, if_false, bind_eq_ok, okOr_eq_ok,
      applyFactor_eq_some, toOppositeSigned_eq_ok] at hcap
    obtain ⟨magnitude, ⟨-, rfl⟩, _, ⟨-, rfl⟩, hcap⟩ := hcap
    split at hcap
    · simp only [bind_eq_ok, pure_eq_ok] at hcap
      obtain ⟨_, -, rfl⟩ := hcap
      exact le_rfl
    · obtain rfl := Except.ok.inj hcap
      exact not_lt.mp ‹_›
  · obtain rfl := Except.ok.inj hcap
    have hnonneg : 0 ≤ impact := not_lt.mp ‹_›
    exact (neg_nonpos.mpr (Int.natCast_nonneg _)).trans hnonneg

omit [MarketNum] in
/-- A factor of at most one half takes at most one half. -/
theorem two_mul_applied_le (amount : ℕ) {factor whole : ℕ} (hhalf : 2 * factor ≤ whole) :
    2 * (amount * factor / whole) ≤ amount := by
  rcases Nat.eq_zero_or_pos whole with rfl | hpositive
  · rw [Nat.div_zero]
    exact Nat.zero_le _
  · apply Nat.le_of_mul_le_mul_left _ hpositive
    have happlied := Nat.mul_div_le (amount * factor) whole
    calc whole * (2 * (amount * factor / whole))
        = 2 * (whole * (amount * factor / whole)) := by ring
      _ ≤ 2 * (amount * factor) := Nat.mul_le_mul_left 2 happlied
      _ = amount * (2 * factor) := by ring
      _ ≤ amount * whole := Nat.mul_le_mul_left amount hhalf
      _ = whole * amount := Nat.mul_comm _ _

/-- The maximal impact factors are at most one half. -/
structure ImpactFactorsHalf (market : Market isPure) : Prop where
  positive : 2 * market.config.positionParams.maxPositivePositionImpactFactor ≤ unit
  negative : 2 * market.config.positionParams.maxNegativePositionImpactFactor ≤ unit

/-- The capped impact is at most one half of the size. -/
theorem cappedPositionPriceImpact_half {position : Position} {market : Market isPure}
    {indexTokenPrice : Price} {sizeDeltaUsd : ℤ} {capped : ℤ × ℕ}
    (hfactors : ImpactFactorsHalf market)
    (hcap : position.cappedPositionPriceImpact market indexTokenPrice sizeDeltaUsd =
      .ok capped) : 2 * capped.1.natAbs ≤ sizeDeltaUsd.natAbs := by
  have hpositive := two_mul_applied_le sizeDeltaUsd.natAbs hfactors.positive
  have hnegative := two_mul_applied_le sizeDeltaUsd.natAbs hfactors.negative
  rcases lt_or_ge 0 capped.1 with hgain | hloss
  · have hbound := (cappedPositionPriceImpact_eq_ok hcap hgain).byFactor
    omega
  · simp only [Position.cappedPositionPriceImpact, bind_eq_ok] at hcap
    obtain ⟨impact, -, hcut⟩ := hcap
    have hbound := capNegativePositionPriceImpact_ge hcut
    omega

/-! ## The adjustment -/

/-- The impact with the sign with which it moves the price. -/
def adjustedImpact (impact : ℤ) (isLong : Bool) : ℤ := if isLong then impact else -impact

/-- The adjustment of the price before it is rounded. -/
def exactAdjustment (position : Position) (sizeDeltaUsd : ℕ) (impact : ℤ) : ℚ :=
  position.sizeInUsd * adjustedImpact impact position.isLong /
    (sizeDeltaUsd * position.sizeInTokens)

/-- One half of any value fits the signed type. -/
theorem half_fits {value half : ℕ} (hvalue : value ≤ maxUnsigned)
    (hhalf : 2 * half ≤ value) : (half : ℤ) ≤ maxSigned := by
  have hbits : 2 ^ MarketNum.bits = 2 * 2 ^ (MarketNum.bits - 1) := by
    rw [← pow_succ', Nat.sub_add_cancel (le_trans (by norm_num) MarketNum.holds_u64)]
  have hpositive : 0 < 2 ^ (MarketNum.bits - 1) := Nat.pow_pos (by norm_num)
  have hlt : half < 2 ^ (MarketNum.bits - 1) := by
    rw [maxUnsigned, hbits] at hvalue
    omega
  have hcast : (half : ℤ) < 2 ^ (MarketNum.bits - 1) := by exact_mod_cast hlt
  rw [maxSigned]
  omega

theorem signedNeg_of_fits {value : ℕ} (hfits : (value : ℤ) ≤ maxSigned) :
    signedNeg value = some (-(value : ℤ)) := by
  rw [signedNeg_eq_some]
  have hpositive : (0 : ℤ) < 2 ^ (MarketNum.bits - 1) := by positivity
  refine ⟨⟨?_, ?_⟩, rfl⟩
  · rw [maxSigned] at hfits
    rw [minSigned]
    omega
  · rw [maxSigned]
    omega

/-- A magnitude with the sign of the numerator. -/
def withSign (numerator : ℤ) (magnitude : ℕ) : ℤ :=
  if 0 < numerator then magnitude else -(magnitude : ℤ)

theorem checkedMulDivWithSignedNumerator_of_fits {value denominator : ℕ} {numerator : ℤ}
    (hdenominator : denominator ≠ 0)
    (hunsigned : value * numerator.natAbs / denominator ≤ maxUnsigned)
    (hsigned : ((value * numerator.natAbs / denominator : ℕ) : ℤ) ≤ maxSigned) :
    checkedMulDivWithSignedNumerator value numerator denominator =
      some (withSign numerator (value * numerator.natAbs / denominator)) := by
  have hquotient := checkedMulDiv_eq_some.mpr ⟨hdenominator, hunsigned, rfl⟩
  have htoSigned := toSigned_eq_ok.mpr ⟨hsigned, rfl⟩
  rw [checkedMulDivWithSignedNumerator, hquotient, withSign]
  simp only [Option.bind_eq_bind, Option.bind_some, htoSigned, Except.toOption]
  split_ifs
  · rfl
  · exact signedNeg_of_fits hsigned

omit [MarketNum] in
theorem tdiv_withSign (numerator : ℤ) (magnitude divisor : ℕ) :
    (withSign numerator magnitude).tdiv divisor =
      withSign numerator (magnitude / divisor) := by
  rw [withSign, withSign]
  split_ifs
  · exact (Int.ofNat_tdiv magnitude divisor).symm
  · rw [Int.neg_tdiv, Int.ofNat_tdiv]

theorem withSign_fits (numerator : ℤ) {magnitude : ℕ} (hfits : (magnitude : ℤ) ≤ maxSigned) :
    narrowSigned (withSign numerator magnitude) = some (withSign numerator magnitude) := by
  rw [withSign]
  split_ifs
  · refine narrowSigned_eq_some.mpr ⟨⟨?_, hfits⟩, rfl⟩
    have hpositive : (0 : ℤ) < 2 ^ (MarketNum.bits - 1) := by positivity
    rw [minSigned]
    omega
  · exact signedNeg_of_fits hfits

omit [MarketNum] in
/-- Dividing twice and rounding down each time truncates the exact adjustment. -/
theorem truncates_exactAdjustment (position : Position) {sizeDeltaUsd : ℕ} (impact : ℤ)
    (hdelta : 0 < sizeDeltaUsd) (htokens : 0 < position.sizeInTokens) :
    Truncates (exactAdjustment position sizeDeltaUsd impact)
      (withSign (adjustedImpact impact position.isLong)
        (position.sizeInUsd * (adjustedImpact impact position.isLong).natAbs /
          sizeDeltaUsd / position.sizeInTokens)) := by
  rw [Nat.div_div_eq_div_mul, exactAdjustment]
  generalize adjustedImpact impact position.isLong = moved
  have htruncates := truncates_natDiv (position.sizeInUsd * moved.natAbs)
    (Nat.mul_pos hdelta htokens)
  rw [Nat.cast_mul, Nat.cast_mul] at htruncates
  rw [withSign]
  split_ifs with hgain
  · have habs : ((moved.natAbs : ℕ) : ℚ) = moved := by
      rw [← Int.cast_natCast, Int.natAbs_of_nonneg hgain.le]
    rw [habs] at htruncates
    exact htruncates
  · have habs : ((moved.natAbs : ℕ) : ℚ) = -moved := by
      rw [← Int.cast_natCast, Int.ofNat_natAbs_of_nonpos (not_lt.mp hgain), Int.cast_neg]
    rw [habs, mul_neg, neg_div] at htruncates
    have hneg := htruncates.neg
    rwa [neg_neg] at hneg

/-! ## The price -/

/-- The adjustment that the program computes. -/
def priceAdjustment (position : Position) (sizeDeltaUsd : ℕ) (impact : ℤ) : ℤ :=
  withSign (adjustedImpact impact position.isLong)
    (position.sizeInUsd * (adjustedImpact impact position.isLong).natAbs /
      sizeDeltaUsd / position.sizeInTokens)

omit [MarketNum] in
theorem natAbs_adjustedImpact (impact : ℤ) (isLong : Bool) :
    (adjustedImpact impact isLong).natAbs = impact.natAbs := by
  rw [adjustedImpact]
  split_ifs
  · rfl
  · exact Int.natAbs_neg impact

/-- With an impact of at most one half of the size only the last addition can fail. -/
theorem DecreasePosition.adjustedExecutionPrice_eq {position : Position}
    {sizeDeltaUsd : ℕ} {impact : ℤ} (hsize : position.sizeInUsd ≤ maxUnsigned)
    (htokens : 0 < position.sizeInTokens)
    (htokensFit : (position.sizeInTokens : ℤ) ≤ maxSigned)
    (hdelta : 0 < sizeDeltaUsd) (hle : sizeDeltaUsd ≤ position.sizeInUsd)
    (hhalf : 2 * impact.natAbs ≤ sizeDeltaUsd) (executionPrice : ℕ) :
    adjustedExecutionPrice executionPrice position.sizeInUsd position.sizeInTokens
        sizeDeltaUsd impact position.isLong =
      okOr (checkedAddWithSigned executionPrice
          (priceAdjustment position sizeDeltaUsd impact))
        (.computation "adjusting execution price") := by
  have habs := natAbs_adjustedImpact impact position.isLong
  have himpact : ((impact.natAbs : ℕ) : ℤ) ≤ maxSigned :=
    half_fits hsize (hhalf.trans hle)
  have hadjusted : (if position.isLong then .ok impact
      else okOr (signedSub 0 impact) (.computation "price impact too large") : Result ℤ) =
        .ok (adjustedImpact impact position.isLong) := by
    rw [adjustedImpact]
    split_ifs
    · rfl
    · rw [okOr_eq_ok, signedSub_eq_some, zero_sub]
      have hpositive : (0 : ℤ) < 2 ^ (MarketNum.bits - 1) := by positivity
      rw [maxSigned] at himpact ⊢
      rw [minSigned]
      omega
  -- The scaled impact is at most one half of the size of the position.
  have hscaled : 2 * (position.sizeInUsd * impact.natAbs / sizeDeltaUsd) ≤
      position.sizeInUsd := two_mul_applied_le _ hhalf
  have hscaledFits := half_fits hsize hscaled
  have hscale : checkedMulDivWithSignedNumerator position.sizeInUsd
      (adjustedImpact impact position.isLong) sizeDeltaUsd =
        some (withSign (adjustedImpact impact position.isLong)
          (position.sizeInUsd * (adjustedImpact impact position.isLong).natAbs /
            sizeDeltaUsd)) := by
    apply checkedMulDivWithSignedNumerator_of_fits hdelta.ne'
    · rw [habs]
      omega
    · rw [habs]
      exact hscaledFits
  have hdivided : ((position.sizeInUsd * impact.natAbs / sizeDeltaUsd /
      position.sizeInTokens : ℕ) : ℤ) ≤ maxSigned := by
    have hsmaller := Nat.div_le_self
      (position.sizeInUsd * impact.natAbs / sizeDeltaUsd) position.sizeInTokens
    exact (Int.ofNat_le.mpr hsmaller).trans hscaledFits
  have hdivide : signedDiv (withSign (adjustedImpact impact position.isLong)
      (position.sizeInUsd * (adjustedImpact impact position.isLong).natAbs /
        sizeDeltaUsd)) position.sizeInTokens =
          some (priceAdjustment position sizeDeltaUsd impact) := by
    rw [signedDiv, if_neg (by omega), tdiv_withSign]
    apply withSign_fits
    rw [habs]
    exact hdivided
  have hchecked : ¬(adjustedImpact impact position.isLong < 0 ∧
      (adjustedImpact impact position.isLong).natAbs > sizeDeltaUsd) := by
    rw [habs]
    omega
  rw [adjustedExecutionPrice, if_pos ⟨hdelta.ne', htokens.ne'⟩, hadjusted]
  rw [ok_bind, ensure_of hchecked, ok_bind, toSigned_eq_ok.mpr ⟨htokensFit, rfl⟩, ok_bind,
    okOr_eq_ok.mpr hscale, ok_bind, okOr_eq_ok.mpr hdivide, ok_bind]

/-- The price is adjusted by the truncated exact adjustment, and only the adjusted
price may be out of range or not acceptable. -/
structure ExecutionPriceAdjusted (position : Position) (indexPrice : Price)
    (sizeDeltaUsd : ℕ) (impact : ℤ) (acceptablePrice : Option ℕ)
    (adjustment : ℤ) : Prop where
  truncates : Truncates (exactAdjustment position sizeDeltaUsd impact) adjustment
  returned : ∀ price, DecreasePosition.getExecutionPriceForDecrease indexPrice
      position.sizeInUsd position.sizeInTokens sizeDeltaUsd impact acceptablePrice
      position.isLong = .ok price →
    (price : ℤ) = indexPrice.pickPrice (!position.isLong) + adjustment ∧
      ∀ acceptable, acceptablePrice = some acceptable →
        if position.isLong then acceptable ≤ price else price ≤ acceptable
  failed : FailsOnly
    (fun error => error = .computation "adjusting execution price" ∨
      error = .invalidArgument "order not fulfillable at acceptable price")
    (DecreasePosition.getExecutionPriceForDecrease indexPrice position.sizeInUsd
      position.sizeInTokens sizeDeltaUsd impact acceptablePrice position.isLong)

/-- With maximal impact factors of at most one half the adjustment of the execution
price never overflows. -/
theorem DecreasePosition.executionPrice_adjusted (position : Position)
    (market : Market isPure) (indexTokenPrice indexPrice : Price) (sizeDeltaUsd : ℕ)
    (sizeDelta : ℤ) (capped : ℤ × ℕ) (acceptablePrice : Option ℕ)
    (hfactors : ImpactFactorsHalf market) (hsize : position.sizeInUsd ≤ maxUnsigned)
    (htokens : 0 < position.sizeInTokens)
    (htokensFit : (position.sizeInTokens : ℤ) ≤ maxSigned)
    (hdelta : 0 < sizeDeltaUsd) (hle : sizeDeltaUsd ≤ position.sizeInUsd)
    (hopposite : toOppositeSigned sizeDeltaUsd = .ok sizeDelta)
    (hcap : position.cappedPositionPriceImpact market indexTokenPrice sizeDelta =
      .ok capped) :
    ∃ adjustment, ExecutionPriceAdjusted position indexPrice sizeDeltaUsd capped.1
      acceptablePrice adjustment := by
  have hhalf := cappedPositionPriceImpact_half hfactors hcap
  rw [← (toOppositeSigned_eq_ok.mp hopposite).2, Int.natAbs_neg, Int.natAbs_natCast]
    at hhalf
  have hprice := adjustedExecutionPrice_eq hsize htokens htokensFit hdelta hle hhalf
    (indexPrice.pickPrice !position.isLong)
  refine ⟨priceAdjustment position sizeDeltaUsd capped.1,
    truncates_exactAdjustment position capped.1 hdelta htokens, ?_, ?_⟩
  · intro price hreturned
    simp only [getExecutionPriceForDecrease, hprice, bind_eq_ok, okOr_eq_ok] at hreturned
    obtain ⟨adjusted, hadjusted, haccept⟩ := hreturned
    have hsum := checkedAddWithSigned_eq_some hadjusted
    cases acceptablePrice with
    | none =>
        obtain rfl := Except.ok.inj haccept
        exact ⟨hsum, fun _ hsome => absurd hsome (by simp)⟩
    | some acceptable =>
        simp only [bind_eq_ok, ensure_eq_ok, pure_eq_ok] at haccept
        obtain ⟨_, hacceptable, rfl⟩ := haccept
        refine ⟨hsum, fun found hfound => ?_⟩
        obtain rfl := Option.some.inj hfound
        rcases hacceptable with ⟨hlong, hge⟩ | ⟨hshort, hle⟩
        · rw [if_pos hlong]
          exact hge
        · rw [if_neg (by simp [hshort])]
          exact hle
  · rw [getExecutionPriceForDecrease, hprice]
    apply FailsOnly.okOr_bind
    · intro _
      exact .inl rfl
    · intro price _
      cases acceptablePrice with
      | none => exact failsOnly_ok price
      | some acceptable =>
          apply FailsOnly.bind
          · apply failsOnly_ensure
            intro _
            exact .inr rfl
          · intro _ _
            exact failsOnly_ok price

end Adjustment

section Store

attribute [local instance] storeNumbers

/-- The market where shorts outweigh longs, with impact factors of one half. -/
def halfCappedMarket : Market false :=
  { skewedMarket with
    config := { skewedMarket.config with
      positionParams := ⟨0, 0, 0, 5 * 10 ^ 19, 5 * 10 ^ 19, 0⟩ } }

/-- Closing the short earns an impact of 6, which is too little to move its price. -/
theorem DecreasePosition.executionPrice_adjusted_skewed : ∃ capped adjustment,
    skewedShort.cappedPositionPriceImpact halfCappedMarket ⟨2, 3⟩ (-10 ^ 21) =
        .ok capped ∧ capped.1 = 6 ∧
      ExecutionPriceAdjusted skewedShort ⟨2, 3⟩ (10 ^ 21) capped.1 (some 3)
        adjustment := by
  obtain ⟨capped, hcap, himpact⟩ : ∃ capped,
      skewedShort.cappedPositionPriceImpact halfCappedMarket ⟨2, 3⟩ (-10 ^ 21) =
        .ok capped ∧ capped.1 = 6 :=
    exists_ok_iff_any.mpr (by decide +kernel)
  obtain ⟨adjustment, hadjusted⟩ := executionPrice_adjusted skewedShort halfCappedMarket
    ⟨2, 3⟩ ⟨2, 3⟩ (10 ^ 21) (-10 ^ 21) capped (some 3) ⟨by decide, by decide⟩ (by decide)
    (by decide) (by decide) (by decide) (by decide) (by rfl) hcap
  exact ⟨capped, adjustment, hcap, himpact, hadjusted⟩

end Store

end Gmsol.Model
