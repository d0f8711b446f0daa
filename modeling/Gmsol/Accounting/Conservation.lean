import Gmsol.Accounting.Pools

/-!
# Token conservation of swaps, deposits and withdrawals

The tokens of a market are the amounts of its liquidity, swap impact,
claimable fee and collateral sum pools.  Swaps, deposits and withdrawals change
this total by what they take in and pay out, and leave everything that belongs
to positions alone.
-/

namespace Gmsol.Model

open Gmsol.Fallible Gmsol.System

variable {isPure : Bool}

namespace Market

/-- The tokens of the liquidity providers' pools. -/
def poolTotal (market : Market isPure) (token : Bool) : ℕ :=
  market.primary.tokenAmount token + market.swapImpact.tokenAmount token +
    market.claimableFee.tokenAmount token

/-- The collateral of all positions. -/
def collateralTotal (market : Market isPure) (token : Bool) : ℕ :=
  (market.collateralSum.get true).tokenAmount token +
    (market.collateralSum.get false).tokenAmount token

/-- All tokens of the market. -/
def tokenTotal (market : Market isPure) (token : Bool) : ℕ :=
  market.poolTotal token + market.collateralTotal token

/-- `after` differs from `before` at most in what belongs to the liquidity
providers. -/
def KeepsPositions (before after : Market isPure) : Prop :=
  ∃ primary swapImpact claimableFee positionImpact totalSupply,
    after = { before with
      primary, swapImpact, claimableFee, positionImpact, totalSupply }

theorem KeepsPositions.refl (market : Market isPure) :
    KeepsPositions market market :=
  ⟨_, _, _, _, _, rfl⟩

theorem KeepsPositions.trans {first second third : Market isPure}
    (hleft : KeepsPositions first second) (hright : KeepsPositions second third) :
    KeepsPositions first third := by
  obtain ⟨_, _, _, _, _, rfl⟩ := hleft
  obtain ⟨_, _, _, _, _, rfl⟩ := hright
  exact ⟨_, _, _, _, _, rfl⟩

theorem KeepsPositions.collateralTotal_eq {before after : Market isPure}
    (hkeeps : KeepsPositions before after) (token : Bool) :
    after.collateralTotal token = before.collateralTotal token := by
  obtain ⟨_, _, _, _, _, rfl⟩ := hkeeps
  rfl

variable [MarketNum]

/-! ## Single pool updates -/

theorem applyDelta_eq_ok {before after : Market isPure} {side : Bool}
    {delta : ℤ} (happly : before.applyDelta side delta = .ok after) :
    KeepsPositions before after ∧
      (∀ token, (after.poolTotal token : ℤ) =
        before.poolTotal token + signedInToken isPure side token delta) ∧
      after.swapImpact = before.swapImpact := by
  simp only [applyDelta, bind_eq_ok, pure_eq_ok] at happly
  obtain ⟨primary, hprimary, rfl⟩ := happly
  refine ⟨⟨_, _, _, _, _, rfl⟩, fun token => ?_, rfl⟩
  have hamount := Pool.applyDeltaAmount_tokenAmount hprimary token
  simp only [poolTotal]
  push_cast
  omega

theorem applyDeltaToClaimableFeePool_eq_ok {before after : Market isPure}
    {side : Bool} {delta : ℤ}
    (happly : before.applyDeltaToClaimableFeePool side delta = .ok after) :
    KeepsPositions before after ∧
      ∀ token, (after.poolTotal token : ℤ) =
        before.poolTotal token + signedInToken isPure side token delta := by
  simp only [applyDeltaToClaimableFeePool, bind_eq_ok, pure_eq_ok] at happly
  obtain ⟨claimableFee, hclaimable, rfl⟩ := happly
  refine ⟨⟨_, _, _, _, _, rfl⟩, fun token => ?_⟩
  have hamount := Pool.applyDeltaAmount_tokenAmount hclaimable token
  simp only [poolTotal]
  push_cast
  omega

theorem applyDeltaToPositionImpactPool_eq_ok {before after : Market isPure}
    {delta : ℤ} (happly : before.applyDeltaToPositionImpactPool delta = .ok after) :
    KeepsPositions before after ∧
      ∀ token, after.poolTotal token = before.poolTotal token := by
  simp only [applyDeltaToPositionImpactPool, bind_eq_ok, pure_eq_ok] at happly
  obtain ⟨positionImpact, _, rfl⟩ := happly
  exact ⟨⟨_, _, _, _, _, rfl⟩, fun _ => rfl⟩

omit [MarketNum] in
theorem mint_eq_ok {before after : Market isPure} {amount : ℕ}
    (hmint : before.mint amount = .ok after) :
    after = { before with totalSupply := before.totalSupply + amount } := by
  simp only [mint, bind_eq_ok, ensure_eq_ok, pure_eq_ok] at hmint
  obtain ⟨_, _, _, _, rfl⟩ := hmint
  rfl

omit [MarketNum] in
theorem burn_eq_ok {before after : Market isPure} {amount : ℕ}
    (hburn : before.burn amount = .ok after) :
    amount ≤ before.totalSupply ∧
      after = { before with totalSupply := before.totalSupply - amount } := by
  simp only [burn, bind_eq_ok, ensure_eq_ok, pure_eq_ok] at hburn
  obtain ⟨_, _, _, henough, rfl⟩ := hburn
  exact ⟨henough, rfl⟩

/-! ## Swap impact -/

theorem signedDiv_nonneg {value divisor result : ℤ}
    (hdiv : signedDiv value divisor = some result) (hvalue : 0 ≤ value)
    (hdivisor : 0 ≤ divisor) : 0 ≤ result := by
  unfold signedDiv at hdiv
  split at hdiv
  · exact absurd hdiv (by simp)
  · rw [narrowSigned_eq_some] at hdiv
    rw [← hdiv.2]
    exact Int.tdiv_nonneg hvalue hdivisor

theorem signedDiv_nonpos {value divisor result : ℤ}
    (hdiv : signedDiv value divisor = some result) (hvalue : value ≤ 0)
    (hdivisor : 0 ≤ divisor) : result ≤ 0 := by
  unfold signedDiv at hdiv
  split at hdiv
  · exact absurd hdiv (by simp)
  · rw [narrowSigned_eq_some] at hdiv
    rw [← hdiv.2]
    have hneg := Int.tdiv_nonneg (neg_nonneg.mpr hvalue) hdivisor
    rw [Int.neg_tdiv] at hneg
    omega

/-- The impact amount has the sign of the impact value. -/
theorem swapImpactAmountWithCap_sign {market : Market isPure} {side : Bool}
    {price : Price} {usdImpact : ℤ} {capped : ℤ × ℕ}
    (hcap : market.swapImpactAmountWithCap side price usdImpact = .ok capped) :
    (0 ≤ usdImpact → 0 ≤ capped.1) ∧ (usdImpact ≤ 0 → capped.1 ≤ 0) := by
  unfold swapImpactAmountWithCap at hcap
  split at hcap
  · exact absurd hcap (by simp)
  split at hcap
  · rename_i _ hpositive
    refine ⟨fun _ => ?_, fun hle => absurd hpositive (not_lt.mpr hle)⟩
    simp only [bind_eq_ok, okOr_eq_ok, toSigned_eq_ok, ite_eq_ok, pure_eq_ok,
      option_bind_eq_some] at hcap
    obtain ⟨maxPrice, ⟨_, rfl⟩, amount, hamount, maxAmount, ⟨_, rfl⟩, hcases⟩ := hcap
    rcases hcases with ⟨_, _, _, rfl⟩ | ⟨_, rfl⟩
    · exact Int.natCast_nonneg _
    · exact signedDiv_nonneg hamount hpositive.le (Int.natCast_nonneg _)
  split at hcap
  · rename_i _ _ hnegative
    refine ⟨fun hle => absurd hnegative (not_lt.mpr hle), fun _ => ?_⟩
    simp only [bind_eq_ok, okOr_eq_ok, toSigned_eq_ok, pure_eq_ok,
      option_bind_eq_some, signedSub_eq_some, signedAdd_eq_some] at hcap
    obtain ⟨minPrice, ⟨_, rfl⟩, amount, ⟨shifted, ⟨_, rfl⟩, numerator, ⟨_, rfl⟩,
      hamount⟩, rfl⟩ := hcap
    refine signedDiv_nonpos hamount ?_ (Int.natCast_nonneg _)
    have hprice := Int.natCast_nonneg (price.pickPrice false)
    omega
  · obtain rfl : (0, 0) = capped := by simpa using hcap
    exact ⟨fun _ => le_refl _, fun _ => le_refl _⟩

/-- The impact amount leaves the impact pool when the impact is positive and
enters it when the impact is negative. -/
theorem applySwapImpactValueWithCap_eq_ok {before : Market isPure} {side : Bool}
    {price : Price} {usdImpact : ℤ} {applied : Market isPure × ℕ}
    (happly : before.applySwapImpactValueWithCap side price usdImpact =
      .ok applied) :
    KeepsPositions before applied.1 ∧
      (0 ≤ usdImpact → ∀ token, (applied.1.poolTotal token : ℤ) =
        before.poolTotal token + signedInToken isPure side token (-applied.2)) ∧
      (usdImpact ≤ 0 → ∀ token, (applied.1.poolTotal token : ℤ) =
        before.poolTotal token + signedInToken isPure side token applied.2) := by
  simp only [applySwapImpactValueWithCap, bind_eq_ok, okOr_eq_ok, pure_eq_ok,
    signedNeg_eq_some] at happly
  obtain ⟨capped, hcap, delta, ⟨_, rfl⟩, swapImpact, hswapImpact, rfl⟩ := happly
  have hsign := swapImpactAmountWithCap_sign hcap
  refine ⟨⟨_, _, _, _, _, rfl⟩, fun hpositive token => ?_, fun hnegative token => ?_⟩
  · have hamount := Pool.applyDeltaAmount_tokenAmount hswapImpact token
    have habs : -((-capped.1).natAbs : ℤ) = -capped.1 := by
      have := hsign.1 hpositive
      omega
    simp only [poolTotal, habs]
    push_cast
    omega
  · have hamount := Pool.applyDeltaAmount_tokenAmount hswapImpact token
    have habs : ((-capped.1).natAbs : ℤ) = -capped.1 := by
      have := hsign.2 hnegative
      omega
    simp only [poolTotal, habs]
    push_cast
    omega

end Market

/-! ## Fees -/

theorem FeeParams.applyFees_eq_some [MarketNum] {params : FeeParams}
    {isPositiveImpact : Bool} {amount : ℕ} {charged : ℕ × Fees}
    (hfees : params.applyFees isPositiveImpact amount = some charged) :
    charged.1 + charged.2.feeAmountForPool + charged.2.feeAmountForReceiver =
      amount := by
  simp only [applyFees, option_bind_eq_some, checkedSub_eq_some] at hfees
  obtain ⟨feeAmount, _, receiverAmount, _, poolAmount, ⟨hpool, rfl⟩, remaining,
    ⟨hremaining, rfl⟩, hcharged⟩ := hfees
  obtain rfl := Option.some.inj hcharged
  dsimp only
  omega

/-! ## Swap -/

namespace Swap

variable [MarketNum]

/-- What a swap moves through the impact pool: the token in loses what is added
to the pool, the token out what is paid beside the pool. -/
theorem amounts_eq_ok {market : Market isPure} {params : SwapParams}
    {values : ReassignedValues} {impact : ℤ} {amountAfterFees : ℕ}
    {result : Amounts isPure}
    (hamounts : amounts market params values impact amountAfterFees = .ok result)
    (token : Bool) :
    (result.swapImpact.tokenAmount token : ℤ) =
      market.swapImpact.tokenAmount token +
        signedInToken isPure params.isTokenInLong token
          (amountAfterFees - result.tokenInAmount) +
        signedInToken isPure (!params.isTokenInLong) token
          (result.poolAmountOut - result.tokenOutAmount) := by
  unfold amounts at hamounts
  split at hamounts
  · rename_i hpositive
    simp only [amountsForPositiveImpact, bind_eq_ok, okOr_eq_ok, pure_eq_ok,
      signedNeg_eq_some] at hamounts
    obtain ⟨capped, hcap, diffAmount, hdiff, tokenInAmount, htokenIn, _, ⟨_, rfl⟩,
      _, ⟨_, rfl⟩, swapImpact, hswapImpact, poolAmountOut, _, tokenOutAmount,
      htokenOut, rfl⟩ := hamounts
    have hsign := (Market.swapImpactAmountWithCap_sign hcap).1 hpositive.le
    have hadded : (tokenInAmount : ℤ) = amountAfterFees + diffAmount := by
      unfold cappedDiffTokenInAmount at hdiff
      split at hdiff
      · rename_i hzero
        obtain rfl : (0 : ℤ) = diffAmount := by simpa using hdiff
        rw [if_pos hzero] at htokenIn
        obtain rfl : amountAfterFees = tokenInAmount := by simpa using htokenIn
        omega
      · rename_i hnonzero
        rw [if_neg hnonzero, okOr_eq_ok, checkedAdd_eq_some] at htokenIn
        simp only [bind_eq_ok, toSigned_eq_ok, pure_eq_ok] at hdiff
        obtain ⟨_, ⟨_, rfl⟩, cappedDiff, hcappedDiff, rfl⟩ := hdiff
        have hdiffSign := (Market.swapImpactAmountWithCap_sign hcappedDiff).1
          (Int.natCast_nonneg _)
        omega
    rw [checkedAdd_eq_some] at htokenOut
    have hboth := Pool.checkedApplyDelta_bothSides hswapImpact token
    rw [Bool.not_not] at hboth
    dsimp only
    rw [hboth, show (amountAfterFees : ℤ) - tokenInAmount = -diffAmount by omega,
      show (poolAmountOut : ℤ) - tokenOutAmount = -capped.1 by omega]
    ring
  · rename_i hnegative
    simp only [amountsForNegativeImpact, bind_eq_ok, okOr_eq_ok, pure_eq_ok,
      signedNeg_eq_some, ensure_eq_ok, checkedSub_eq_some] at hamounts
    obtain ⟨capped, hcap, _, ⟨_, rfl⟩, swapImpact, hswapImpact, tokenInAmount,
      ⟨henough, rfl⟩, _, _, tokenOutAmount, _, rfl⟩ := hamounts
    have hsign := (Market.swapImpactAmountWithCap_sign hcap).2 (not_lt.mp hnegative)
    have hone := Pool.applyDeltaAmount_tokenAmount
      (Pool.checkedApplyDelta_oneSide hswapImpact) token
    dsimp only
    rw [hone, sub_self, signedInToken_zero, add_zero,
      show (amountAfterFees : ℤ) - (amountAfterFees - capped.1.natAbs : ℕ) =
        -capped.1 by omega]

/-- A swap adds its input to the pools and takes its output from them. -/
theorem tryExecute_eq_ok {before after : Market isPure} {params : SwapParams}
    {report : SwapReport} (hswap : tryExecute before params = .ok (after, report)) :
    before.KeepsPositions after ∧ after.positionImpact = before.positionImpact ∧
      ∀ token, (after.poolTotal token : ℤ) =
        before.poolTotal token +
          signedInToken isPure params.isTokenInLong token params.tokenInAmount -
          signedInToken isPure (!params.isTokenInLong) token
            report.tokenOutAmount := by
  simp only [tryExecute, bind_eq_ok, okOr_eq_ok, pure_eq_ok, toSigned_eq_ok,
    toOppositeSigned_eq_ok, checkedAdd_eq_some] at hswap
  obtain ⟨values, _, impact, _, charged, hcharged, _, ⟨_, rfl⟩, claimableFee,
    hclaimable, amounts, hamounts, poolIn, ⟨_, rfl⟩, _, ⟨_, rfl⟩, _, ⟨_, rfl⟩,
    primary, hprimary, _, _, hresult⟩ := hswap
  obtain ⟨rfl, rfl⟩ := Prod.mk.inj hresult
  refine ⟨⟨_, _, _, _, _, rfl⟩, rfl, fun token => ?_⟩
  have hfees := FeeParams.applyFees_eq_some hcharged
  have hclaim := Pool.applyDeltaAmount_tokenAmount
    (Pool.checkedApplyDelta_oneSide hclaimable) token
  have himpact := amounts_eq_ok hamounts token
  have hpool := Pool.checkedApplyDelta_bothSides hprimary token
  have hin : (params.tokenInAmount : ℤ) = charged.2.feeAmountForReceiver +
      ((charged.1 - amounts.tokenInAmount) +
        ((amounts.tokenInAmount + charged.2.feeAmountForPool : ℕ) : ℤ)) := by
    omega
  have hout : -(amounts.tokenOutAmount : ℤ) =
      (amounts.poolAmountOut - amounts.tokenOutAmount) +
        -(amounts.poolAmountOut : ℤ) := by omega
  rw [sub_eq_add_neg, ← signedInToken_neg, hout, hin]
  simp only [signedInToken_add, Market.poolTotal, Nat.cast_add] at hpool ⊢
  omega

theorem execute_eq_ok {before after : Market isPure} {params : SwapParams}
    {report : SwapReport} (hswap : execute before params = .ok (after, report)) :
    tryExecute before params = .ok (after, report) := by
  simp only [execute, bind_eq_ok] at hswap
  obtain ⟨_, _, htry⟩ := hswap
  exact htry

end Swap

/-! ## Deposit -/

namespace Deposit

variable [MarketNum]

/-- Settling the impact moves tokens between the impact pool and the liquidity
pool; the amount left to deposit is short of what entered the impact pool. -/
theorem settleImpact_eq_ok {market : Market isPure} {params : DepositParams}
    {isLongToken : Bool} {poolValue supply amount : ℕ} {impact : ℤ}
    {settled : ImpactSettled isPure}
    (hsettle : settleImpact market params isLongToken poolValue supply amount
      impact = .ok settled) :
    market.KeepsPositions settled.market ∧
      ∀ token, (settled.market.poolTotal token : ℤ) =
        market.poolTotal token +
          signedInToken isPure isLongToken token (amount - settled.amount) := by
  unfold settleImpact at hsettle
  split at hsettle
  · rename_i hpositive
    simp only [settlePositiveImpact, bind_eq_ok, okOr_eq_ok, pure_eq_ok,
      toSigned_eq_ok] at hsettle
    obtain ⟨applied, happlied, _, _, _, _, _, _, _, ⟨_, rfl⟩, next, hnext, _, _,
      rfl⟩ := hsettle
    have himpact := Market.applySwapImpactValueWithCap_eq_ok happlied
    have hpool := Market.applyDelta_eq_ok hnext
    refine ⟨himpact.1.trans hpool.1, fun token => ?_⟩
    rw [hpool.2.1 token, himpact.2.1 hpositive.1.le token, signedInToken_neg]
    simp
  split at hsettle
  · rename_i hnegative
    simp only [settleNegativeImpact, bind_eq_ok, okOr_eq_ok, pure_eq_ok,
      checkedSub_eq_some] at hsettle
    obtain ⟨applied, happlied, remaining, ⟨henough, rfl⟩, rfl⟩ := hsettle
    have himpact := Market.applySwapImpactValueWithCap_eq_ok happlied
    refine ⟨himpact.1, fun token => ?_⟩
    rw [himpact.2.2 hnegative.le token]
    congr 2
    dsimp only
    omega
  · obtain rfl : ⟨market, amount, 0⟩ = settled := by simpa using hsettle
    exact ⟨.refl _, fun token => by simp⟩

theorem executeDeposit_eq_ok {before : Market isPure} {params : DepositParams}
    {isLongToken : Bool} {poolValue : ℕ} {impact : ℤ}
    {result : Market isPure × ℕ × Fees}
    (hdeposit : executeDeposit before params isLongToken poolValue impact =
      .ok result) :
    before.KeepsPositions result.1 ∧
      ∀ token, (result.1.poolTotal token : ℤ) =
        before.poolTotal token +
          signedInToken isPure isLongToken token (params.amount isLongToken) := by
  simp only [executeDeposit, bind_eq_ok, okOr_eq_ok, pure_eq_ok, toSigned_eq_ok,
    checkedAdd_eq_some] at hdeposit
  obtain ⟨_, _, charged, hcharged, _, ⟨_, rfl⟩, withFees, hwithFees, settled,
    hsettled, _, _, _, _, _, _, _, ⟨_, rfl⟩, _, ⟨_, rfl⟩, next, hnext, _, _, _, _,
    rfl⟩ := hdeposit
  have hfees := FeeParams.applyFees_eq_some hcharged
  have hclaimable := Market.applyDeltaToClaimableFeePool_eq_ok hwithFees
  have hsettle := settleImpact_eq_ok hsettled
  have hpool := Market.applyDelta_eq_ok hnext
  refine ⟨hclaimable.1.trans (hsettle.1.trans hpool.1), fun token => ?_⟩
  have hamount : (params.amount isLongToken : ℤ) =
      charged.2.feeAmountForReceiver + ((charged.1 - settled.amount) +
        ((settled.amount + charged.2.feeAmountForPool : ℕ) : ℤ)) := by omega
  rw [hpool.2.1 token, hsettle.2 token, hclaimable.2 token, hamount]
  simp only [signedInToken_add]
  ring

theorem executeSide_eq_ok {before : Market isPure} {params : DepositParams}
    {isLongToken : Bool} {poolValue : ℕ} {impact : ℤ}
    {usdValue totalLong totalShort minted : ℕ} {message : String}
    {result : Market isPure × ℕ × Fees}
    (hside : executeSide before params isLongToken poolValue impact usdValue
      totalLong totalShort minted message = .ok result) :
    before.KeepsPositions result.1 ∧
      ∀ token, (result.1.poolTotal token : ℤ) =
        before.poolTotal token +
          signedInToken isPure isLongToken token (params.amount isLongToken) := by
  unfold executeSide at hside
  split at hside
  · rename_i hzero
    obtain rfl : (before, minted, Fees.zero) = result := by simpa using hside
    exact ⟨.refl _, fun token => by simp [hzero]⟩
  · simp only [bind_eq_ok, pure_eq_ok] at hside
    obtain ⟨_, _, _, _, deposited, hdeposited, _, _, rfl⟩ := hside
    have heffect := executeDeposit_eq_ok hdeposited
    exact heffect

theorem execute_eq_ok {before after : Market isPure} {params : DepositParams}
    {report : DepositReport} (hdeposit : execute before params = .ok (after, report)) :
    before.KeepsPositions after ∧
      ∀ token, (after.poolTotal token : ℤ) =
        before.poolTotal token +
          signedInToken isPure true token params.longTokenAmount +
          signedInToken isPure false token params.shortTokenAmount := by
  simp only [execute, bind_eq_ok, pure_eq_ok] at hdeposit
  obtain ⟨_, _, _, _, _, _, _, _, _, _, afterLong, hlong, afterShort, hshort, next,
    hmint, hresult⟩ := hdeposit
  obtain ⟨rfl, rfl⟩ := Prod.mk.inj hresult
  have hlongSide := executeSide_eq_ok hlong
  have hshortSide := executeSide_eq_ok hshort
  obtain rfl := Market.mint_eq_ok hmint
  refine ⟨(hlongSide.1.trans hshortSide.1).trans ⟨_, _, _, _, _, rfl⟩,
    fun token => ?_⟩
  change (afterShort.1.poolTotal token : ℤ) = _
  rw [hshortSide.2 token, hlongSide.2 token]
  rfl

end Deposit

/-! ## Withdrawal -/

namespace Withdrawal

variable [MarketNum]

theorem creditReceiver_eq_ok {before after : Market isPure} {side : Bool}
    {fees : Fees} (hcredit : creditReceiver before side fees = .ok after) :
    before.KeepsPositions after ∧
      ∀ token, (after.poolTotal token : ℤ) =
        before.poolTotal token +
          signedInToken isPure side token fees.feeAmountForReceiver := by
  simp only [creditReceiver, bind_eq_ok, toSigned_eq_ok] at hcredit
  obtain ⟨_, ⟨_, rfl⟩, happly⟩ := hcredit
  exact Market.applyDeltaToClaimableFeePool_eq_ok happly

theorem takeOutput_eq_ok {before after : Market isPure} {side : Bool}
    {fees : Fees} {amount : ℕ}
    (htake : takeOutput before side fees amount = .ok after) :
    before.KeepsPositions after ∧
      ∀ token, (after.poolTotal token : ℤ) =
        before.poolTotal token +
          signedInToken isPure side token
            (-(fees.feeAmountForReceiver + amount : ℕ)) := by
  simp only [takeOutput, bind_eq_ok, okOr_eq_ok, checkedAdd_eq_some,
    toOppositeSigned_eq_ok] at htake
  obtain ⟨_, ⟨_, rfl⟩, _, ⟨_, rfl⟩, happly⟩ := htake
  have hpool := Market.applyDelta_eq_ok happly
  exact ⟨hpool.1, hpool.2.1⟩

theorem execute_eq_ok {before after : Market isPure} {params : WithdrawParams}
    {report : WithdrawReport}
    (hwithdraw : execute before params = .ok (after, report)) :
    before.KeepsPositions after ∧
      ∀ token, (after.poolTotal token : ℤ) =
        before.poolTotal token -
          signedInToken isPure true token report.longTokenOutput -
          signedInToken isPure false token report.shortTokenOutput := by
  simp only [execute, bind_eq_ok, pure_eq_ok] at hwithdraw
  obtain ⟨_, _, amounts, _, long, _, short, _, withLongFee, hlongFee, withFees,
    hshortFee, withoutLong, hlong, withoutShort, hshort, _, _, _, _, _, _, next,
    hburn, hresult⟩ := hwithdraw
  obtain ⟨rfl, rfl⟩ := Prod.mk.inj hresult
  have h1 := creditReceiver_eq_ok hlongFee
  have h2 := creditReceiver_eq_ok hshortFee
  have h3 := takeOutput_eq_ok hlong
  have h4 := takeOutput_eq_ok hshort
  obtain ⟨_, rfl⟩ := Market.burn_eq_ok hburn
  refine ⟨(h1.1.trans (h2.1.trans (h3.1.trans h4.1))).trans ⟨_, _, _, _, _, rfl⟩,
    fun token => ?_⟩
  change (withoutShort.poolTotal token : ℤ) = _
  rw [h4.2 token, h3.2 token, h2.2 token, h1.2 token]
  simp only [Nat.cast_add, signedInToken_neg, signedInToken_add]
  ring

end Withdrawal

end Gmsol.Model
