import Gmsol.Accounting.Conservation

/-!
# What changing a position does to its market

Increasing and decreasing a position have the same shape of effect: the pools
that aggregate over positions move by the position's own deltas, the position's
fees are settled at the market's current factors, and the accumulated factors
themselves do not move.
-/

namespace Gmsol.Model

open Gmsol.Fallible Gmsol.System

variable {isPure : Bool}

/-- A position changes to `next` while the market accounts for the sizes
`sizeInUsd` and `sizeInTokens` and the collateral of `next`. -/
structure Settles [MarketNum] (before after : Market isPure)
    (position next : Position) (sizeInUsd sizeInTokens : ℕ) : Prop where
  isLong_eq : next.isLong = position.isLong
  isCollateralTokenLong_eq :
    next.isCollateralTokenLong = position.isCollateralTokenLong
  openInterest : ∀ side token,
    ((after.openInterest.get side).tokenAmount token : ℤ) =
      (before.openInterest.get side).tokenAmount token +
        if side = position.isLong then
          signedInToken isPure position.isCollateralTokenLong token
            (sizeInUsd - position.sizeInUsd)
        else 0
  openInterest_total : ∀ side,
    ((after.openInterest.get side).total : ℤ) =
      (before.openInterest.get side).total +
        if side = position.isLong then (sizeInUsd : ℤ) - position.sizeInUsd else 0
  openInterestInTokens : ∀ side token,
    ((after.openInterestInTokens.get side).tokenAmount token : ℤ) =
      (before.openInterestInTokens.get side).tokenAmount token +
        if side = position.isLong then
          signedInToken isPure position.isCollateralTokenLong token
            (sizeInTokens - position.sizeInTokens)
        else 0
  collateralSum : ∀ side token,
    ((after.collateralSum.get side).tokenAmount token : ℤ) =
      (before.collateralSum.get side).tokenAmount token +
        if side = position.isLong then
          signedInToken isPure position.isCollateralTokenLong token
            (next.collateralAmount - position.collateralAmount)
        else 0
  totalBorrowing : ∀ side,
    (after.totalBorrowingAmount side : ℤ) =
      before.totalBorrowingAmount side +
        if side = position.isLong then
          ((sizeInUsd * next.borrowingFactor / unit : ℕ) : ℤ) -
            (position.sizeInUsd * position.borrowingFactor / unit : ℕ)
        else 0
  borrowing_settled :
    next.borrowingFactor = before.cumulativeBorrowingFactor position.isLong
  funding_settled :
    next.fundingFeeAmountPerSize =
      before.fundingFeeAmountPerSize position.isLong
        position.isCollateralTokenLong
  claimable_settled : ∀ token,
    next.claimableFundingFeeAmountPerSize.get token =
      before.claimableFundingFeeAmountPerSize position.isLong token
  borrowingFactor_eq : after.borrowingFactor = before.borrowingFactor
  fundingAmountPerSize_eq :
    after.fundingAmountPerSize = before.fundingAmountPerSize
  claimableFundingAmountPerSize_eq :
    after.claimableFundingAmountPerSize = before.claimableFundingAmountPerSize
  longTokenBalance_eq : after.longTokenBalance = before.longTokenBalance
  shortTokenBalance_eq : after.shortTokenBalance = before.shortTokenBalance

/-! ## One side of a pair of pools -/

section OneSide

variable [MarketNum] {pools : Sided (Pool isPure)} {pool : Pool isPure}
  {isLong tokenSide : Bool} {delta : ℤ}

theorem set_tokenAmount
    (happly : (pools.get isLong).applyDeltaAmount tokenSide delta = .ok pool)
    (side token : Bool) :
    (((pools.set isLong pool).get side).tokenAmount token : ℤ) =
      (pools.get side).tokenAmount token +
        if side = isLong then signedInToken isPure tokenSide token delta else 0 := by
  rw [Sided.get_set]
  by_cases hside : side = isLong
  · subst hside
    simpa using Pool.applyDeltaAmount_tokenAmount happly token
  · simp [hside]

theorem set_total
    (happly : (pools.get isLong).applyDeltaAmount tokenSide delta = .ok pool)
    (side : Bool) :
    (((pools.set isLong pool).get side).total : ℤ) =
      (pools.get side).total + if side = isLong then delta else 0 := by
  rw [Sided.get_set]
  by_cases hside : side = isLong
  · subst hside
    simpa using Pool.applyDeltaAmount_total happly
  · simp [hside]

end OneSide

namespace Position

variable [MarketNum]

theorem updateTotalBorrowing_eq_ok {position : Position}
    {before after : Market isPure} {nextSize nextFactor : ℕ}
    (hupdate : position.updateTotalBorrowing before nextSize nextFactor =
      .ok after) :
    ∃ totalBorrowing, after = { before with totalBorrowing } ∧
      ∀ side, (totalBorrowing.amount side : ℤ) =
        before.totalBorrowingAmount side +
          if side = position.isLong then
            ((nextSize * nextFactor / unit : ℕ) : ℤ) -
              (position.sizeInUsd * position.borrowingFactor / unit : ℕ)
          else 0 := by
  simp only [updateTotalBorrowing, bind_eq_ok, okOr_eq_ok, pure_eq_ok,
    applyFactor_eq_some] at hupdate
  obtain ⟨_, ⟨_, rfl⟩, _, ⟨_, rfl⟩, delta, hdelta, totalBorrowing, happly, rfl⟩ :=
    hupdate
  refine ⟨totalBorrowing, rfl, fun side => ?_⟩
  rw [Pool.applyDeltaAmount_amount happly side, checkedSignedSub_eq_ok hdelta]
  simp only [Market.totalBorrowingAmount, eq_comm]

theorem updateOpenInterest_eq_ok {position : Position}
    {before after : Market isPure} {sizeDelta tokensDelta : ℤ}
    (hupdate : position.updateOpenInterest before sizeDelta tokensDelta =
      .ok after) :
    ∃ openInterest openInterestInTokens,
      after = { before with openInterest, openInterestInTokens } ∧
      (∀ side token, ((openInterest.get side).tokenAmount token : ℤ) =
        (before.openInterest.get side).tokenAmount token +
          if side = position.isLong then
            signedInToken isPure position.isCollateralTokenLong token sizeDelta
          else 0) ∧
      (∀ side, ((openInterest.get side).total : ℤ) =
        (before.openInterest.get side).total +
          if side = position.isLong then sizeDelta else 0) ∧
      ((sizeDelta = 0 → tokensDelta = 0) → ∀ side token,
        ((openInterestInTokens.get side).tokenAmount token : ℤ) =
          (before.openInterestInTokens.get side).tokenAmount token +
            if side = position.isLong then
              signedInToken isPure position.isCollateralTokenLong token tokensDelta
            else 0) := by
  unfold updateOpenInterest at hupdate
  split at hupdate
  · rename_i hsize
    obtain rfl : before = after := by simpa using hupdate
    exact ⟨_, _, rfl, by simp [hsize], by simp [hsize],
      fun hzero => by simp [hzero hsize]⟩
  · simp only [bind_eq_ok, ensure_eq_ok, pure_eq_ok] at hupdate
    obtain ⟨openInterest, hinterest, _, _, inTokens, htokens, rfl⟩ := hupdate
    exact ⟨_, _, rfl, set_tokenAmount hinterest, set_total hinterest,
      fun _ => set_tokenAmount htokens⟩

omit [MarketNum] in
@[simp]
theorem settleFees_claimable (position : Position) (market : Market isPure)
    (factor : ℕ) (token : Bool) :
    (position.settleFees market factor).claimableFundingFeeAmountPerSize.get
        token =
      market.claimableFundingFeeAmountPerSize position.isLong token := by
  cases token <;> rfl

end Position

/-! ## Fees -/

/-- Receiver and pool share the whole cost other than funding. -/
theorem PositionFees.shares_add [MarketNum] {fees : PositionFees}
    {forReceiver forPool total : ℕ} (hreceiver : fees.forReceiver = .ok forReceiver)
    (hpool : fees.forPool = .ok forPool)
    (htotal : fees.totalCostExcludingFunding = .ok total) :
    forReceiver + forPool = total := by
  simp only [PositionFees.forReceiver, PositionFees.forPool,
    PositionFees.totalCostExcludingFunding, BorrowingFees.feeAmountForPool,
    LiquidationFees.feeAmountForPool, bind_eq_ok, okOr_eq_ok,
    option_bind_eq_some, checkedAdd_eq_some, checkedSub_eq_some]
    at hreceiver hpool htotal
  obtain ⟨_, ⟨_, rfl⟩, hreceiver⟩ := hreceiver
  obtain ⟨_, ⟨hborrowing, rfl⟩, _, ⟨_, rfl⟩, hpool⟩ := hpool
  obtain ⟨_, ⟨_, rfl⟩, _, ⟨_, rfl⟩, htotal⟩ := htotal
  cases hliquidation : fees.liquidation with
  | none =>
      simp only [hliquidation, Option.some.injEq, Except.ok.injEq]
        at hreceiver hpool htotal
      omega
  | some liquidation =>
      simp only [hliquidation, bind_eq_ok, okOr_eq_ok, checkedAdd_eq_some,
        checkedSub_eq_some] at hreceiver hpool htotal
      obtain ⟨_, ⟨hliquidation, rfl⟩, _, hpool⟩ := hpool
      omega

theorem PositionFees.totalCostAmount_eq_ok [MarketNum] {fees : PositionFees}
    {total : ℕ} (htotal : fees.totalCostAmount = .ok total) :
    ∃ excluding, fees.totalCostExcludingFunding = .ok excluding ∧
      total = excluding + fees.funding.amount := by
  simp only [totalCostAmount, bind_eq_ok, okOr_eq_ok, checkedAdd_eq_some] at htotal
  obtain ⟨excluding, hexcluding, _, rfl⟩ := htotal
  exact ⟨excluding, hexcluding, rfl⟩

theorem Position.positionFees_funding [MarketNum] {position : Position}
    {market : Market isPure} {price : Price} {sizeDelta : ℕ}
    {isPositive isLiquidation : Bool} {fees : PositionFees}
    (hfees : position.positionFees market price sizeDelta isPositive isLiquidation =
      .ok fees) :
    position.pendingFundingFees market = .ok fees.funding := by
  simp only [positionFees, bind_eq_ok, pure_eq_ok] at hfees
  obtain ⟨_, _, _, _, _, _, _, _, funding, hfunding, rfl⟩ := hfees
  exact hfunding

/-! ## Increase -/

namespace IncreasePosition

variable [MarketNum]

section Initialize

variable (position : Position) (market : Market isPure)

omit [MarketNum] in
@[simp]
theorem initialize_isLong :
    (initializePositionIfEmpty position market).isLong = position.isLong := by
  unfold initializePositionIfEmpty
  split <;> rfl

omit [MarketNum] in
@[simp]
theorem initialize_isCollateralTokenLong :
    (initializePositionIfEmpty position market).isCollateralTokenLong =
      position.isCollateralTokenLong := by
  unfold initializePositionIfEmpty
  split <;> rfl

omit [MarketNum] in
@[simp]
theorem initialize_collateralAmount :
    (initializePositionIfEmpty position market).collateralAmount =
      position.collateralAmount := by
  unfold initializePositionIfEmpty
  split <;> rfl

omit [MarketNum] in
@[simp]
theorem initialize_sizeInUsd :
    (initializePositionIfEmpty position market).sizeInUsd =
      position.sizeInUsd := by
  unfold initializePositionIfEmpty
  split <;> rfl

omit [MarketNum] in
@[simp]
theorem initialize_borrowingFactor :
    (initializePositionIfEmpty position market).borrowingFactor =
      position.borrowingFactor := by
  unfold initializePositionIfEmpty
  split <;> rfl

end Initialize

/-- The increment pays the fees; what is left moves the collateral. -/
theorem processCollateral_eq_ok {position : Position} {before : Market isPure}
    {params : IncreasePositionParams} {impact : ℤ}
    {processed : Market isPure × ℤ × PositionFees}
    (hprocess : processCollateral position before params impact = .ok processed) :
    ∃ primary claimableFee collateralSum,
      processed.1 = { before with primary, claimableFee, collateralSum } ∧
      (∀ side token, ((collateralSum.get side).tokenAmount token : ℤ) =
        (before.collateralSum.get side).tokenAmount token +
          if side = position.isLong then
            signedInToken isPure position.isCollateralTokenLong token processed.2.1
          else 0) ∧
      (∀ token, (processed.1.tokenTotal token : ℤ) =
        before.tokenTotal token +
          signedInToken isPure position.isCollateralTokenLong token
            (params.collateralIncrementAmount - processed.2.2.funding.amount)) ∧
      position.pendingFundingFees before = .ok processed.2.2.funding := by
  simp only [processCollateral, bind_eq_ok, okOr_eq_ok, pure_eq_ok, toSigned_eq_ok,
    signedSub_eq_some] at hprocess
  obtain ⟨_, ⟨_, rfl⟩, fees, hfees, cost, hcost, _, ⟨_, rfl⟩, _, ⟨_, rfl⟩,
    forReceiver, hreceiver, _, ⟨_, rfl⟩, withReceiver, hwithReceiver, forPool, hpool,
    _, ⟨_, rfl⟩, withPool, hwithPool, collateralSum, hcollateral, rfl⟩ := hprocess
  obtain ⟨excluding, hexcluding, rfl⟩ := PositionFees.totalCostAmount_eq_ok hcost
  have hshares := PositionFees.shares_add hreceiver hpool hexcluding
  simp only [Market.applyDeltaToClaimableFeePool, bind_eq_ok, pure_eq_ok]
    at hwithReceiver
  obtain ⟨claimableFee, hclaimable, rfl⟩ := hwithReceiver
  simp only [Market.applyDelta, bind_eq_ok, pure_eq_ok] at hwithPool
  obtain ⟨primary, hprimary, rfl⟩ := hwithPool
  refine ⟨_, _, _, rfl, set_tokenAmount hcollateral, fun token => ?_,
    Position.positionFees_funding hfees⟩
  have hclaimableAmount := Pool.applyDeltaAmount_tokenAmount hclaimable token
  have hprimaryAmount := Pool.applyDeltaAmount_tokenAmount hprimary token
  have hlong := set_tokenAmount hcollateral true token
  have hshort := set_tokenAmount hcollateral false token
  have hdelta : (params.collateralIncrementAmount : ℤ) - fees.funding.amount =
      forReceiver + (forPool + (params.collateralIncrementAmount -
        ((excluding + fees.funding.amount : ℕ) : ℤ))) := by omega
  rw [hdelta]
  simp only [signedInToken_add, Market.tokenTotal, Market.poolTotal,
    Market.collateralTotal, Nat.cast_add] at hlong hshort ⊢
  cases hside : position.isLong <;> simp only [hside, if_true, if_false,
    Bool.true_eq_false, Bool.false_eq_true] at hlong hshort ⊢ <;> omega

theorem getExecutionParams_tokens {position : Position} {market : Market isPure}
    {params : IncreasePositionParams} {execution : ExecutionParams}
    (hexecution : getExecutionParams position market params = .ok execution)
    (hzero : params.sizeDeltaUsd = 0) : execution.sizeDeltaInTokens = 0 := by
  unfold getExecutionParams at hexecution
  rw [if_pos hzero] at hexecution
  obtain rfl := Except.ok.inj hexecution
  rfl

omit [MarketNum] in
theorem onIncreased_eq_ok {position : Position} {before : Market isPure}
    {final : Market isPure × Position} (hdone : onIncreased position before = .ok final) :
    ∃ tradeCount updatedAtSlot increasedAt tradeId,
      final = ({ before with tradeCount },
        { position with updatedAtSlot, increasedAt, tradeId }) := by
  simp only [onIncreased, Market.nextTradeId, bind_eq_ok, ite_eq_ok, pure_eq_ok,
    reduceCtorEq, and_false, or_false] at hdone
  obtain ⟨_, ⟨_, hnext⟩, rfl⟩ := hdone
  obtain rfl := Except.ok.inj hnext
  exact ⟨_, _, _, _, rfl⟩

end IncreasePosition

theorem Position.validate_open [MarketNum] {position : Position}
    {market : Market isPure} {prices : Prices} {minSize minCollateral : Bool}
    (hvalidate : position.validate market prices minSize minCollateral = .ok ()) :
    position.sizeInUsd ≠ 0 ∧ position.sizeInTokens ≠ 0 := by
  simp only [validate, bind_eq_ok, ensure_eq_ok] at hvalidate
  obtain ⟨_, hsize, _⟩ := hvalidate
  exact not_or.mp hsize

/-- The effects of an increase. -/
structure IncreaseEffects [MarketNum] (before after : Market isPure)
    (position next : Position) (params : IncreasePositionParams)
    (report : IncreasePositionReport) : Prop where
  settles : Settles before after
    (IncreasePosition.initializePositionIfEmpty position before) next
    next.sizeInUsd next.sizeInTokens
  size_ne_zero : next.sizeInUsd ≠ 0
  tokens_ne_zero : next.sizeInTokens ≠ 0
  size_ge : position.sizeInUsd ≤ next.sizeInUsd
  tokenTotal : ∀ token, (after.tokenTotal token : ℤ) =
    before.tokenTotal token +
      signedInToken isPure position.isCollateralTokenLong token
        (params.collateralIncrementAmount - report.fees.funding.amount)
  funding :
    (IncreasePosition.initializePositionIfEmpty position before).pendingFundingFees
      before = .ok report.fees.funding

theorem IncreasePosition.execute_effects [MarketNum] {before after : Market isPure}
    {position next : Position} {params : IncreasePositionParams}
    {report : IncreasePositionReport}
    (hexecute : IncreasePosition.execute before position params =
      .ok (after, next, report)) :
    IncreaseEffects before after position next params report := by
  simp only [execute, bind_eq_ok, okOr_eq_ok, pure_eq_ok, toSigned_eq_ok,
    checkedAdd_eq_some] at hexecute
  obtain ⟨_, _, execution, hexecution, ⟨withCollateral, collateralDelta, fees⟩,
    hprocessed, collateralAmount, hcollateral, _, _, withImpact, hwithImpact, _,
    ⟨_, rfl⟩, withBorrowing, hwithBorrowing, _, ⟨_, rfl⟩, _, ⟨_, rfl⟩, _, ⟨_, rfl⟩,
    withInterest, hwithInterest, _, _, _, hvalidate, final, hfinal, hresult⟩ := hexecute
  have hopen := Position.validate_open hvalidate
  have hcollateralAmount := checkedAddWithSigned_eq_some hcollateral
  obtain ⟨_, _, _, _, rfl⟩ := onIncreased_eq_ok hfinal
  obtain ⟨openInterest, inTokens, rfl, hinterest, hinterestTotal, htokens⟩ :=
    Position.updateOpenInterest_eq_ok hwithInterest
  replace htokens := htokens fun hzero => by
    rw [getExecutionParams_tokens hexecution (by omega), Nat.cast_zero]
  obtain ⟨totalBorrowing, rfl, hborrowing⟩ :=
    Position.updateTotalBorrowing_eq_ok hwithBorrowing
  simp only [Market.applyDeltaToPositionImpactPool, bind_eq_ok, pure_eq_ok]
    at hwithImpact
  obtain ⟨positionImpact, _, rfl⟩ := hwithImpact
  obtain ⟨primary, claimableFee, collateralSum, rfl, hsum, htotal, hfunding⟩ :=
    processCollateral_eq_ok hprocessed
  clear hfinal hvalidate hwithInterest hwithBorrowing hprocessed
  dsimp only at *
  simp only [Prod.mk.injEq] at hresult
  obtain ⟨rfl, rfl, rfl⟩ := hresult
  exact {
    settles := {
      isLong_eq := rfl
      isCollateralTokenLong_eq := rfl
      openInterest := fun side token => by
        simpa [Position.settleFees] using hinterest side token
      openInterest_total := fun side => by
        simpa [Position.settleFees] using hinterestTotal side
      openInterestInTokens := fun side token => by
        simpa [Position.settleFees] using htokens side token
      collateralSum := fun side token => by
        rw [show ((collateralAmount : ℕ) : ℤ) -
          (initializePositionIfEmpty position before).collateralAmount =
            collateralDelta by omega]
        exact hsum side token
      totalBorrowing := hborrowing
      borrowing_settled := by simp [Position.settleFees, Market.cumulativeBorrowingFactor]
      funding_settled := by
        simp [Position.settleFees, Market.fundingFeeAmountPerSize]
      claimable_settled := fun token => by
        simp [Market.claimableFundingFeeAmountPerSize]
      borrowingFactor_eq := rfl
      fundingAmountPerSize_eq := rfl
      claimableFundingAmountPerSize_eq := rfl
      longTokenBalance_eq := rfl
      shortTokenBalance_eq := rfl }
    size_ne_zero := hopen.1
    tokens_ne_zero := hopen.2
    size_ge := by simp
    tokenTotal := fun token => by
      rw [← initialize_isCollateralTokenLong position before]
      exact htotal token
    funding := hfunding }

/-! ## Conservation -/

theorem Market.KeepsPositions.tokenTotal_eq {before after : Market isPure}
    (hkeeps : before.KeepsPositions after) {token : Bool} {delta : ℤ}
    (hpool : (after.poolTotal token : ℤ) = before.poolTotal token + delta) :
    (after.tokenTotal token : ℤ) = before.tokenTotal token + delta := by
  have hcollateral := hkeeps.collateralTotal_eq token
  unfold Market.tokenTotal
  push_cast
  omega

/-- Swaps, deposits, withdrawals and increases change the tokens of the market
by exactly what they take in and pay out, in each token. -/
theorem market_actions_conserve_tokens [MarketNum] (before : Market isPure) :
    (∀ params after report, Swap.execute before params = .ok (after, report) →
      ∀ token, after.tokenTotal token +
          inToken isPure (!params.isTokenInLong) token report.tokenOutAmount =
        before.tokenTotal token +
          inToken isPure params.isTokenInLong token params.tokenInAmount) ∧
    (∀ params after report, Deposit.execute before params = .ok (after, report) →
      ∀ token, after.tokenTotal token =
        before.tokenTotal token +
          inToken isPure true token params.longTokenAmount +
          inToken isPure false token params.shortTokenAmount) ∧
    (∀ params after report, Withdrawal.execute before params = .ok (after, report) →
      ∀ token, after.tokenTotal token +
          inToken isPure true token report.longTokenOutput +
          inToken isPure false token report.shortTokenOutput =
        before.tokenTotal token) ∧
    (∀ position params after next report,
      IncreasePosition.execute before position params =
        .ok (after, next, report) →
      ∀ token, after.tokenTotal token +
          inToken isPure position.isCollateralTokenLong token
            report.fees.funding.amount =
        before.tokenTotal token +
          inToken isPure position.isCollateralTokenLong token
            params.collateralIncrementAmount) := by
  refine ⟨?_, ?_, ?_, ?_⟩
  · intro params after report hswap token
    obtain ⟨hkeeps, _, hpool⟩ := Swap.tryExecute_eq_ok (Swap.execute_eq_ok hswap)
    have htotal := hkeeps.tokenTotal_eq ((hpool token).trans (add_sub_assoc _ _ _))
    rw [← natCast_inToken, ← natCast_inToken] at htotal
    omega
  · intro params after report hdeposit token
    obtain ⟨hkeeps, hpool⟩ := Deposit.execute_eq_ok hdeposit
    have htotal := hkeeps.tokenTotal_eq ((hpool token).trans (add_assoc _ _ _))
    rw [← natCast_inToken, ← natCast_inToken] at htotal
    omega
  · intro params after report hwithdraw token
    obtain ⟨hkeeps, hpool⟩ := Withdrawal.execute_eq_ok hwithdraw
    have htotal := hkeeps.tokenTotal_eq
      ((hpool token).trans ((sub_sub _ _ _).trans (sub_eq_add_neg _ _)))
    rw [← natCast_inToken, ← natCast_inToken] at htotal
    omega
  · intro position params after next report hincrease token
    have htotal := (IncreasePosition.execute_effects hincrease).tokenTotal token
    rw [sub_eq_add_neg, signedInToken_add, signedInToken_neg, ← natCast_inToken,
      ← natCast_inToken] at htotal
    omega

section Store

attribute [local instance] storeNumbers

/-- A pool with a hundred tokens of either kind that swaps the two one to one. -/
theorem market_actions_conserve_tokens_swap :
    let before : Market false :=
      { Market.init false .unrestricted true ⟨0, 0⟩ with primary := ⟨100, 100⟩ }
    let params : SwapParams := ⟨true, 10, ⟨⟨1, 1⟩, ⟨1, 1⟩, ⟨1, 1⟩⟩⟩
    ∃ after report, Swap.execute before params = .ok (after, report) ∧
      after.tokenTotal true + inToken false false true report.tokenOutAmount =
        before.tokenTotal true + inToken false true true 10 := by
  intro before params
  obtain ⟨⟨after, report⟩, hswap⟩ :=
    exists_of_isOk (show (Swap.execute before params).isOk = true by decide +kernel)
  exact ⟨after, report, hswap,
    (market_actions_conserve_tokens before).1 params after report hswap true⟩

end Store

end Gmsol.Model
