import Gmsol.Accounting.Processor

/-!
# What a decrease does

A decrease settles the position with the collateral processor, moves the pools
that aggregate over positions by the decreased sizes and pays the rest out.
Token conservation of the whole action follows from that of the processor.
-/

namespace Gmsol.Model

open Gmsol.Fallible Gmsol.System CollateralProcessor

variable {isPure : Bool}

namespace DecreasePosition

variable [MarketNum]

/-! ## The checked order -/

omit [MarketNum] in
theorem init_eq_ok {flags : DecreasePositionFlags} {sizeInUsd sizeDeltaUsd : ℕ}
    {capped : DecreasePositionFlags × ℕ}
    (hinit : flags.init sizeInUsd sizeDeltaUsd = .ok capped) :
    capped.2 ≤ sizeInUsd := by
  simp only [DecreasePositionFlags.init, bind_eq_ok, ite_eq_ok, pure_eq_ok,
    reduceCtorEq, and_false, or_false, Except.ok.injEq] at hinit
  obtain ⟨size, hsize, rfl⟩ := hinit
  dsimp only
  omega

/-- What every checked order keeps: valid prices, those of the parameters, and
a size that is at most the position's. -/
structure OrderChecked (position : Position) (params : DecreasePositionParams)
    (order : DecreaseOrder) : Prop where
  prices_eq : order.params.prices = params.prices
  prices_valid : params.prices.isValid = true
  not_empty : position.isEmpty = false
  sizeDeltaUsd_le : order.sizeDeltaUsd ≤ position.sizeInUsd

theorem tryNew_eq_ok {position : Position} {params : DecreasePositionParams}
    {order : DecreaseOrder} (hnew : tryNew position params = .ok order) :
    OrderChecked position params order := by
  simp only [tryNew, Prices.validate, bind_eq_ok, ensure_eq_ok, pure_eq_ok]
    at hnew
  obtain ⟨_, hvalid, _, hempty, capped, hcapped, rfl⟩ := hnew
  exact ⟨rfl, hvalid, hempty, init_eq_ok hcapped⟩

theorem closeAllIfTooSmall_le {position : Position} {market : Market isPure}
    {remainingValue : ℤ} {sizeDeltaUsd result : ℕ}
    (hclose : closeAllIfTooSmall position market remainingValue sizeDeltaUsd =
      .ok result) (hsize : sizeDeltaUsd ≤ position.sizeInUsd) :
    result ≤ position.sizeInUsd := by
  simp only [closeAllIfTooSmall, bind_eq_ok, pure_eq_ok] at hclose
  obtain ⟨_, _, rfl⟩ := hclose
  split_ifs <;> omega

theorem checkPartialClose_eq_ok {position : Position} {market : Market isPure}
    {params : DecreasePositionParams} {order checked : DecreaseOrder}
    (horder : OrderChecked position params order)
    (hcheck : checkPartialClose position market order = .ok checked) :
    OrderChecked position params checked := by
  unfold checkPartialClose at hcheck
  split at hcheck
  · simp only [bind_eq_ok, pure_eq_ok] at hcheck
    obtain ⟨_, _, _, _, _, _, _, _, _, _, _, _, _, _, _, _, _, _, size, hsize,
      rfl⟩ := hcheck
    exact { horder with
      sizeDeltaUsd_le := closeAllIfTooSmall_le hsize horder.sizeDeltaUsd_le }
  · obtain rfl := Except.ok.inj hcheck
    exact horder

theorem checkedOrder_eq_ok {position : Position} {market : Market isPure}
    {params : DecreasePositionParams} {order : DecreaseOrder}
    (hcheck : checkedOrder market position params = .ok order) :
    OrderChecked position params order := by
  simp only [checkedOrder, bind_eq_ok, pure_eq_ok] at hcheck
  obtain ⟨first, hnew, second, hpartial, _, _, rfl⟩ := hcheck
  have hchecked := checkPartialClose_eq_ok (tryNew_eq_ok hnew) hpartial
  unfold checkSwap checkClose
  split_ifs <;> exact { hchecked with }

/-! ## Processing the collateral -/

omit [MarketNum] in
theorem contextOf_consistent (position : Position) (prices : Prices) :
    (contextOf position isPure prices).Consistent isPure := rfl

theorem prepare_eq_ok {market : Market isPure} {position : Position}
    {order : DecreaseOrder} {prepared : Prepared}
    (hprepare : prepare market position order = .ok prepared) :
    position.sizeDeltaInTokens order.sizeDeltaUsd =
        .ok prepared.sizeDeltaInTokens ∧
      position.sizeInTokens ≠ 0 ∧
      position.pendingFundingFees market = .ok prepared.fees.funding := by
  simp only [prepare, bind_eq_ok, pure_eq_ok, Position.pnlValue, okOr_eq_ok]
    at hprepare
  obtain ⟨_, _, _, ⟨_, _, _, _, tokens, htokens, _, hpnl, _, _, rfl⟩, fees,
    hfees, rfl⟩ := hprepare
  refine ⟨htokens, ?_, Position.positionFees_funding hfees⟩
  rintro hzero
  simp [checkedMulDivWithSignedNumerator, checkedMulDiv, hzero] at hpnl

theorem withdraw_settled {context : Context} {state : State isPure}
    {withdrawable : ℕ} {funds : Funds}
    (hwithdraw : withdraw state.funds withdrawable = .ok funds) :
    Settled context state { state with funds } 0 := by
  unfold withdraw at hwithdraw
  split at hwithdraw
  · obtain rfl := Except.ok.inj hwithdraw
    exact .refl state
  · simp only [bind_eq_ok, okOr_eq_ok, pure_eq_ok, checkedAdd_eq_some,
      checkedSub_eq_some] at hwithdraw
    obtain ⟨_, ⟨hle, rfl⟩, _, ⟨_, rfl⟩, rfl⟩ := hwithdraw
    refine ⟨.refl _, Nat.sub_le _ _, rfl, fun token => ?_⟩
    simp only [State.total, signedInToken]
    split_ifs <;> omega

theorem processCollateral_eq_ok {market : Market isPure} {position : Position}
    {order : DecreaseOrder} {processed : ProcessCollateralResult isPure}
    (hvalid : order.params.prices.isValid = true)
    (hprocess : processCollateral market position order = .ok processed) :
    prepare market position order = .ok processed.prepared ∧
      Settled (contextOf position isPure order.params.prices)
        (initialState market position processed.prepared.fees) processed.state
        (excessOf (contextOf position isPure order.params.prices)
          processed.prepared.settlement
          (initialState market position processed.prepared.fees)) := by
  simp only [processCollateral, bind_eq_ok, pure_eq_ok] at hprocess
  obtain ⟨prepared, hprepare, outcome, houtcome, _, _, funds, hfunds, rfl⟩ :=
    hprocess
  refine ⟨hprepare, ?_⟩
  have hprice (side : Bool) :
      0 < (order.params.prices.collateralTokenPrice side).pickPrice false :=
    Prices.min_pos_of_isValid (Prices.collateralTokenPrice_isValid hvalid side)
  have hsettled := processAll_settled (contextOf_consistent position _)
    (hprice _) (hprice _) (process_eq_ok houtcome)
  exact hsettled.trans (withdraw_settled hfunds)

/-! ## Updating the sizes -/

/-- The next position: removed with all its collateral when no size is left,
and otherwise with the remaining sizes and collateral. -/
structure NextPosition (position next : Position) (sizeInUsd sizeInTokens : ℕ)
    (funds : Funds) (outputAmount : ℕ) (shouldRemove : Bool) : Prop where
  shouldRemove_iff : shouldRemove = true ↔ sizeInUsd = 0 ∨ sizeInTokens = 0
  sizeInUsd_eq : next.sizeInUsd = if shouldRemove then 0 else sizeInUsd
  sizeInTokens_eq : next.sizeInTokens = if shouldRemove then 0 else sizeInTokens
  collateralAmount_eq : next.collateralAmount =
    if shouldRemove then 0 else funds.remainingCollateralAmount
  output_eq : outputAmount + next.collateralAmount =
    funds.outputAmount + funds.remainingCollateralAmount
  isLong_eq : next.isLong = position.isLong
  isCollateralTokenLong_eq :
    next.isCollateralTokenLong = position.isCollateralTokenLong

theorem nextPosition_eq_ok {position : Position}
    {sizeInUsd sizeDeltaInTokens : ℕ} {funds : Funds}
    {next : Position × ℕ × Bool}
    (hnext : nextPosition position sizeInUsd sizeDeltaInTokens funds = .ok next) :
    sizeDeltaInTokens ≤ position.sizeInTokens ∧
      NextPosition position next.1 sizeInUsd
        (position.sizeInTokens - sizeDeltaInTokens) funds next.2.1 next.2.2 := by
  simp only [nextPosition, bind_eq_ok, ite_eq_ok, okOr_eq_ok, pure_eq_ok,
    checkedAdd_eq_some, checkedSub_eq_some] at hnext
  obtain ⟨_, ⟨hle, rfl⟩, ⟨hremove, _, ⟨_, rfl⟩, rfl⟩ | ⟨hkeep, rfl⟩⟩ := hnext
  · exact ⟨hle, by simpa using hremove, rfl, rfl, rfl, rfl, rfl, rfl⟩
  · exact ⟨hle, by simpa using hkeep, rfl, rfl, rfl, rfl, rfl, rfl⟩

theorem updateCollateralSum_eq_ok {before after : Market isPure}
    {position : Position} {nextAmount : ℕ}
    (hupdate : updateCollateralSum before position nextAmount = .ok after) :
    ∃ collateralSum, after = { before with collateralSum } ∧
      ∀ side token, ((collateralSum.get side).tokenAmount token : ℤ) =
        (before.collateralSum.get side).tokenAmount token +
          if side = position.isLong then
            signedInToken isPure position.isCollateralTokenLong token
              (nextAmount - position.collateralAmount)
          else 0 := by
  simp only [updateCollateralSum, bind_eq_ok, okOr_eq_ok, pure_eq_ok,
    toOppositeSigned_eq_ok, checkedSub_eq_some] at hupdate
  obtain ⟨_, ⟨hle, rfl⟩, _, ⟨_, rfl⟩, sum, happly, rfl⟩ := hupdate
  refine ⟨_, rfl, fun side token => ?_⟩
  rw [set_tokenAmount happly side token, Nat.cast_sub hle, neg_sub]

theorem sizeDeltaInTokens_zero {position : Position} {tokens : ℕ}
    (htokens : position.sizeDeltaInTokens 0 = .ok tokens)
    (hsize : position.sizeInUsd ≠ 0) : tokens = 0 := by
  unfold Position.sizeDeltaInTokens at htokens
  rw [if_neg hsize] at htokens
  split at htokens
  · simp only [okOr_eq_ok, checkedMulDivCeil_eq_some] at htokens
    simpa using htokens.2.2.symm
  · simp only [okOr_eq_ok, checkedMulDiv_eq_some] at htokens
    simpa using htokens.2.2.symm

/-- The next sizes and collateral, and what the market makes of them. -/
structure SizesUpdated (before : Market isPure) (position : Position)
    (sizeDeltaUsd sizeDeltaInTokens : ℕ) (funds : Funds)
    (updated : Updated isPure) : Prop where
  sizeDeltaInTokens_le : sizeDeltaInTokens ≤ position.sizeInTokens
  next : NextPosition position updated.position
    (position.sizeInUsd - sizeDeltaUsd)
    (position.sizeInTokens - sizeDeltaInTokens) funds updated.outputAmount
    updated.shouldRemove
  tokenTotal : ∀ token, (updated.market.tokenTotal token : ℤ) =
    before.tokenTotal token +
      signedInToken isPure position.isCollateralTokenLong token
        (updated.position.collateralAmount - position.collateralAmount)
  settles : position.sizeInUsd ≠ 0 →
    Settles before updated.market position updated.position
      (position.sizeInUsd - sizeDeltaUsd)
      (position.sizeInTokens - sizeDeltaInTokens)

omit [MarketNum] in
/-- Adding to the collateral sums of one side adds to the tokens. -/
theorem tokenTotal_of_collateralSum {before : Market isPure} {isLong : Bool}
    {collateralSum : Sided (Pool isPure)} {token : Bool} {delta : ℤ}
    (hsum : ∀ side, ((collateralSum.get side).tokenAmount token : ℤ) =
      (before.collateralSum.get side).tokenAmount token +
        if side = isLong then delta else 0) :
    (({ before with collateralSum }.tokenTotal token : ℕ) : ℤ) =
      before.tokenTotal token + delta := by
  have hlong := hsum true
  have hshort := hsum false
  simp only [Market.tokenTotal, Market.poolTotal, Market.collateralTotal,
    Nat.cast_add]
  cases isLong <;>
    simp only [if_true, if_false, Bool.true_eq_false, Bool.false_eq_true]
      at hlong hshort <;>
    omega

theorem updateSizes_eq_ok {position : Position} {order : DecreaseOrder}
    {processed : ProcessCollateralResult isPure} {updated : Updated isPure}
    (htokens : position.sizeDeltaInTokens order.sizeDeltaUsd =
      .ok processed.prepared.sizeDeltaInTokens)
    (hupdate : updateSizes position order processed = .ok updated) :
    SizesUpdated processed.state.market position order.sizeDeltaUsd
      processed.prepared.sizeDeltaInTokens processed.state.funds updated := by
  simp only [updateSizes, bind_eq_ok, okOr_eq_ok, pure_eq_ok,
    toOppositeSigned_eq_ok, checkedSub_eq_some] at hupdate
  obtain ⟨_, ⟨hsizeLe, rfl⟩, withBorrowing, hwithBorrowing, next, hnext,
    withCollateral, hwithCollateral, _, ⟨_, rfl⟩, _, ⟨_, rfl⟩, withInterest,
    hwithInterest, rfl⟩ := hupdate
  obtain ⟨htokensLe, hnext⟩ := nextPosition_eq_ok hnext
  obtain ⟨totalBorrowing, rfl, hborrowing⟩ :=
    Position.updateTotalBorrowing_eq_ok hwithBorrowing
  obtain ⟨collateralSum, rfl, hsum⟩ := updateCollateralSum_eq_ok hwithCollateral
  obtain ⟨openInterest, inTokens, rfl, hinterest, hinterestTotal, hinterestTokens⟩ :=
    Position.updateOpenInterest_eq_ok hwithInterest
  clear hwithBorrowing hwithCollateral hwithInterest
  dsimp only [Position.settleFees] at *
  exact {
    sizeDeltaInTokens_le := htokensLe
    next := { hnext with }
    tokenTotal := fun token => tokenTotal_of_collateralSum (hsum · token)
    settles := fun hsize => {
      isLong_eq := hnext.isLong_eq
      isCollateralTokenLong_eq := hnext.isCollateralTokenLong_eq
      openInterest := fun side token => by
        rw [Nat.cast_sub hsizeLe, sub_sub_cancel_left]
        simpa [hnext.isLong_eq, hnext.isCollateralTokenLong_eq] using
          hinterest side token
      openInterest_total := fun side => by
        rw [Nat.cast_sub hsizeLe, sub_sub_cancel_left]
        simpa [hnext.isLong_eq] using hinterestTotal side
      openInterestInTokens := fun side token => by
        have hzero : -(order.sizeDeltaUsd : ℤ) = 0 →
            -(processed.prepared.sizeDeltaInTokens : ℤ) = 0 := by
          intro hdelta
          rw [show order.sizeDeltaUsd = 0 by omega] at htokens
          rw [sizeDeltaInTokens_zero htokens hsize, Nat.cast_zero, neg_zero]
        rw [Nat.cast_sub htokensLe, sub_sub_cancel_left]
        simpa [hnext.isLong_eq, hnext.isCollateralTokenLong_eq] using
          hinterestTokens hzero side token
      collateralSum := hsum
      totalBorrowing := hborrowing
      borrowing_settled := rfl
      funding_settled := by
        simp [hnext.isLong_eq, hnext.isCollateralTokenLong_eq,
          Market.fundingFeeAmountPerSize]
      claimable_settled := fun token => by
        cases token <;>
          simp [hnext.isLong_eq, Market.claimableFundingFeeAmountPerSize,
            Sided.get]
      borrowingFactor_eq := rfl
      fundingAmountPerSize_eq := rfl
      claimableFundingAmountPerSize_eq := rfl
      longTokenBalance_eq := rfl
      shortTokenBalance_eq := rfl } }

omit [MarketNum] in
theorem onDecreased_eq_ok {position : Position} {before : Market isPure}
    {final : Market isPure × Position}
    (hdone : onDecreased position before = .ok final) :
    ∃ tradeCount updatedAtSlot decreasedAt tradeId,
      final = ({ before with tradeCount },
        { position with updatedAtSlot, decreasedAt, tradeId }) := by
  simp only [onDecreased, Market.nextTradeId, bind_eq_ok, ite_eq_ok, pure_eq_ok,
    reduceCtorEq, and_false, or_false] at hdone
  obtain ⟨_, ⟨_, hnext⟩, rfl⟩ := hdone
  obtain rfl := Except.ok.inj hnext
  exact ⟨_, _, _, _, rfl⟩

/-! ## The outputs -/

theorem swapCollateralTokenToPnlToken_eq_ok {before : Market isPure}
    {position : Position} {prices : Prices} {swap : DecreasePositionSwapType}
    {outputAmount secondaryAmount : ℕ} {swapped : Market isPure × ℕ × ℕ}
    (hswap : swapCollateralTokenToPnlToken before position prices swap
      outputAmount secondaryAmount = .ok swapped) :
    before.KeepsPositions swapped.1 ∧
      ∀ token, (swapped.1.poolTotal token : ℤ) +
          signedInToken isPure position.isCollateralTokenLong token swapped.2.1 +
          signedInToken isPure position.isLong token swapped.2.2 =
        before.poolTotal token +
          signedInToken isPure position.isCollateralTokenLong token outputAmount +
          signedInToken isPure position.isLong token secondaryAmount := by
  unfold swapCollateralTokenToPnlToken at hswap
  split at hswap
  · simp only [bind_eq_ok, ensure_eq_ok] at hswap
    obtain ⟨_, hsides, hswap⟩ := hswap
    split at hswap
    · rename_i swapped hexecute
      simp only [bind_eq_ok, okOr_eq_ok, pure_eq_ok, checkedAdd_eq_some] at hswap
      obtain ⟨_, ⟨_, rfl⟩, rfl⟩ := hswap
      obtain ⟨hkeeps, _, hpool⟩ :=
        Swap.tryExecute_eq_ok (Swap.execute_eq_ok hexecute)
      refine ⟨hkeeps, fun token => ?_⟩
      have hout : (!position.isCollateralTokenLong) = position.isLong :=
        (Bool.eq_not.mpr hsides.symm).symm
      have hpoolToken := hpool token
      simp only [hout] at hpoolToken
      simp only [hpoolToken, Nat.cast_add, Nat.cast_zero, signedInToken_zero,
        signedInToken_add]
      ring
    · exact absurd hswap (by simp)
    · obtain rfl := Except.ok.inj hswap
      exact ⟨.refl _, fun _ => rfl⟩
  · obtain rfl := Except.ok.inj hswap
    exact ⟨.refl _, fun _ => rfl⟩

omit [MarketNum] in
theorem Position.signedInToken_of_tokensSame {position : Position}
    (hsame : position.arePnlAndCollateralTokensTheSame isPure = true)
    (token : Bool) (amount : ℤ) :
    signedInToken isPure position.isLong token amount =
      signedInToken isPure position.isCollateralTokenLong token amount :=
  (contextOf_consistent position ⟨⟨0, 0⟩, ⟨0, 0⟩, ⟨0, 0⟩⟩).signedInToken_eq hsame
    token amount

theorem mergeOutputs_eq_ok {position : Position}
    {outputAmount secondaryAmount : ℕ} {outputs : ℕ × ℕ}
    (hmerge : mergeOutputs position isPure outputAmount secondaryAmount =
      .ok outputs) (token : Bool) :
    signedInToken isPure position.isCollateralTokenLong token outputs.1 +
        signedInToken isPure position.isLong token outputs.2 =
      signedInToken isPure position.isCollateralTokenLong token outputAmount +
        signedInToken isPure position.isLong token secondaryAmount := by
  unfold mergeOutputs at hmerge
  split at hmerge
  · rename_i hsame
    simp only [bind_eq_ok, okOr_eq_ok, pure_eq_ok, checkedAdd_eq_some] at hmerge
    obtain ⟨_, ⟨_, rfl⟩, rfl⟩ := hmerge
    have hsides (amount : ℤ) := Position.signedInToken_of_tokensSame hsame.1 token amount
    rw [hsides, hsides, Nat.cast_zero, signedInToken_zero, Nat.cast_add,
      signedInToken_add, add_zero]
  · obtain rfl := Except.ok.inj hmerge
    rfl

/-! ## The whole action -/

/-- The tokens a decrease creates. -/
def excess (market : Market isPure) (position : Position)
    (params : DecreasePositionParams) : ℕ :=
  let settled := do
    let order ← checkedOrder market position params
    let prepared ← prepare market position order
    return excessOf (contextOf position isPure order.params.prices)
      prepared.settlement (initialState market position prepared.fees)
  settled.toOption.getD 0

theorem excess_eq_of_ok {market : Market isPure} {position : Position}
    {params : DecreasePositionParams} {order : DecreaseOrder}
    {prepared : Prepared}
    (horder : checkedOrder market position params = .ok order)
    (hprepare : prepare market position order = .ok prepared) :
    excess market position params =
      excessOf (contextOf position isPure order.params.prices)
        prepared.settlement (initialState market position prepared.fees) := by
  simp [excess, horder, hprepare, Except.toOption, bind, Except.bind, pure,
    Except.pure]

end DecreasePosition

/-- The effects of a decrease. -/
structure DecreaseEffects [MarketNum] (before after : Market isPure)
    (position next : Position) (params : DecreasePositionParams)
    (report : DecreasePositionReport) : Prop where
  sizeDeltaUsd_le : report.sizeDeltaUsd ≤ position.sizeInUsd
  sizeDeltaInTokens_le : report.sizeDeltaInTokens ≤ position.sizeInTokens
  sizeDeltaInTokens_eq : position.sizeDeltaInTokens report.sizeDeltaUsd =
    .ok report.sizeDeltaInTokens
  order_eq : ∃ order,
    DecreasePosition.checkedOrder before position params = .ok order ∧
      order.sizeDeltaUsd = report.sizeDeltaUsd
  tokens_ne_zero : position.sizeInTokens ≠ 0
  shouldRemove_iff : report.shouldRemove = true ↔
    position.sizeInUsd - report.sizeDeltaUsd = 0 ∨
      position.sizeInTokens - report.sizeDeltaInTokens = 0
  sizeInUsd_eq : next.sizeInUsd =
    if report.shouldRemove then 0 else position.sizeInUsd - report.sizeDeltaUsd
  sizeInTokens_eq : next.sizeInTokens =
    if report.shouldRemove then 0
    else position.sizeInTokens - report.sizeDeltaInTokens
  collateral_removed : report.shouldRemove = true → next.collateralAmount = 0
  collateral_le : next.collateralAmount ≤ position.collateralAmount
  isOutputTokenLong_eq : report.isOutputTokenLong = position.isCollateralTokenLong
  funding : position.pendingFundingFees before = .ok report.fees.funding
  settles : position.sizeInUsd ≠ 0 →
    Settles before after position next
      (position.sizeInUsd - report.sizeDeltaUsd)
      (position.sizeInTokens - report.sizeDeltaInTokens)
  tokenTotal : ∀ token,
    after.tokenTotal token + Flow.outputs isPure report token +
        inToken isPure position.isCollateralTokenLong token
          report.fundingPaidInCollateral =
      before.tokenTotal token +
        inToken isPure position.isCollateralTokenLong token
          (DecreasePosition.excess before position params)

theorem Settles.of_keepsPositions [MarketNum] {first second third : Market isPure}
    {position next : Position} {sizeInUsd sizeInTokens : ℕ}
    (hkeeps : first.KeepsPositions second)
    (hsettles : Settles second third position next sizeInUsd sizeInTokens) :
    Settles first third position next sizeInUsd sizeInTokens := by
  obtain ⟨_, _, _, _, _, rfl⟩ := hkeeps
  exact { hsettles with }

theorem Settles.then_keepsPositions [MarketNum]
    {first second third : Market isPure}
    {position next : Position} {sizeInUsd sizeInTokens : ℕ}
    (hsettles : Settles first second position next sizeInUsd sizeInTokens)
    (hkeeps : second.KeepsPositions third) :
    Settles first third position next sizeInUsd sizeInTokens := by
  obtain ⟨_, _, _, _, _, rfl⟩ := hkeeps
  exact { hsettles with }

namespace DecreasePosition

variable [MarketNum]

theorem execute_effects {before after : Market isPure} {position next : Position}
    {params : DecreasePositionParams} {report : DecreasePositionReport}
    (hexecute : execute before position params = .ok (after, next, report)) :
    DecreaseEffects before after position next params report := by
  simp only [execute, bind_eq_ok, pure_eq_ok] at hexecute
  obtain ⟨order, horder, processed, hprocess, updated, hupdate, _, _, stamped,
    hstamp, swapped, hswap, outputs, hmerge, hresult⟩ := hexecute
  have hchecked := checkedOrder_eq_ok horder
  obtain ⟨hprepare, hsettled⟩ := processCollateral_eq_ok
    (by rw [hchecked.prices_eq]; exact hchecked.prices_valid) hprocess
  obtain ⟨htokens, htokensZero, hfunding⟩ := prepare_eq_ok hprepare
  have hsizes := updateSizes_eq_ok htokens hupdate
  obtain ⟨tradeCount, slot, time, tradeId, rfl⟩ := onDecreased_eq_ok hstamp
  obtain ⟨hkeepsSwap, hswapPool⟩ := swapCollateralTokenToPnlToken_eq_ok hswap
  have hmerged := mergeOutputs_eq_ok hmerge
  have hexcess := excess_eq_of_ok horder hprepare
  simp only [Prod.mk.injEq] at hresult
  obtain ⟨rfl, rfl, rfl⟩ := hresult
  exact {
    sizeDeltaUsd_le := hchecked.sizeDeltaUsd_le
    sizeDeltaInTokens_le := hsizes.sizeDeltaInTokens_le
    sizeDeltaInTokens_eq := htokens
    order_eq := ⟨order, horder, rfl⟩
    tokens_ne_zero := htokensZero
    shouldRemove_iff := hsizes.next.shouldRemove_iff
    sizeInUsd_eq := hsizes.next.sizeInUsd_eq
    sizeInTokens_eq := hsizes.next.sizeInTokens_eq
    collateral_removed := fun hremove => by
      rw [hsizes.next.collateralAmount_eq]
      exact if_pos hremove
    collateral_le := by
      have hremaining := hsettled.remainingCollateral_le
      have hcollateral := hsizes.next.collateralAmount_eq
      dsimp only [initialState] at hremaining ⊢
      split_ifs at hcollateral <;> omega
    isOutputTokenLong_eq := rfl
    funding := by
      rw [hfunding]
      exact congrArg Except.ok hsettled.funding_eq.symm
    settles := fun hsize => by
      have hstamped : Settles before { updated.market with tradeCount } position
          { updated.position with
            updatedAtSlot := slot, decreasedAt := time, tradeId }
          (position.sizeInUsd - order.sizeDeltaUsd)
          (position.sizeInTokens - processed.prepared.sizeDeltaInTokens) :=
        { (hsizes.settles hsize).of_keepsPositions hsettled.keepsPositions with }
      exact hstamped.then_keepsPositions hkeepsSwap
    tokenTotal := fun token => by
      have hprocessed := hsettled.total_eq token
      have hcollateral := hsettled.keepsPositions.collateralTotal_eq token
      have hupdated := hsizes.tokenTotal token
      have houtput := congrArg
        (fun amount : ℕ => signedInToken isPure position.isCollateralTokenLong
          token amount) hsizes.next.output_eq
      have hswapped := hswapPool token
      have hsum := hkeepsSwap.collateralTotal_eq token
      have hfinal := hmerged token
      have hstate : ({ updated.market with tradeCount } : Market isPure).poolTotal
          token + ({ updated.market with tradeCount } :
            Market isPure).collateralTotal token =
          updated.market.tokenTotal token := rfl
      rw [← hexcess] at hprocessed
      zify at hcollateral hsum hstate ⊢
      simp only [State.total, initialState, contextOf, ClaimableCollateral.zero,
        Nat.cast_zero, add_zero, zero_add, signedInToken_zero] at hprocessed
      simp only [Flow.outputs, report, Nat.cast_add, natCast_inToken,
        Market.tokenTotal, signedInToken_add, sub_eq_add_neg, signedInToken_neg]
        at hprocessed hupdated houtput hstate ⊢
      dsimp only [initialState] at hcollateral
      linarith }

/-! ## Conservation -/

/-- The settlement reaches the fees other than funding with too little of the
collateral token to pay them, and what is missing is worth less than one pnl
token. -/
def FeesFallShort (market : Market isPure) (position : Position)
    (params : DecreasePositionParams) : Prop :=
  ∃ order prepared state cost,
    checkedOrder market position params = .ok order ∧
    prepare market position order = .ok prepared ∧
    processBeforeFees (contextOf position isPure order.params.prices)
      prepared.settlement (initialState market position prepared.fees) =
        .ok (state, none) ∧
    state.fees.totalCostExcludingFunding = .ok cost ∧
    state.funds.outputAmount + state.funds.remainingCollateralAmount < cost ∧
    (cost - (state.funds.outputAmount + state.funds.remainingCollateralAmount)) *
        (position.collateralPrice order.params.prices).pickPrice false <
      (order.params.prices.collateralTokenPrice position.isLong).pickPrice false

theorem feesFallShort_iff (market : Market isPure) (position : Position)
    (params : DecreasePositionParams) :
    FeesFallShort market position params ↔ excess market position params ≠ 0 := by
  constructor
  · rintro ⟨order, prepared, state, cost, horder, hprepare, hbefore, hcost, hlt,
      hsmall⟩
    rw [excess_eq_of_ok horder hprepare]
    simp only [excessOf, hbefore, hcost]
    exact ((if_pos hsmall).trans_ne (Nat.sub_ne_zero_of_lt hlt))
  · intro hexcess
    cases horder : checkedOrder market position params with
    | error => simp [excess, horder, Except.toOption, bind, Except.bind] at hexcess
    | ok order =>
        cases hprepare : prepare market position order with
        | error =>
            simp [excess, horder, hprepare, Except.toOption, bind, Except.bind]
              at hexcess
        | ok prepared =>
            rw [excess_eq_of_ok horder hprepare] at hexcess
            unfold excessOf at hexcess
            split at hexcess
            · rename_i state hbefore
              split at hexcess
              · rename_i cost hcost
                simp only [feesExcess] at hexcess
                split_ifs at hexcess with hsmall
                · exact ⟨order, prepared, state, cost, horder, hprepare, hbefore,
                    hcost, by omega, hsmall⟩
                · exact absurd rfl hexcess
              · exact absurd rfl hexcess
            · exact absurd rfl hexcess

instance (market : Market isPure) (position : Position)
    (params : DecreasePositionParams) :
    Decidable (FeesFallShort market position params) :=
  decidable_of_iff _ (feesFallShort_iff market position params).symm

/-- A decrease pays out exactly the tokens that leave the market, unless the
fees fall short by less than one pnl token. -/
theorem decrease_conserves_tokens_iff {before after : Market isPure}
    {position next : Position} {params : DecreasePositionParams}
    {report : DecreasePositionReport}
    (hexecute : execute before position params = .ok (after, next, report)) :
    (∀ token, after.tokenTotal token + Flow.outputs isPure report token +
        inToken isPure position.isCollateralTokenLong token
          report.fundingPaidInCollateral = before.tokenTotal token) ↔
      ¬FeesFallShort before position params := by
  have htotal := (execute_effects hexecute).tokenTotal
  rw [feesFallShort_iff, not_not]
  constructor
  · intro hconserved
    have hside := htotal position.isCollateralTokenLong
    rw [hconserved position.isCollateralTokenLong] at hside
    simpa [inToken] using hside
  · intro hnone token
    rw [htotal token, hnone]
    simp [inToken]

end DecreasePosition

namespace DecreasePosition

section Store

attribute [local instance] storeNumbers

/-- A market with an order fee of a tenth of the size, and a long of 480 usd
that holds its collateral of 52 in the short token. -/
def feeMarketRun : Option (List Flow × World false Unit) :=
  let prices : Prices := ⟨⟨120, 120⟩, ⟨120, 120⟩, ⟨1, 1⟩⟩
  let config : MarketConfig :=
    { MarketConfig.unrestricted with orderFeeParams := ⟨10 ^ 19, 10 ^ 19, 0, none⟩ }
  perform World.step (fun _ _ => True)
    ([], World.init config true ⟨0, 0⟩ (fun _ => true) (fun _ => false))
    [.deposit ⟨1000, 100000, prices⟩, .increase () ⟨100, 480, none, prices⟩]

/-- Closing the long of `feeMarketRun` at the price `price`. -/
def closeAt (price : ℕ) : DecreasePositionParams :=
  ⟨⟨⟨price, price⟩, ⟨price, price⟩, ⟨1, 1⟩⟩, 480, none, 0, ⟨true, false, true⟩,
    .noSwap⟩

/-- At a price of 120 the whole order fee is paid and tokens are conserved. -/
theorem decrease_conserves_tokens_at_120 :
    ∃ flows world after next report,
      feeMarketRun = some (flows, world) ∧
      execute world.market (world.positions ()) (closeAt 120) =
        .ok (after, next, report) ∧
      ∀ token, after.tokenTotal token + Flow.outputs false report token +
        inToken false (world.positions ()).isCollateralTokenLong token
          report.fundingPaidInCollateral = world.market.tokenTotal token := by
  obtain ⟨⟨flows, world⟩, hrun, hclose, hfees⟩ :
      ∃ done, feeMarketRun = some done ∧
        (execute done.2.market (done.2.positions ()) (closeAt 120)).isOk = true ∧
        ¬FeesFallShort done.2.market (done.2.positions ()) (closeAt 120) :=
    exists_of_any (by decide +kernel)
  obtain ⟨⟨after, next, report⟩, hexecute⟩ := exists_of_isOk hclose
  exact ⟨flows, world, after, next, report, hrun, hexecute,
    (decrease_conserves_tokens_iff hexecute).mpr hfees⟩

/-- At a price of 114 the loss leaves 28 of the collateral for a fee of 48.
The missing 20 are worth less than one long token, so nothing is asked for in
long tokens and the pools are credited with all 48. -/
theorem decrease_creates_tokens_at_114 :
    ∃ flows world after next report,
      feeMarketRun = some (flows, world) ∧
      (closeAt 114).prices.isValid = true ∧
      execute world.market (world.positions ()) (closeAt 114) =
        .ok (after, next, report) ∧
      ¬∀ token, after.tokenTotal token + Flow.outputs false report token +
        inToken false (world.positions ()).isCollateralTokenLong token
          report.fundingPaidInCollateral = world.market.tokenTotal token := by
  obtain ⟨⟨flows, world⟩, hrun, hcreates⟩ :
      ∃ done, feeMarketRun = some done ∧
        (execute done.2.market (done.2.positions ()) (closeAt 114)).toOption.any
          (fun result => decide (¬∀ token,
            result.1.tokenTotal token + Flow.outputs false result.2.2 token +
              inToken false (done.2.positions ()).isCollateralTokenLong token
                result.2.2.fundingPaidInCollateral =
              done.2.market.tokenTotal token)) = true :=
    exists_of_any (by decide +kernel)
  obtain ⟨⟨after, next, report⟩, hexecute, htokens⟩ :=
    exists_ok_iff_any.mpr hcreates
  exact ⟨flows, world, after, next, report, hrun, by decide, hexecute, htokens⟩

end Store

end DecreasePosition

end Gmsol.Model
