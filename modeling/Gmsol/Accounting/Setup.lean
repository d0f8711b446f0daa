import Gmsol.System.Steps

/-!
# What the actions of an order leave alone

Swaps, changes of positions and updates of the fee state do not touch the configuration of
a market, whether it is enabled, the time they see, the supply of its token, or the
balances that are recorded for it.
-/

namespace Gmsol.Model

open Gmsol.Fallible

variable {isPure : Bool}

namespace Market

/-- The parts of a market that no action of an order changes. -/
structure KeepsSetup (before after : Market isPure) : Prop where
  config_eq : after.config = before.config
  isEnabled_eq : after.isEnabled = before.isEnabled
  clock_eq : after.clock = before.clock
  totalSupply_eq : after.totalSupply = before.totalSupply

theorem KeepsSetup.refl (market : Market isPure) : market.KeepsSetup market :=
  ⟨rfl, rfl, rfl, rfl⟩

theorem KeepsSetup.trans {first second third : Market isPure}
    (hleft : first.KeepsSetup second) (hright : second.KeepsSetup third) :
    first.KeepsSetup third where
  config_eq := hright.config_eq.trans hleft.config_eq
  isEnabled_eq := hright.isEnabled_eq.trans hleft.isEnabled_eq
  clock_eq := hright.clock_eq.trans hleft.clock_eq
  totalSupply_eq := hright.totalSupply_eq.trans hleft.totalSupply_eq

theorem KeepsSetup.restore {before after : Market isPure} (hkeeps : before.KeepsSetup after) :
    { after with
      config := before.config
      isEnabled := before.isEnabled
      clock := before.clock
      totalSupply := before.totalSupply } = after := by
  obtain ⟨hconfig, henabled, hclock, hsupply⟩ := hkeeps
  rw [← hconfig, ← henabled, ← hclock, ← hsupply]

theorem setBalanceForToken_keepsSetup (market : Market isPure) (side : Bool)
    (balance : ℕ) : market.KeepsSetup (market.setBalanceForToken side balance) := by
  unfold setBalanceForToken
  split_ifs
  · exact ⟨rfl, rfl, rfl, rfl⟩
  · exact ⟨rfl, rfl, rfl, rfl⟩

theorem recordTransferredIn_keepsSetup {before after : Market isPure} {side : Bool}
    {amount : ℕ} (hrecord : before.recordTransferredIn side amount = .ok after) :
    before.KeepsSetup after := by
  simp only [recordTransferredIn, bind_eq_ok, ensure_eq_ok, pure_eq_ok] at hrecord
  obtain ⟨_, _, rfl⟩ := hrecord
  exact setBalanceForToken_keepsSetup before side _

theorem recordTransferredOut_keepsSetup {before after : Market isPure} {side : Bool}
    {amount : ℕ} (hrecord : before.recordTransferredOut side amount = .ok after) :
    before.KeepsSetup after := by
  simp only [recordTransferredOut, bind_eq_ok, ensure_eq_ok, pure_eq_ok] at hrecord
  obtain ⟨_, _, rfl⟩ := hrecord
  exact setBalanceForToken_keepsSetup before side _

/-- The setup, and the recorded balances: they only change when tokens are transferred. -/
structure KeepsRecords (before after : Market isPure) : Prop
    extends before.KeepsSetup after, before.KeepsBalances after

theorem KeepsRecords.refl (market : Market isPure) : market.KeepsRecords market :=
  ⟨.refl market, ⟨rfl, rfl⟩⟩

theorem KeepsRecords.trans {first second third : Market isPure}
    (hleft : first.KeepsRecords second) (hright : second.KeepsRecords third) :
    first.KeepsRecords third where
  toKeepsSetup := hleft.toKeepsSetup.trans hright.toKeepsSetup
  longTokenBalance_eq := hright.longTokenBalance_eq.trans hleft.longTokenBalance_eq
  shortTokenBalance_eq := hright.shortTokenBalance_eq.trans hleft.shortTokenBalance_eq

variable [MarketNum] {before after : Market isPure} {side : Bool} {delta : ℤ}

theorem applyDelta_keepsRecords (happly : before.applyDelta side delta = .ok after) :
    before.KeepsRecords after := by
  simp only [applyDelta, bind_eq_ok, pure_eq_ok] at happly
  obtain ⟨_, _, rfl⟩ := happly
  exact ⟨⟨rfl, rfl, rfl, rfl⟩, ⟨rfl, rfl⟩⟩

theorem applyDeltaToClaimableFeePool_keepsRecords
    (happly : before.applyDeltaToClaimableFeePool side delta = .ok after) :
    before.KeepsRecords after := by
  simp only [applyDeltaToClaimableFeePool, bind_eq_ok, pure_eq_ok] at happly
  obtain ⟨_, _, rfl⟩ := happly
  exact ⟨⟨rfl, rfl, rfl, rfl⟩, ⟨rfl, rfl⟩⟩

theorem applyDeltaToPositionImpactPool_keepsRecords
    (happly : before.applyDeltaToPositionImpactPool delta = .ok after) :
    before.KeepsRecords after := by
  simp only [applyDeltaToPositionImpactPool, bind_eq_ok, pure_eq_ok] at happly
  obtain ⟨_, _, rfl⟩ := happly
  exact ⟨⟨rfl, rfl, rfl, rfl⟩, ⟨rfl, rfl⟩⟩

end Market

open Market (KeepsRecords)

variable [MarketNum]

theorem Swap.execute_keepsRecords {before : Market isPure} {params : SwapParams}
    {done : Market isPure × SwapReport} (hexecute : execute before params = .ok done) :
    before.KeepsRecords done.1 := by
  obtain ⟨after, report⟩ := done
  have hdone := Swap.execute_eq_ok hexecute
  simp only [tryExecute, bind_eq_ok, pure_eq_ok, Prod.mk.injEq] at hdone
  obtain ⟨_, _, _, _, _, _, _, _, _, _, _, _, _, _, _, _, _, _, _, _, _, _, rfl, -⟩ := hdone
  exact ⟨⟨rfl, rfl, rfl, rfl⟩, ⟨rfl, rfl⟩⟩

/-! ## The fee state -/

theorem UpdateBorrowingState.execute_keepsRecords {before : Market isPure} {prices : Prices}
    {done : Market isPure × UpdateBorrowingReport}
    (hexecute : execute before prices = .ok done) : before.KeepsRecords done.1 := by
  obtain ⟨_, _, heq, -⟩ := execute_eq_ok hexecute
  rw [heq]
  exact ⟨⟨rfl, rfl, rfl, rfl⟩, ⟨rfl, rfl⟩⟩

theorem UpdateFundingState.execute_keepsRecords {before : Market isPure} {prices : Prices}
    {done : Market isPure × UpdateFundingReport}
    (hexecute : execute before prices = .ok done) : before.KeepsRecords done.1 := by
  obtain ⟨_, _, _, _, heq⟩ := execute_eq_ok hexecute
  rw [heq]
  exact ⟨⟨rfl, rfl, rfl, rfl⟩, ⟨rfl, rfl⟩⟩

theorem DistributePositionImpact.execute_keepsRecords {before : Market isPure}
    {done : Market isPure × DistributePositionImpactReport}
    (hexecute : execute before = .ok done) : before.KeepsRecords done.1 := by
  simp only [execute, bind_eq_ok, pure_eq_ok] at hexecute
  obtain ⟨_, _, next, hnext, rfl⟩ := hexecute
  have hclocked (clocks : Clocks) : before.KeepsRecords { before with clocks } :=
    ⟨⟨rfl, rfl, rfl, rfl⟩, ⟨rfl, rfl⟩⟩
  split_ifs at hnext
  · obtain rfl := Except.ok.inj hnext
    exact hclocked _
  · obtain ⟨_, _, happly⟩ := bind_eq_ok.mp hnext
    exact (hclocked _).trans (Market.applyDeltaToPositionImpactPool_keepsRecords happly)

/-! ## Changes of positions -/

namespace Position

theorem updateTotalBorrowing_keepsRecords {position : Position} {before after : Market isPure}
    {nextSize nextFactor : ℕ}
    (hupdate : position.updateTotalBorrowing before nextSize nextFactor = .ok after) :
    before.KeepsRecords after := by
  obtain ⟨_, rfl, -⟩ := updateTotalBorrowing_eq_ok hupdate
  exact ⟨⟨rfl, rfl, rfl, rfl⟩, ⟨rfl, rfl⟩⟩

theorem updateOpenInterest_keepsRecords {position : Position} {before after : Market isPure}
    {sizeDelta tokensDelta : ℤ}
    (hupdate : position.updateOpenInterest before sizeDelta tokensDelta = .ok after) :
    before.KeepsRecords after := by
  obtain ⟨_, _, rfl, -⟩ := updateOpenInterest_eq_ok hupdate
  exact ⟨⟨rfl, rfl, rfl, rfl⟩, ⟨rfl, rfl⟩⟩

end Position

theorem IncreasePosition.execute_keepsRecords {before after : Market isPure}
    {position next : Position} {params : IncreasePositionParams}
    {report : IncreasePositionReport}
    (hexecute : execute before position params = .ok (after, next, report)) :
    before.KeepsRecords after := by
  simp only [execute, bind_eq_ok, pure_eq_ok] at hexecute
  obtain ⟨_, _, _, _, processed, hprocessed, _, _, _, _, withImpact, hwithImpact, _, _,
    withBorrowing, hwithBorrowing, _, _, _, _, _, _, withInterest, hwithInterest, _, _, _,
    _, final, hfinal, hresult⟩ := hexecute
  obtain ⟨_, _, _, heq, -⟩ := processCollateral_eq_ok hprocessed
  have hcollateral : before.KeepsRecords processed.1 := by
    rw [heq]
    exact ⟨⟨rfl, rfl, rfl, rfl⟩, ⟨rfl, rfl⟩⟩
  obtain ⟨tradeCount, _, _, _, rfl⟩ := onIncreased_eq_ok hfinal
  obtain rfl := congrArg Prod.fst hresult
  have hcounted : withInterest.KeepsRecords { withInterest with tradeCount } :=
    ⟨⟨rfl, rfl, rfl, rfl⟩, ⟨rfl, rfl⟩⟩
  exact (((hcollateral.trans
    (Market.applyDeltaToPositionImpactPool_keepsRecords hwithImpact)).trans
      (Position.updateTotalBorrowing_keepsRecords hwithBorrowing)).trans
        (Position.updateOpenInterest_keepsRecords hwithInterest)).trans hcounted

/-! ## The settlement of a decrease -/

namespace CollateralProcessor

variable {context : Context} {before after : State isPure} {outcome : Outcome isPure}

theorem applyNonzeroDelta_keepsRecords {market next : Market isPure} {side : Bool}
    {delta : ℤ} (happly : applyNonzeroDelta market side delta = .ok next) :
    market.KeepsRecords next := by
  unfold applyNonzeroDelta at happly
  split_ifs at happly
  · obtain rfl := Except.ok.inj happly
    exact .refl market
  · exact Market.applyDelta_keepsRecords happly

theorem payToPrimaryPool_keepsRecords {market next : Market isPure}
    {collateralAmount secondaryAmount : ℕ}
    (hpay : payToPrimaryPool context market collateralAmount secondaryAmount = .ok next) :
    market.KeepsRecords next := by
  simp only [payToPrimaryPool, bind_eq_ok] at hpay
  obtain ⟨_, _, _, _, middle, hcollateral, hsecondary⟩ := hpay
  exact (applyNonzeroDelta_keepsRecords hcollateral).trans
    (applyNonzeroDelta_keepsRecords hsecondary)

theorem creditImpactPool_keepsRecords {market next : Market isPure} {amount price : ℕ}
    {message : String}
    (hcredit : creditImpactPool context market amount price message = .ok next) :
    market.KeepsRecords next := by
  unfold creditImpactPool at hcredit
  split_ifs at hcredit
  · obtain rfl := Except.ok.inj hcredit
    exact .refl market
  · simp only [bind_eq_ok] at hcredit
    obtain ⟨_, _, _, _, happly⟩ := hcredit
    exact Market.applyDeltaToPositionImpactPool_keepsRecords happly

theorem payForCost_keepsRecords {state : State isPure} {cost : ℕ}
    {receive : State isPure → Payment → Result (State isPure)} {step : InsolventCloseStep}
    (hreceive : ∀ payment first second, receive first payment = .ok second →
      first.market.KeepsRecords second.market)
    (hpay : payForCost context state cost receive step = .ok outcome) :
    state.market.KeepsRecords outcome.1.market := by
  simp only [payForCost, bind_eq_ok, pure_eq_ok] at hpay
  obtain ⟨payment, -, received, hreceived, rfl⟩ := hpay
  have hkept := hreceive _ _ _ hreceived
  exact hkept

theorem receiveFunding_keepsRecords {payment : Payment}
    (hreceive : receiveFunding before payment = .ok after) :
    before.market.KeepsRecords after.market := by
  simp only [receiveFunding, bind_eq_ok, pure_eq_ok] at hreceive
  obtain ⟨_, _, rfl⟩ := hreceive
  exact .refl _

theorem receiveToPool_keepsRecords {payment : Payment}
    (hreceive : receiveToPool context before payment = .ok after) :
    before.market.KeepsRecords after.market := by
  simp only [receiveToPool, bind_eq_ok, pure_eq_ok] at hreceive
  obtain ⟨market, hpay, rfl⟩ := hreceive
  exact payToPrimaryPool_keepsRecords hpay

theorem receiveFees_keepsRecords {payment : Payment}
    (hreceive : receiveFees context before payment = .ok after) :
    before.market.KeepsRecords after.market := by
  unfold receiveFees at hreceive
  split_ifs at hreceive
  · simp only [bind_eq_ok, pure_eq_ok] at hreceive
    obtain ⟨_, _, _, _, withPool, hpool, _, _, _, _, market, hmarket, rfl⟩ := hreceive
    exact (Market.applyDelta_keepsRecords hpool).trans
      (Market.applyDeltaToClaimableFeePool_keepsRecords hmarket)
  · simp only [bind_eq_ok, pure_eq_ok] at hreceive
    obtain ⟨market, hpay, rfl⟩ := hreceive
    exact payToPrimaryPool_keepsRecords hpay

theorem receiveImpact_keepsRecords {payment : Payment}
    (hreceive : receiveImpact context before payment = .ok after) :
    before.market.KeepsRecords after.market := by
  simp only [receiveImpact, bind_eq_ok, pure_eq_ok] at hreceive
  obtain ⟨paid, hpay, credited, hcredited, market, hmarket, rfl⟩ := hreceive
  exact ((payToPrimaryPool_keepsRecords hpay).trans
    (creditImpactPool_keepsRecords hcredited)).trans (creditImpactPool_keepsRecords hmarket)

theorem receiveDiff_keepsRecords {payment : Payment}
    (hreceive : receiveDiff before payment = .ok after) :
    before.market.KeepsRecords after.market := by
  simp only [receiveDiff, bind_eq_ok, pure_eq_ok] at hreceive
  obtain ⟨_, _, _, _, rfl⟩ := hreceive
  exact .refl _

theorem payForFundingFees_keepsRecords
    (hpay : payForFundingFees context before = .ok outcome) :
    before.market.KeepsRecords outcome.1.market := by
  unfold payForFundingFees at hpay
  dsimp only at hpay
  split_ifs at hpay
  · obtain rfl := Except.ok.inj hpay
    exact .refl _
  · obtain ⟨_, _, hpaid⟩ := bind_eq_ok.mp hpay
    exact payForCost_keepsRecords (fun _ _ _ => receiveFunding_keepsRecords) hpaid

theorem payForPnlIfNegative_keepsRecords {pnl : ℤ}
    (hpay : payForPnlIfNegative context pnl before = .ok outcome) :
    before.market.KeepsRecords outcome.1.market := by
  unfold payForPnlIfNegative at hpay
  split_ifs at hpay
  · exact payForCost_keepsRecords (fun _ _ _ => receiveToPool_keepsRecords) hpay
  · obtain rfl := Except.ok.inj hpay
    exact .refl _

theorem payForFeesExcludingFunding_keepsRecords
    (hpay : payForFeesExcludingFunding context before = .ok outcome) :
    before.market.KeepsRecords outcome.1.market := by
  obtain ⟨costAmount, -, hpaid⟩ := bind_eq_ok.mp hpay
  split_ifs at hpaid
  · obtain rfl := Except.ok.inj hpaid
    exact .refl _
  · obtain ⟨_, _, hpaid⟩ := bind_eq_ok.mp hpaid
    exact payForCost_keepsRecords (fun _ _ _ => receiveFees_keepsRecords) hpaid

theorem payForPriceImpactIfNegative_keepsRecords {priceImpact : ℤ}
    (hpay : payForPriceImpactIfNegative context priceImpact before = .ok outcome) :
    before.market.KeepsRecords outcome.1.market := by
  unfold payForPriceImpactIfNegative at hpay
  split_ifs at hpay
  · exact payForCost_keepsRecords (fun _ _ _ => receiveImpact_keepsRecords) hpay
  · obtain rfl := Except.ok.inj hpay
    exact .refl _

theorem payForPriceImpactDiff_keepsRecords {priceImpactDiff : ℕ}
    (hpay : payForPriceImpactDiff context priceImpactDiff before = .ok outcome) :
    before.market.KeepsRecords outcome.1.market := by
  unfold payForPriceImpactDiff at hpay
  split_ifs at hpay
  · obtain rfl := Except.ok.inj hpay
    exact .refl _
  · exact payForCost_keepsRecords (fun _ _ _ => receiveDiff_keepsRecords) hpay

theorem deductFromPool_keepsRecords {profit : ℕ} {message : String}
    (hdeduct : deductFromPool context before profit message = .ok after) :
    before.market.KeepsRecords after.market := by
  simp only [deductFromPool, bind_eq_ok, pure_eq_ok] at hdeduct
  obtain ⟨_, _, _, _, market, hmarket, _, _, rfl⟩ := hdeduct
  exact Market.applyDelta_keepsRecords hmarket

theorem addPnlIfPositive_keepsRecords {pnl : ℤ}
    (hadd : addPnlIfPositive context pnl before = .ok after) :
    before.market.KeepsRecords after.market := by
  unfold addPnlIfPositive at hadd
  split_ifs at hadd
  · exact deductFromPool_keepsRecords hadd
  · obtain rfl := Except.ok.inj hadd
    exact .refl _

theorem addPriceImpactIfPositive_keepsRecords {priceImpact : ℤ}
    (hadd : addPriceImpactIfPositive context priceImpact before = .ok after) :
    before.market.KeepsRecords after.market := by
  unfold addPriceImpactIfPositive at hadd
  split_ifs at hadd
  · simp only [bind_eq_ok] at hadd
    obtain ⟨_, _, _, _, market, hmarket, hdeduct⟩ := hadd
    exact (Market.applyDeltaToPositionImpactPool_keepsRecords hmarket).trans
      (deductFromPool_keepsRecords hdeduct)
  · obtain rfl := Except.ok.inj hadd
    exact .refl _

theorem swapProfitToCollateralTokens_keepsRecords {swap : DecreasePositionSwapType}
    (hswap : swapProfitToCollateralTokens context swap before = .ok after) :
    before.market.KeepsRecords after.market := by
  unfold swapProfitToCollateralTokens at hswap
  split_ifs at hswap
  · obtain ⟨_, _, hswap⟩ := bind_eq_ok.mp hswap
    split at hswap
    · rename_i swapped hexecute
      simp only [bind_eq_ok, pure_eq_ok] at hswap
      obtain ⟨_, _, rfl⟩ := hswap
      exact Swap.execute_keepsRecords hexecute
    · exact absurd hswap (by simp)
    · obtain rfl := Except.ok.inj hswap
      exact .refl _
  · obtain rfl := Except.ok.inj hswap
    exact .refl _

omit [MarketNum] in
theorem andThen_keepsRecords {first : Outcome isPure}
    {next : State isPure → Result (Outcome isPure)}
    (hnext : ∀ {outcome}, next first.1 = .ok outcome →
      first.1.market.KeepsRecords outcome.1.market)
    (hthen : andThen first next = .ok outcome) :
    first.1.market.KeepsRecords outcome.1.market := by
  unfold andThen at hthen
  split at hthen
  · obtain rfl := Except.ok.inj hthen
    exact .refl _
  · exact hnext hthen

theorem process_keepsRecords {settlement : Settlement} {isInsolventCloseAllowed : Bool}
    (hprocess : process context settlement isInsolventCloseAllowed before = .ok outcome) :
    before.market.KeepsRecords outcome.1.market := by
  have hall := process_eq_ok hprocess
  simp only [processAll, processBeforeFees, addProfits, bind_eq_ok] at hall
  obtain ⟨funded, ⟨profited, ⟨withPnl, hpnl, withImpact, himpact, hswap⟩, first, hfunding,
    hnegative⟩, withFees, hfees, withLoss, hloss, hdiff⟩ := hall
  have hprofited := ((addPnlIfPositive_keepsRecords hpnl).trans
    (addPriceImpactIfPositive_keepsRecords himpact)).trans
      (swapProfitToCollateralTokens_keepsRecords hswap)
  have hfunded := (hprofited.trans (payForFundingFees_keepsRecords hfunding)).trans
    (andThen_keepsRecords payForPnlIfNegative_keepsRecords hnegative)
  have hcharged := hfunded.trans
    (andThen_keepsRecords payForFeesExcludingFunding_keepsRecords hfees)
  exact (hcharged.trans (andThen_keepsRecords payForPriceImpactIfNegative_keepsRecords hloss)).trans
    (andThen_keepsRecords payForPriceImpactDiff_keepsRecords hdiff)

end CollateralProcessor

namespace DecreasePosition

theorem updateSizes_keepsRecords {position : Position} {order : DecreaseOrder}
    {processed : ProcessCollateralResult isPure} {updated : Updated isPure}
    (hupdate : updateSizes position order processed = .ok updated) :
    processed.state.market.KeepsRecords updated.market := by
  simp only [updateSizes, bind_eq_ok, pure_eq_ok] at hupdate
  obtain ⟨_, _, withBorrowing, hborrowing, _, _, withCollateral, hcollateral, _, _, _, _,
    withInterest, hinterest, rfl⟩ := hupdate
  have hsum : withBorrowing.KeepsRecords withCollateral := by
    obtain ⟨_, rfl, -⟩ := updateCollateralSum_eq_ok hcollateral
    exact ⟨⟨rfl, rfl, rfl, rfl⟩, ⟨rfl, rfl⟩⟩
  exact ((Position.updateTotalBorrowing_keepsRecords hborrowing).trans hsum).trans
    (Position.updateOpenInterest_keepsRecords hinterest)

theorem swapCollateralTokenToPnlToken_keepsRecords {before : Market isPure}
    {position : Position} {prices : Prices} {swap : DecreasePositionSwapType}
    {outputAmount secondaryAmount : ℕ} {swapped : Market isPure × ℕ × ℕ}
    (hswap : swapCollateralTokenToPnlToken before position prices swap outputAmount
      secondaryAmount = .ok swapped) : before.KeepsRecords swapped.1 := by
  unfold swapCollateralTokenToPnlToken at hswap
  split_ifs at hswap
  · obtain ⟨_, _, hswap⟩ := bind_eq_ok.mp hswap
    split at hswap
    · rename_i done hexecute
      simp only [bind_eq_ok, pure_eq_ok] at hswap
      obtain ⟨_, _, rfl⟩ := hswap
      exact Swap.execute_keepsRecords hexecute
    · exact absurd hswap (by simp)
    · obtain rfl := Except.ok.inj hswap
      exact .refl _
  · obtain rfl := Except.ok.inj hswap
    exact .refl _

theorem execute_keepsRecords {before after : Market isPure} {position next : Position}
    {params : DecreasePositionParams} {report : DecreasePositionReport}
    (hexecute : execute before position params = .ok (after, next, report)) :
    before.KeepsRecords after := by
  simp only [execute, bind_eq_ok, pure_eq_ok] at hexecute
  obtain ⟨order, -, processed, hprocessed, updated, hupdated, _, -, stamped, hstamped,
    swapped, hswapped, _, -, hresult⟩ := hexecute
  obtain rfl := congrArg Prod.fst hresult
  simp only [processCollateral, bind_eq_ok, pure_eq_ok] at hprocessed
  obtain ⟨prepared, -, outcome, hprocess, _, -, _, -, rfl⟩ := hprocessed
  have hsettled : before.KeepsRecords outcome.1.market :=
    CollateralProcessor.process_keepsRecords hprocess
  have hsized : outcome.1.market.KeepsRecords updated.market := updateSizes_keepsRecords hupdated
  have hstamp : updated.market.KeepsRecords stamped.1 := by
    obtain ⟨_, _, _, _, rfl⟩ := onDecreased_eq_ok hstamped
    exact ⟨⟨rfl, rfl, rfl, rfl⟩, ⟨rfl, rfl⟩⟩
  exact ((hsettled.trans hsized).trans hstamp).trans
    (swapCollateralTokenToPnlToken_keepsRecords hswapped)

end DecreasePosition

end Gmsol.Model
