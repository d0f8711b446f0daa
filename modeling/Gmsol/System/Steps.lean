import Gmsol.Accounting.Decrease

/-!
# What one step of the market does

Every successful step is one of five kinds.  Liquidity actions move tokens but
nothing that belongs to positions; fee updates move only the accumulated
factors; and a change of a position settles that position.
-/

namespace Gmsol.Model

open Gmsol.Fallible

variable {isPure : Bool}

namespace Market

/-- The pools that aggregate over positions stay. -/
structure KeepsAccounts (before after : Market isPure) : Prop where
  openInterest_eq : after.openInterest = before.openInterest
  openInterestInTokens_eq :
    after.openInterestInTokens = before.openInterestInTokens
  collateralSum_eq : after.collateralSum = before.collateralSum
  totalBorrowing_eq : after.totalBorrowing = before.totalBorrowing

/-- The recorded balances stay. -/
structure KeepsBalances (before after : Market isPure) : Prop where
  longTokenBalance_eq : after.longTokenBalance = before.longTokenBalance
  shortTokenBalance_eq : after.shortTokenBalance = before.shortTokenBalance

/-- The accumulated funding amounts stay. -/
structure KeepsFunding (before after : Market isPure) : Prop where
  fundingAmountPerSize_eq :
    after.fundingAmountPerSize = before.fundingAmountPerSize
  claimableFundingAmountPerSize_eq :
    after.claimableFundingAmountPerSize = before.claimableFundingAmountPerSize

theorem KeepsPositions.keepsAccounts {before after : Market isPure}
    (hkeeps : before.KeepsPositions after) : before.KeepsAccounts after := by
  obtain ⟨_, _, _, _, _, rfl⟩ := hkeeps
  exact ⟨rfl, rfl, rfl, rfl⟩

theorem KeepsPositions.keepsBalances {before after : Market isPure}
    (hkeeps : before.KeepsPositions after) : before.KeepsBalances after := by
  obtain ⟨_, _, _, _, _, rfl⟩ := hkeeps
  exact ⟨rfl, rfl⟩

theorem KeepsPositions.keepsFunding {before after : Market isPure}
    (hkeeps : before.KeepsPositions after) : before.KeepsFunding after := by
  obtain ⟨_, _, _, _, _, rfl⟩ := hkeeps
  exact ⟨rfl, rfl⟩

theorem KeepsPositions.borrowingFactor_eq {before after : Market isPure}
    (hkeeps : before.KeepsPositions after) :
    after.borrowingFactor = before.borrowingFactor := by
  obtain ⟨_, _, _, _, _, rfl⟩ := hkeeps
  rfl

variable [MarketNum]

theorem nextCumulativeBorrowingFactor_eq_ok {market : Market isPure}
    {isLong : Bool} {prices : Prices} {duration : ℕ} {next : ℕ × ℕ}
    (hnext : market.nextCumulativeBorrowingFactor isLong prices duration =
      .ok next) :
    next.1 = market.cumulativeBorrowingFactor isLong + next.2 := by
  simp only [nextCumulativeBorrowingFactor, bind_eq_ok, okOr_eq_ok, pure_eq_ok,
    checkedAdd_eq_some] at hnext
  obtain ⟨_, _, _, _, delta, _, _, ⟨_, rfl⟩, rfl⟩ := hnext
  rfl

end Market

/-! ## Updates of the fee state -/

section FeeState

variable [MarketNum]

namespace UpdateBorrowingState

theorem executeOneSide_eq_ok {before : Market isPure} {prices : Prices}
    {isLong : Bool} {duration : ℕ} {done : Market isPure × ℕ}
    (hexecute : executeOneSide before prices isLong duration = .ok done) :
    ∃ borrowingFactor, done.1 = { before with borrowingFactor } ∧
      ∀ side, before.borrowingFactor.amount side ≤ borrowingFactor.amount side := by
  simp only [executeOneSide, bind_eq_ok, pure_eq_ok, toSigned_eq_ok] at hexecute
  obtain ⟨next, _, _, ⟨_, rfl⟩, borrowingFactor, happly, rfl⟩ := hexecute
  refine ⟨borrowingFactor, rfl, fun side => ?_⟩
  have hamount := Pool.applyDeltaAmount_amount happly side
  split_ifs at hamount <;> omega

/-- Cumulative borrowing factors only grow. -/
theorem execute_eq_ok {before : Market isPure} {prices : Prices}
    {done : Market isPure × UpdateBorrowingReport}
    (hexecute : execute before prices = .ok done) :
    ∃ borrowingFactor clocks,
      done.1 = { before with borrowingFactor, clocks } ∧
        ∀ side, before.borrowingFactor.amount side ≤
          borrowingFactor.amount side := by
  simp only [execute, bind_eq_ok, pure_eq_ok] at hexecute
  obtain ⟨_, _, long, hlong, short, hshort, rfl⟩ := hexecute
  obtain ⟨afterLong, hlongEq, hlongLe⟩ := executeOneSide_eq_ok hlong
  obtain ⟨afterShort, hshortEq, hshortLe⟩ := executeOneSide_eq_ok hshort
  rw [hlongEq] at hshortEq hshortLe
  exact ⟨afterShort, _, hshortEq, fun side => (hlongLe side).trans (hshortLe side)⟩

end UpdateBorrowingState

namespace UpdateFundingState

theorem applyDeltas_eq_ok {report : UpdateFundingReport}
    {isLong isLongCollateral : Bool} {before after : Market isPure}
    (happly : applyDeltas report isLong isLongCollateral before = .ok after) :
    ∃ funding claimable,
      (before.fundingAmountPerSize.get isLong).applyDeltaAmount isLongCollateral
        ((report.deltaFundingAmountPerSize.get isLong).get isLongCollateral) =
          .ok funding ∧
      (before.claimableFundingAmountPerSize.get isLong).applyDeltaAmount
        isLongCollateral
        ((report.deltaClaimableFundingAmountPerSize.get isLong).get
          isLongCollateral) = .ok claimable ∧
      after = { before with
        fundingAmountPerSize := before.fundingAmountPerSize.set isLong funding
        claimableFundingAmountPerSize :=
          before.claimableFundingAmountPerSize.set isLong claimable } := by
  simp only [applyDeltas, bind_eq_ok, pure_eq_ok, toSigned_eq_ok] at happly
  obtain ⟨_, ⟨_, rfl⟩, funding, hfunding, _, ⟨_, rfl⟩, claimable, hclaimable,
    rfl⟩ := happly
  exact ⟨funding, claimable, hfunding, hclaimable, rfl⟩

/-- Updating the funding state moves only the funding state. -/
theorem execute_eq_ok {before : Market isPure} {prices : Prices}
    {done : Market isPure × UpdateFundingReport}
    (hexecute : execute before prices = .ok done) :
    ∃ fundingAmountPerSize claimableFundingAmountPerSize clocks
      fundingFactorPerSecond,
      done.1 = { before with
        fundingAmountPerSize, claimableFundingAmountPerSize, clocks,
        fundingFactorPerSecond } := by
  simp only [execute, bind_eq_ok, pure_eq_ok] at hexecute
  obtain ⟨_, _, report, _, first, hfirst, second, hsecond, third, hthird, fourth,
    hfourth, rfl⟩ := hexecute
  obtain ⟨_, _, _, _, rfl⟩ := applyDeltas_eq_ok hfirst
  obtain ⟨_, _, _, _, rfl⟩ := applyDeltas_eq_ok hsecond
  obtain ⟨_, _, _, _, rfl⟩ := applyDeltas_eq_ok hthird
  obtain ⟨_, _, _, _, rfl⟩ := applyDeltas_eq_ok hfourth
  exact ⟨_, _, _, _, rfl⟩

end UpdateFundingState

theorem DistributePositionImpact.execute_eq_ok {before : Market isPure}
    {done : Market isPure × DistributePositionImpactReport}
    (hexecute : execute before = .ok done) :
    ∃ positionImpact clocks, done.1 = { before with positionImpact, clocks } := by
  simp only [execute, bind_eq_ok, pure_eq_ok, ite_eq_ok,
    Market.applyDeltaToPositionImpactPool] at hexecute
  obtain ⟨_, _, next, hnext, rfl⟩ := hexecute
  rcases hnext with ⟨_, hnext⟩ | ⟨_, _, _, _, _, rfl⟩
  · obtain rfl := Except.ok.inj hnext
    exact ⟨_, _, rfl⟩
  · exact ⟨_, _, rfl⟩

end FeeState

end Gmsol.Model

namespace Gmsol.System

open Gmsol.Fallible Gmsol.Model

variable {isPure : Bool} {ι : Type} [MarketNum] [DecidableEq ι]

/-- The kinds of steps. -/
inductive Stepped (before : World isPure ι) :
    Action ι → World isPure ι → Flow → Prop
  | liquidity {action : Action ι} {market : Market isPure} {flow : Flow}
      (accounts : before.market.KeepsAccounts market)
      (funding : before.market.KeepsFunding market)
      (borrowing : market.borrowingFactor = before.market.borrowingFactor)
      (tokens : ∀ token, market.tokenTotal token + flow.paid token =
        before.market.tokenTotal token + flow.taken token)
      (uncharged : flow.fundingCharged = Flow.none.fundingCharged)
      (uncredited : flow.fundingCredited = Flow.none.fundingCredited)
      (balances : before.market.KeepsBalances market) :
      Stepped before action { before with market } flow
  | borrowing {prices : Prices} {market : Market isPure}
      (accounts : before.market.KeepsAccounts market)
      (funding : before.market.KeepsFunding market)
      (borrowing : ∀ side, before.market.cumulativeBorrowingFactor side ≤
        market.cumulativeBorrowingFactor side)
      (tokens : ∀ token,
        market.tokenTotal token = before.market.tokenTotal token)
      (balances : before.market.KeepsBalances market) :
      Stepped before (.updateBorrowing prices) { before with market } .none
  | funding {prices : Prices} {market : Market isPure}
      {report : UpdateFundingReport}
      (accounts : before.market.KeepsAccounts market)
      (borrowing : market.borrowingFactor = before.market.borrowingFactor)
      (executed : UpdateFundingState.execute before.market prices =
        .ok (market, report))
      (tokens : ∀ token,
        market.tokenTotal token = before.market.tokenTotal token)
      (balances : before.market.KeepsBalances market) :
      Stepped before (.updateFunding prices) { before with market } .none
  | increase {index : ι} {params : IncreasePositionParams}
      {market : Market isPure} {next : Position}
      {report : IncreasePositionReport}
      (effects : IncreaseEffects before.market market (before.positions index)
        next params report) :
      Stepped before (.increase index params) (before.update market index next)
        (.ofIncrease isPure (before.positions index) params report)
  | decrease {index : ι} {params : DecreasePositionParams}
      {market : Market isPure} {next : Position}
      {report : DecreasePositionReport}
      (executed : DecreasePosition.execute before.market (before.positions index)
        params = .ok (market, next, report))
      (effects : DecreaseEffects before.market market (before.positions index)
        next params report) :
      Stepped before (.decrease index params) (before.update market index next)
        (.ofDecrease isPure report)

/-- Every successful step is of one of the kinds. -/
theorem World.stepped {before after : World isPure ι} {action : Action ι}
    {flow : Flow} (hstep : before.step action = .ok (after, flow)) :
    Stepped before action after flow := by
  cases action with
  | deposit params =>
      simp only [World.step, bind_eq_ok, pure_eq_ok, Prod.mk.injEq] at hstep
      obtain ⟨⟨market, report⟩, hexecute, rfl, rfl⟩ := hstep
      obtain ⟨hkeeps, hpool⟩ := Deposit.execute_eq_ok hexecute
      refine .liquidity hkeeps.keepsAccounts hkeeps.keepsFunding
        hkeeps.borrowingFactor_eq (fun token => ?_) rfl rfl
        hkeeps.keepsBalances
      have htotal := hkeeps.tokenTotal_eq ((hpool token).trans (add_assoc _ _ _))
      rw [← natCast_inToken, ← natCast_inToken] at htotal
      simp only [Flow.ofDeposit, Flow.none]
      omega
  | withdraw params =>
      simp only [World.step, bind_eq_ok, pure_eq_ok, Prod.mk.injEq] at hstep
      obtain ⟨⟨market, report⟩, hexecute, rfl, rfl⟩ := hstep
      obtain ⟨hkeeps, hpool⟩ := Withdrawal.execute_eq_ok hexecute
      refine .liquidity hkeeps.keepsAccounts hkeeps.keepsFunding
        hkeeps.borrowingFactor_eq (fun token => ?_) rfl rfl
        hkeeps.keepsBalances
      have htotal := hkeeps.tokenTotal_eq
        ((hpool token).trans ((sub_sub _ _ _).trans (sub_eq_add_neg _ _)))
      rw [← natCast_inToken, ← natCast_inToken] at htotal
      simp only [Flow.ofWithdraw, Flow.none]
      omega
  | swap params =>
      simp only [World.step, bind_eq_ok, pure_eq_ok, Prod.mk.injEq] at hstep
      obtain ⟨⟨market, report⟩, hexecute, rfl, rfl⟩ := hstep
      obtain ⟨hkeeps, _, hpool⟩ := Swap.tryExecute_eq_ok (Swap.execute_eq_ok hexecute)
      refine .liquidity hkeeps.keepsAccounts hkeeps.keepsFunding
        hkeeps.borrowingFactor_eq (fun token => ?_) rfl rfl
        hkeeps.keepsBalances
      have htotal := hkeeps.tokenTotal_eq
        ((hpool token).trans (add_sub_assoc _ _ _))
      rw [← natCast_inToken, ← natCast_inToken] at htotal
      simp only [Flow.ofSwap, Flow.none]
      omega
  | increase index params =>
      simp only [World.step, bind_eq_ok, pure_eq_ok, Prod.mk.injEq] at hstep
      obtain ⟨⟨market, next, report⟩, hexecute, rfl, rfl⟩ := hstep
      exact .increase (IncreasePosition.execute_effects hexecute)
  | decrease index params =>
      simp only [World.step, bind_eq_ok, pure_eq_ok, Prod.mk.injEq] at hstep
      obtain ⟨⟨market, next, report⟩, hexecute, rfl, rfl⟩ := hstep
      exact .decrease hexecute (DecreasePosition.execute_effects hexecute)
  | updateFunding prices =>
      simp only [World.step, bind_eq_ok, pure_eq_ok, Prod.mk.injEq] at hstep
      obtain ⟨⟨market, report⟩, hexecute, rfl, rfl⟩ := hstep
      obtain ⟨_, _, _, _, rfl⟩ := UpdateFundingState.execute_eq_ok hexecute
      exact .funding ⟨rfl, rfl, rfl, rfl⟩ rfl hexecute
        (fun _ => rfl) ⟨rfl, rfl⟩
  | updateBorrowing prices =>
      simp only [World.step, bind_eq_ok, pure_eq_ok, Prod.mk.injEq] at hstep
      obtain ⟨⟨market, report⟩, hexecute, rfl, rfl⟩ := hstep
      obtain ⟨_, _, rfl, hgrows⟩ := UpdateBorrowingState.execute_eq_ok hexecute
      exact .borrowing ⟨rfl, rfl, rfl, rfl⟩ ⟨rfl, rfl⟩ hgrows
        (fun _ => rfl) ⟨rfl, rfl⟩
  | distributePositionImpact =>
      simp only [World.step, bind_eq_ok, pure_eq_ok, Prod.mk.injEq] at hstep
      obtain ⟨⟨market, report⟩, hexecute, rfl, rfl⟩ := hstep
      obtain ⟨_, _, rfl⟩ := DistributePositionImpact.execute_eq_ok hexecute
      exact .liquidity ⟨rfl, rfl, rfl, rfl⟩ ⟨rfl, rfl⟩ rfl
        (fun _ => rfl) rfl rfl ⟨rfl, rfl⟩
  | tick clock =>
      simp only [World.step, Except.ok.injEq, Prod.mk.injEq] at hstep
      obtain ⟨rfl, rfl⟩ := hstep
      exact .liquidity ⟨rfl, rfl, rfl, rfl⟩ ⟨rfl, rfl⟩ rfl
        (fun _ => rfl) rfl rfl ⟨rfl, rfl⟩
  | configure config isEnabled =>
      simp only [World.step, Except.ok.injEq, Prod.mk.injEq] at hstep
      obtain ⟨rfl, rfl⟩ := hstep
      exact .liquidity ⟨rfl, rfl, rfl, rfl⟩ ⟨rfl, rfl⟩ rfl
        (fun _ => rfl) rfl rfl ⟨rfl, rfl⟩

end Gmsol.System
