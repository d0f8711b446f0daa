import Gmsol.System.OpenInterest

/-!
# Funding solvency

Funding is accumulated as amounts per size: what payers owe is rounded up, what
receivers may claim is rounded down, and both are rounded again when a position
is settled.  Multiplied by the scale of the amounts per size, everything
credited and pending is covered by everything charged and pending.
-/

namespace Gmsol.Model

open Gmsol.Fallible Gmsol.System

section Pack

variable [MarketNum]

/-- The scale of funding amounts per size. -/
def fundingScale : ℕ := fundingAmountPerSizeAdjustment * unit

theorem fundingScale_pos : 0 < fundingScale :=
  Nat.mul_pos MarketNum.adjustment_pos unit_pos

/-- Rounded up, the amounts of the whole interest are worth the value. -/
theorem packToFundingAmountPerSize_up {value interest price result : ℕ}
    (hpack : packToFundingAmountPerSize fundingAmountPerSizeAdjustment value
      interest price true = some result)
    (hvalue : interest = 0 → value = 0) :
    value * fundingScale ≤ interest * result * price := by
  unfold packToFundingAmountPerSize at hpack
  split at hpack
  · rename_i hzero
    have hnone : value = 0 := hzero.elim id hvalue
    simp [hnone]
  · rename_i hne
    have hinterest : 0 < interest := Nat.pos_of_ne_zero (not_or.mp hne).2
    simp only [if_true, option_bind_eq_some, checkedMul_eq_some,
      checkedMulDivCeil_eq_some, checkedRoundUpDiv_eq_some] at hpack
    obtain ⟨_, ⟨_, rfl⟩, perSize, ⟨_, _, rfl⟩, hprice, _, rfl⟩ := hpack
    have hpos : 0 < price := Nat.pos_of_ne_zero hprice
    rw [mul_assoc, Nat.mul_comm _ price]
    calc
      value * fundingScale ≤
          interest * (value * fundingScale ⌈/⌉ interest) :=
        le_smul_ceilDiv hinterest
      _ ≤ interest * (price * (value * fundingScale ⌈/⌉ interest ⌈/⌉ price)) :=
        Nat.mul_le_mul_left _ (le_smul_ceilDiv hpos)

/-- Rounded down, the amounts of the whole interest are worth at most the
value. -/
theorem packToFundingAmountPerSize_down {value interest price result : ℕ}
    (hpack : packToFundingAmountPerSize fundingAmountPerSizeAdjustment value
      interest price false = some result) :
    interest * result * price ≤ value * fundingScale := by
  unfold packToFundingAmountPerSize at hpack
  split at hpack
  · obtain rfl : 0 = result := by simpa using hpack
    simp
  · simp only [Bool.false_eq_true, if_false, option_bind_eq_some,
      checkedMul_eq_some, checkedMulDiv_eq_some, checkedDiv_eq_some] at hpack
    obtain ⟨_, ⟨_, rfl⟩, perSize, ⟨_, _, rfl⟩, _, rfl⟩ := hpack
    rw [mul_assoc]
    calc
      interest * (value * fundingScale / interest / price * price) ≤
          interest * (value * fundingScale / interest) :=
        Nat.mul_le_mul_left _ (Nat.div_mul_le_self _ _)
      _ ≤ value * fundingScale := Nat.mul_div_le _ _

end Pack

variable [MarketNum]

/-! ## The update of the funding state -/

namespace UpdateFundingState

/-- What receivers of one token gain is covered by what its payers owe. -/
def Covered (market : Market false) (report : UpdateFundingReport)
    (token : Bool) : Prop :=
  (market.openInterest.get true).total *
        (report.deltaClaimableFundingAmountPerSize.get true).get token +
      (market.openInterest.get false).total *
        (report.deltaClaimableFundingAmountPerSize.get false).get token ≤
    (market.openInterest.get true).amount token *
        (report.deltaFundingAmountPerSize.get true).get token +
      (market.openInterest.get false).amount token *
        (report.deltaFundingAmountPerSize.get false).get token

theorem deltasFor_eq_ok {market : Market false} {prices : Prices}
    {longsPayShorts token : Bool} {fundingValue payerInterest value
      receiverInterest : ℕ} {message : String} {deltas : ℕ × ℕ}
    (hvalid : prices.isValid = true)
    (hvalue : fundingValueFor market longsPayShorts token fundingValue
      payerInterest message = .ok value)
    (hdeltas : deltasFor market prices longsPayShorts token value
      receiverInterest = .ok deltas) :
    receiverInterest * deltas.2 ≤
      (market.openInterest.get longsPayShorts).amount token * deltas.1 := by
  simp only [deltasFor, bind_eq_ok, okOr_eq_ok, pure_eq_ok] at hdeltas
  obtain ⟨payer, hpayer, receiver, hreceiver, rfl⟩ := hdeltas
  simp only [fundingValueFor, okOr_eq_ok, checkedMulDiv_eq_some] at hvalue
  have hnone : (market.openInterest.get longsPayShorts).amount token = 0 →
      value = 0 := by
    intro hzero
    rw [← hvalue.2.2, hzero, Nat.mul_zero, Nat.zero_div]
  have hprice : 0 < (prices.collateralTokenPrice token).pickPrice true :=
    Prices.max_pos_of_isValid (Prices.collateralTokenPrice_isValid hvalid token)
  exact Nat.le_of_mul_le_mul_right
    ((packToFundingAmountPerSize_down hreceiver).trans
      (packToFundingAmountPerSize_up hpayer hnone)) hprice

theorem nextFundingAmountPerSize_covered {market : Market false}
    {prices : Prices} {duration : ℕ} {report : UpdateFundingReport}
    (hvalid : prices.isValid = true)
    (hnext : nextFundingAmountPerSize market prices duration = .ok report)
    (token : Bool) : Covered market report token := by
  have htotal (side : Bool) {interest : ℕ}
      (hinterest : market.openInterestAmount side = .ok interest) :
      interest = (market.openInterest.get side).total := by
    simp only [Market.openInterestAmount, Market.mergedAmount, okOr_eq_ok,
      checkedAdd_eq_some] at hinterest
    exact hinterest.2.symm
  simp only [nextFundingAmountPerSize, bind_eq_ok, ite_eq_ok, pure_eq_ok,
    okOr_eq_ok] at hnext
  obtain ⟨longInterest, hlong, shortInterest, hshort,
    ⟨_, rfl⟩ | ⟨_, factor, _, _, _, _, _, fundingValue, _, forLong, hforLong,
      forShort, hforShort, inLong, hinLong, inShort, hinShort, rfl⟩⟩ := hnext
  · cases token <;> simp [Covered, emptyReport, Sided.get]
  · have hlongCovered := deltasFor_eq_ok hvalid hforLong hinLong
    have hshortCovered := deltasFor_eq_ok hvalid hforShort hinShort
    rw [htotal true hlong, htotal false hshort] at hlongCovered hshortCovered
    cases hpays : factor.2.1 <;> rw [hpays] at hlongCovered hshortCovered <;>
      cases token
    · simpa [Covered, Sided.get, Sided.set] using hshortCovered
    · simpa [Covered, Sided.get, Sided.set] using hlongCovered
    · simpa [Covered, Sided.get, Sided.set] using hshortCovered
    · simpa [Covered, Sided.get, Sided.set] using hlongCovered

/-- One delta moves one amount of a pair of pools. -/
theorem set_amount {pools : Sided (Pool false)} {pool : Pool false}
    {isLong isLongCollateral : Bool} {delta : ℕ}
    (happly : (pools.get isLong).applyDeltaAmount isLongCollateral delta =
      .ok pool) (side token : Bool) :
    ((pools.set isLong pool).get side).amount token =
      (pools.get side).amount token +
        if side = isLong ∧ token = isLongCollateral then delta else 0 := by
  have hset := set_tokenAmount happly side token
  rw [Pool.tokenAmount_mixed, Pool.tokenAmount_mixed] at hset
  simp only [signedInToken, Bool.false_or, beq_iff_eq] at hset
  split_ifs at hset ⊢ <;> grind

/-- All four amounts per size move by their deltas. -/
theorem execute_amounts {before after : Market false} {prices : Prices}
    {report : UpdateFundingReport}
    (hexecute : execute before prices = .ok (after, report)) :
    prices.isValid = true ∧ (∀ token, Covered before report token) ∧
      ∀ side token,
        after.fundingFeeAmountPerSize side token =
          before.fundingFeeAmountPerSize side token +
            (report.deltaFundingAmountPerSize.get side).get token ∧
        after.claimableFundingFeeAmountPerSize side token =
          before.claimableFundingFeeAmountPerSize side token +
            (report.deltaClaimableFundingAmountPerSize.get side).get token := by
  simp only [execute, Prices.validate, bind_eq_ok, ensure_eq_ok, pure_eq_ok,
    Prod.mk.injEq] at hexecute
  obtain ⟨_, hvalid, report, hnext, first, hfirst, second, hsecond, third, hthird,
    fourth, hfourth, rfl, rfl⟩ := hexecute
  refine ⟨hvalid, nextFundingAmountPerSize_covered hvalid hnext, ?_⟩
  obtain ⟨_, _, hfunding1, hclaimable1, rfl⟩ := applyDeltas_eq_ok hfirst
  obtain ⟨_, _, hfunding2, hclaimable2, rfl⟩ := applyDeltas_eq_ok hsecond
  obtain ⟨_, _, hfunding3, hclaimable3, rfl⟩ := applyDeltas_eq_ok hthird
  obtain ⟨_, _, hfunding4, hclaimable4, rfl⟩ := applyDeltas_eq_ok hfourth
  intro side token
  simp only [Market.fundingFeeAmountPerSize, Market.claimableFundingFeeAmountPerSize]
  rw [set_amount hfunding4, set_amount hfunding3, set_amount hfunding2,
    set_amount hfunding1, set_amount hclaimable4, set_amount hclaimable3,
    set_amount hclaimable2, set_amount hclaimable1]
  cases side <;> cases token <;> simp

end UpdateFundingState

/-! ## Pending funding -/

namespace Position

/-- What a position owes per size since it was last settled. -/
def fundingOwedPerSize (position : Position) (market : Market false) : ℕ :=
  market.fundingFeeAmountPerSize position.isLong position.isCollateralTokenLong -
    position.fundingFeeAmountPerSize

/-- What a position may claim per size since it was last settled. -/
def fundingDuePerSize (position : Position) (market : Market false)
    (token : Bool) : ℕ :=
  market.claimableFundingFeeAmountPerSize position.isLong token -
    position.claimableFundingFeeAmountPerSize.get token

/-- The pending funding fee of a position in one token. -/
def pendingCharge (market : Market false) (token : Bool)
    (position : Position) : ℕ :=
  inToken false position.isCollateralTokenLong token
    (position.sizeInUsd * position.fundingOwedPerSize market ⌈/⌉ fundingScale)

/-- The pending claimable funding of a position in one token. -/
def pendingCredit (market : Market false) (token : Bool)
    (position : Position) : ℕ :=
  position.sizeInUsd * position.fundingDuePerSize market token / fundingScale

theorem unpackToFundingAmountDelta_eq_some {latest stored size result : ℕ}
    {roundUp : Bool}
    (hunpack : unpackToFundingAmountDelta fundingAmountPerSizeAdjustment latest
      stored size roundUp = some result) :
    result = if roundUp then size * (latest - stored) ⌈/⌉ fundingScale
      else size * (latest - stored) / fundingScale := by
  simp only [unpackToFundingAmountDelta, option_bind_eq_some, checkedSub_eq_some,
    checkedMul_eq_some] at hunpack
  obtain ⟨_, ⟨_, rfl⟩, _, ⟨_, rfl⟩, hunpack⟩ := hunpack
  split at hunpack
  · rename_i hup
    rw [if_pos hup]
    exact (checkedMulDivCeil_eq_some.mp hunpack).2.2.symm
  · rename_i hdown
    rw [if_neg hdown]
    exact (checkedMulDiv_eq_some.mp hunpack).2.2.symm

/-- The pending fees are the ones the program computes. -/
theorem pendingFundingFees_eq_ok {position : Position} {market : Market false}
    {fees : FundingFees} (hfees : position.pendingFundingFees market = .ok fees)
    (token : Bool) :
    inToken false position.isCollateralTokenLong token fees.amount =
        position.pendingCharge market token ∧
      Flow.credited false fees token = position.pendingCredit market token := by
  simp only [pendingFundingFees, bind_eq_ok, okOr_eq_ok, pure_eq_ok] at hfees
  obtain ⟨amount, hamount, long, hlong, short, hshort, rfl⟩ := hfees
  have hamount := unpackToFundingAmountDelta_eq_some hamount
  have hlong := unpackToFundingAmountDelta_eq_some hlong
  have hshort := unpackToFundingAmountDelta_eq_some hshort
  refine ⟨?_, ?_⟩
  · rw [hamount]
    rfl
  · cases token
    · simpa [Flow.credited, inToken, pendingCredit, fundingDuePerSize] using hshort
    · simpa [Flow.credited, inToken, pendingCredit, fundingDuePerSize] using hlong

/-- Charges are rounded up. -/
theorem mul_owed_le_pendingCharge (position : Position) (market : Market false)
    (token : Bool) :
    inToken false position.isCollateralTokenLong token
        (position.sizeInUsd * position.fundingOwedPerSize market) ≤
      fundingScale * position.pendingCharge market token := by
  unfold pendingCharge inToken
  split_ifs
  · exact le_smul_ceilDiv fundingScale_pos
  · exact Nat.zero_le _

/-- Credits are rounded down. -/
theorem pendingCredit_le_mul_due (position : Position) (market : Market false)
    (token : Bool) :
    fundingScale * position.pendingCredit market token ≤
      position.sizeInUsd * position.fundingDuePerSize market token :=
  Nat.mul_div_le _ _

end Position

end Gmsol.Model

namespace Gmsol.System

open Gmsol.Fallible Gmsol.Model

section Funding

variable {ι : Type} [Fintype ι] [MarketNum] [DecidableEq ι]

/-- The funding fees charged in a run. -/
def chargedIn (flows : List Flow) (token : Bool) : ℕ :=
  (flows.map (·.fundingCharged token)).sum

/-- The claimable funding credited in a run. -/
def creditedIn (flows : List Flow) (token : Bool) : ℕ :=
  (flows.map (·.fundingCredited token)).sum

/-- What a position may claim of a token, before it is rounded. -/
def dueShare (market : Market false) (token : Bool) (position : Position) : ℤ :=
  (position.sizeInUsd * position.fundingDuePerSize market token : ℕ)

/-- What a position owes of a token, before it is rounded. -/
def owedShare (market : Market false) (token : Bool) (position : Position) : ℤ :=
  (inToken false position.isCollateralTokenLong token
    (position.sizeInUsd * position.fundingOwedPerSize market) : ℕ)

/-- No position is ahead of what its side owes, and credited and due amounts
are covered by charged and owed ones. -/
structure FundingCovered (flows : List Flow) (world : World false ι) : Prop where
  behind : ∀ index, (world.positions index).fundingFeeAmountPerSize ≤
    world.market.fundingFeeAmountPerSize (world.positions index).isLong
      (world.positions index).isCollateralTokenLong
  covered : ∀ token,
    (fundingScale * creditedIn flows token : ℤ) +
        contributed (dueShare world.market token) world.positions ≤
      fundingScale * chargedIn flows token +
        contributed (owedShare world.market token) world.positions

/-! ## Settling a position -/

omit [Fintype ι] [DecidableEq ι] in
theorem dueShare_of_settled {before after : Market false}
    {position next : Position} {sizeInUsd sizeInTokens : ℕ}
    (hsettles : Settles before after position next sizeInUsd sizeInTokens)
    (token : Bool) : dueShare after token next = 0 := by
  have hdue : next.fundingDuePerSize after token = 0 := by
    rw [Position.fundingDuePerSize, hsettles.claimable_settled, hsettles.isLong_eq,
      Market.claimableFundingFeeAmountPerSize,
      hsettles.claimableFundingAmountPerSize_eq]
    exact Nat.sub_self _
  rw [dueShare, hdue, Nat.mul_zero, Nat.cast_zero]

omit [Fintype ι] [DecidableEq ι] in
theorem owedShare_of_settled {before after : Market false}
    {position next : Position} {sizeInUsd sizeInTokens : ℕ}
    (hsettles : Settles before after position next sizeInUsd sizeInTokens)
    (token : Bool) : owedShare after token next = 0 := by
  have howed : next.fundingOwedPerSize after = 0 := by
    rw [Position.fundingOwedPerSize, hsettles.funding_settled, hsettles.isLong_eq,
      hsettles.isCollateralTokenLong_eq, Market.fundingFeeAmountPerSize,
      hsettles.fundingAmountPerSize_eq]
    exact Nat.sub_self _
  simp [owedShare, howed, inToken]

/-- A settlement that charges at least what is owed and credits at most what is
due keeps the funding covered. -/
theorem FundingCovered.settle {flows : List Flow} {world : World false ι}
    {market : Market false} {index : ι} {next : Position} {flow : Flow}
    {sizeInUsd sizeInTokens : ℕ} (hcovered : FundingCovered flows world)
    (hsettles : Settles world.market market (world.positions index) next
      sizeInUsd sizeInTokens)
    (hcharged : ∀ token, owedShare world.market token (world.positions index) ≤
      fundingScale * flow.fundingCharged token)
    (hcredited : ∀ token, (fundingScale * flow.fundingCredited token : ℤ) ≤
      dueShare world.market token (world.positions index)) :
    FundingCovered (flow :: flows) (world.update market index next) where
  behind := by
    refine World.forall_update (fun position =>
      position.fundingFeeAmountPerSize ≤ market.fundingFeeAmountPerSize
        position.isLong position.isCollateralTokenLong) ?_ ?_
    · simpa only [Market.fundingFeeAmountPerSize, hsettles.fundingAmountPerSize_eq]
        using hcovered.behind
    · rw [hsettles.funding_settled, hsettles.isLong_eq,
        hsettles.isCollateralTokenLong_eq]
      simp only [Market.fundingFeeAmountPerSize, hsettles.fundingAmountPerSize_eq,
        le_refl]
  covered := fun token => by
    have hdue : dueShare market token = dueShare world.market token := by
      funext position
      simp only [dueShare, Position.fundingDuePerSize,
        Market.claimableFundingFeeAmountPerSize,
        hsettles.claimableFundingAmountPerSize_eq]
    have howed : owedShare market token = owedShare world.market token := by
      funext position
      simp only [owedShare, Position.fundingOwedPerSize,
        Market.fundingFeeAmountPerSize, hsettles.fundingAmountPerSize_eq]
    have hdueNext := dueShare_of_settled hsettles token
    have howedNext := owedShare_of_settled hsettles token
    have hbefore := hcovered.covered token
    have hcharge := hcharged token
    have hcredit := hcredited token
    dsimp only [World.update]
    rw [contributed_update, contributed_update, hdueNext, howedNext, hdue, howed]
    simp only [creditedIn, chargedIn, List.map_cons, List.sum_cons, Nat.cast_add]
      at hbefore ⊢
    linarith

/-! ## Updating the funding state -/

omit [Fintype ι] [MarketNum] [DecidableEq ι] in
theorem sideShareOf_eq_add (side : Bool) (amount : Position → ℕ)
    (position : Position) :
    sideShareOf side amount position =
      shareOf false side true amount position +
        shareOf false side false amount position := by
  unfold sideShareOf shareOf signedInToken
  cases position.isCollateralTokenLong <;> split_ifs <;> simp_all

omit [DecidableEq ι] in
theorem World.InterestTracked.size_of_side {world : World false ι}
    (htracked : world.InterestTracked) (side : Bool) :
    contributed (sideShareOf side Position.sizeInUsd) world.positions =
      ((world.market.openInterest.get side).total : ℤ) := by
  have hlong := htracked.openInterest side true
  have hshort := htracked.openInterest side false
  unfold Tracks at hlong hshort
  rw [funext (sideShareOf_eq_add side Position.sizeInUsd), contributed_add,
    ← hlong, ← hshort, Pool.total_mixed, Nat.cast_add]

omit [DecidableEq ι] in
theorem World.InterestTracked.size_of_token {world : World false ι}
    (htracked : world.InterestTracked) (side token : Bool) :
    contributed (shareOf false side token Position.sizeInUsd) world.positions =
      ((world.market.openInterest.get side).amount token : ℤ) := by
  have hamount := htracked.openInterest side token
  unfold Tracks at hamount
  rw [← hamount, Pool.tokenAmount_mixed]

section Accrue

variable {before after : Market false} {prices : Prices}
  {report : UpdateFundingReport}

omit [Fintype ι] [DecidableEq ι] in
/-- What is due grows at most by the claimable delta of the position's side. -/
theorem dueShare_le_of_update
    (hupdate : UpdateFundingState.execute before prices = .ok (after, report))
    (token : Bool) (position : Position) :
    dueShare after token position ≤
      dueShare before token position +
        (((report.deltaClaimableFundingAmountPerSize.get true).get token : ℤ) *
            sideShareOf true Position.sizeInUsd position +
          ((report.deltaClaimableFundingAmountPerSize.get false).get token : ℤ) *
            sideShareOf false Position.sizeInUsd position) := by
  obtain ⟨_, _, hamounts⟩ := UpdateFundingState.execute_amounts hupdate
  have hclaimable := (hamounts position.isLong token).2
  have hdue : position.fundingDuePerSize after token ≤
      position.fundingDuePerSize before token +
        (report.deltaClaimableFundingAmountPerSize.get position.isLong).get
          token := by
    unfold Position.fundingDuePerSize
    omega
  have hmul := Nat.mul_le_mul_left position.sizeInUsd hdue
  rw [Nat.mul_add] at hmul
  have hsides : ((position.sizeInUsd *
      (report.deltaClaimableFundingAmountPerSize.get position.isLong).get
        token : ℕ) : ℤ) =
      ((report.deltaClaimableFundingAmountPerSize.get true).get token : ℤ) *
          sideShareOf true Position.sizeInUsd position +
        ((report.deltaClaimableFundingAmountPerSize.get false).get token : ℤ) *
          sideShareOf false Position.sizeInUsd position := by
    cases hside : position.isLong <;> simp [sideShareOf, hside, mul_comm]
  rw [← hsides]
  unfold dueShare
  exact_mod_cast hmul

omit [Fintype ι] [DecidableEq ι] in
/-- What is owed grows by the funding delta of the position's side and
collateral. -/
theorem owedShare_le_of_update
    (hupdate : UpdateFundingState.execute before prices = .ok (after, report))
    (token : Bool) {position : Position}
    (hbehind : position.fundingFeeAmountPerSize ≤
      before.fundingFeeAmountPerSize position.isLong
        position.isCollateralTokenLong) :
    owedShare before token position +
        (((report.deltaFundingAmountPerSize.get true).get token : ℤ) *
            shareOf false true token Position.sizeInUsd position +
          ((report.deltaFundingAmountPerSize.get false).get token : ℤ) *
            shareOf false false token Position.sizeInUsd position) ≤
      owedShare after token position := by
  obtain ⟨_, _, hamounts⟩ := UpdateFundingState.execute_amounts hupdate
  have hfunding := (hamounts position.isLong position.isCollateralTokenLong).1
  have howed : position.fundingOwedPerSize after =
      position.fundingOwedPerSize before +
        (report.deltaFundingAmountPerSize.get position.isLong).get
          position.isCollateralTokenLong := by
    unfold Position.fundingOwedPerSize
    omega
  unfold owedShare shareOf signedInToken inToken
  rw [howed]
  by_cases htoken : position.isCollateralTokenLong = token
  · cases hside : position.isLong <;> simp [htoken, mul_add, mul_comm]
  · simp [htoken]

omit [DecidableEq ι] in
/-- An accrual of funding keeps it covered. -/
theorem FundingCovered.accrue {flows : List Flow} {world : World false ι}
    {market : Market false} (hcovered : FundingCovered flows world)
    (htracked : world.InterestTracked)
    (hupdate : UpdateFundingState.execute world.market prices =
      .ok (market, report)) :
    FundingCovered (Flow.none :: flows) { world with market } := by
  obtain ⟨_, hreport, hamounts⟩ := UpdateFundingState.execute_amounts hupdate
  refine ⟨fun index => ?_, fun token => ?_⟩
  · dsimp only
    rw [(hamounts _ _).1]
    exact (hcovered.behind index).trans (Nat.le_add_right _ _)
  · have hdue : contributed (dueShare market token) world.positions ≤
        contributed (fun position => dueShare world.market token position +
          (((report.deltaClaimableFundingAmountPerSize.get true).get token : ℤ) *
              sideShareOf true Position.sizeInUsd position +
            ((report.deltaClaimableFundingAmountPerSize.get false).get token : ℤ) *
              sideShareOf false Position.sizeInUsd position)) world.positions :=
      contributed_le fun index => dueShare_le_of_update hupdate token _
    have howed : contributed (fun position =>
          owedShare world.market token position +
          (((report.deltaFundingAmountPerSize.get true).get token : ℤ) *
              shareOf false true token Position.sizeInUsd position +
            ((report.deltaFundingAmountPerSize.get false).get token : ℤ) *
              shareOf false false token Position.sizeInUsd position))
          world.positions ≤
        contributed (owedShare market token) world.positions :=
      contributed_le fun index =>
        owedShare_le_of_update hupdate token (hcovered.behind index)
    rw [contributed_add, contributed_add, contributed_mul, contributed_mul,
      htracked.size_of_side, htracked.size_of_side] at hdue
    rw [contributed_add, contributed_add, contributed_mul, contributed_mul,
      htracked.size_of_token, htracked.size_of_token] at howed
    have htransfer : (_ : ℤ) ≤ _ := Int.ofNat_le.mpr (hreport token)
    have hbefore := hcovered.covered token
    simp only [creditedIn, chargedIn, List.map_cons, List.sum_cons, Flow.none,
      zero_add] at hbefore ⊢
    push_cast at htransfer
    linarith

end Accrue

/-! ## Runs -/

omit [DecidableEq ι] in
theorem FundingCovered.keeps {flows : List Flow} {world : World false ι}
    {market : Market false} (hcovered : FundingCovered flows world)
    (hfunding : world.market.KeepsFunding market) :
    FundingCovered flows { world with market } where
  behind := by
    simpa only [Market.fundingFeeAmountPerSize, hfunding.fundingAmountPerSize_eq]
      using hcovered.behind
  covered := fun token => by
    have hdue : dueShare market token = dueShare world.market token := by
      funext position
      simp only [dueShare, Position.fundingDuePerSize,
        Market.claimableFundingFeeAmountPerSize,
        hfunding.claimableFundingAmountPerSize_eq]
    have howed : owedShare market token = owedShare world.market token := by
      funext position
      simp only [owedShare, Position.fundingOwedPerSize,
        Market.fundingFeeAmountPerSize, hfunding.fundingAmountPerSize_eq]
    dsimp only
    rw [hdue, howed]
    exact hcovered.covered token

omit [DecidableEq ι] in
/-- Flows without funding do not count. -/
theorem FundingCovered.cons {flows : List Flow} {world : World false ι}
    {flow : Flow} (hcovered : FundingCovered flows world)
    (hcharged : flow.fundingCharged = Flow.none.fundingCharged)
    (hcredited : flow.fundingCredited = Flow.none.fundingCredited) :
    FundingCovered (flow :: flows) world where
  behind := hcovered.behind
  covered := fun token => by
    have hbefore := hcovered.covered token
    simp only [creditedIn, chargedIn, List.map_cons, List.sum_cons, hcharged,
      hcredited, Flow.none, zero_add] at hbefore ⊢
    exact hbefore

omit [Fintype ι] [DecidableEq ι] in
theorem owedShare_le_pendingCharge (market : Market false) (token : Bool)
    (position : Position) :
    owedShare market token position ≤
      fundingScale * (position.pendingCharge market token : ℤ) := by
  unfold owedShare
  exact_mod_cast position.mul_owed_le_pendingCharge market token

omit [Fintype ι] [DecidableEq ι] in
theorem pendingCredit_le_dueShare (market : Market false) (token : Bool)
    (position : Position) :
    fundingScale * (position.pendingCredit market token : ℤ) ≤
      dueShare market token position := by
  unfold dueShare
  exact_mod_cast position.pendingCredit_le_mul_due market token

omit [Fintype ι] [DecidableEq ι] in
theorem owedShare_le_charged {market : Market false} {position : Position}
    {fees : FundingFees} (hfees : position.pendingFundingFees market = .ok fees)
    (token : Bool) :
    owedShare market token position ≤ fundingScale *
      (inToken false position.isCollateralTokenLong token fees.amount : ℕ) := by
  rw [(Position.pendingFundingFees_eq_ok hfees token).1]
  exact owedShare_le_pendingCharge market token position

omit [Fintype ι] [DecidableEq ι] in
theorem credited_le_dueShare {market : Market false} {position : Position}
    {fees : FundingFees} (hfees : position.pendingFundingFees market = .ok fees)
    (token : Bool) :
    (fundingScale * (Flow.credited false fees token : ℕ) : ℤ) ≤
      dueShare market token position := by
  rw [(Position.pendingFundingFees_eq_ok hfees token).2]
  exact pendingCredit_le_dueShare market token position

omit [Fintype ι] [MarketNum] [DecidableEq ι] in
/-- Preparing an empty position changes nothing that is due or owed. -/
theorem shares_of_prepared (market : Market false) (position : Position)
    (token : Bool) :
    dueShare market token
        (IncreasePosition.initializePositionIfEmpty position market) =
          dueShare market token position ∧
      owedShare market token
        (IncreasePosition.initializePositionIfEmpty position market) =
          owedShare market token position := by
  unfold IncreasePosition.initializePositionIfEmpty
  split_ifs with hsize
  · simp [dueShare, owedShare, hsize, inToken, Position.settleFees]
  · exact ⟨rfl, rfl⟩

theorem FundingCovered.step {flows : List Flow} {before after : World false ι}
    {action : Action ι} {flow : Flow} (hcovered : FundingCovered flows before)
    (hvalid : ∀ index, (before.positions index).Valid)
    (htracked : before.InterestTracked)
    (hstep : Stepped before action after flow) :
    FundingCovered (flow :: flows) after := by
  cases hstep with
  | liquidity _ funding _ _ uncharged uncredited =>
      exact (hcovered.keeps funding).cons uncharged uncredited
  | borrowing _ funding => exact (hcovered.keeps funding).cons rfl rfl
  | funding _ _ executed => exact hcovered.accrue htracked executed
  | increase effects =>
      refine hcovered.settle (effects.settles_position (hvalid _)) ?_ ?_
      · intro token
        rw [← (shares_of_prepared before.market _ token).2]
        have hcharged := owedShare_le_charged effects.funding token
        rw [IncreasePosition.initialize_isCollateralTokenLong] at hcharged
        exact hcharged
      · intro token
        rw [← (shares_of_prepared before.market _ token).1]
        exact credited_le_dueShare effects.funding token
  | decrease _ effects =>
      refine hcovered.settle
        (effects.settles (effects.size_ne_zero (hvalid _))) ?_ ?_
      · intro token
        simp only [Flow.ofDecrease, effects.isOutputTokenLong_eq]
        exact owedShare_le_charged effects.funding token
      · intro token
        exact credited_le_dueShare effects.funding token

/-- The invariants of runs in which removals close the whole size. -/
structure FundingInvariant (flows : List Flow) (world : World false ι) : Prop where
  collateral : world.CollateralTracked
  interest : world.InterestTracked
  funding : FundingCovered flows world

omit [DecidableEq ι] in
theorem FundingInvariant.init (config : MarketConfig) (isEnabled : Bool)
    (clock : SysvarClock) (isLong isCollateralTokenLong : ι → Bool) :
    FundingInvariant []
      (World.init config isEnabled clock isLong isCollateralTokenLong) where
  collateral := .init config isEnabled clock isLong isCollateralTokenLong
  interest := .init config isEnabled clock isLong isCollateralTokenLong
  funding := by
    refine ⟨fun index => Nat.zero_le _, fun token => ?_⟩
    rw [contributed_eq_zero, contributed_eq_zero]
    · rfl
    · intro index
      simp [owedShare, World.init, Position.empty, inToken]
    · intro index
      simp [dueShare, World.init, Position.empty]

theorem FundingInvariant.step {flows : List Flow} {before after : World false ι}
    {action : Action ι} {flow : Flow} (hinvariant : FundingInvariant flows before)
    (hwhole : before.ClosesWhole action)
    (hstep : Stepped before action after flow) :
    FundingInvariant (flow :: flows) after where
  collateral := hinvariant.collateral.step hstep
  interest := hinvariant.interest.step hinvariant.collateral.valid hwhole hstep
  funding := hinvariant.funding.step hinvariant.collateral.valid
    hinvariant.interest hstep

theorem FundingInvariant.of_run {start finish : World false ι}
    {flows : List Flow} (hrun : Run World.step World.ClosesWhole start flows finish)
    (hstart : FundingInvariant [] start) : FundingInvariant flows finish := by
  refine hrun.invariant FundingInvariant hstart ?_
  intro flows before action after flow hinvariant hwhole hstep
  exact hinvariant.step hwhole (World.stepped hstep)

omit [DecidableEq ι] in
theorem FundingInvariant.credited_le_charged {flows : List Flow}
    {world : World false ι} (hinvariant : FundingInvariant flows world)
    (token : Bool) :
    creditedIn flows token + ∑ index,
        (world.positions index).pendingCredit world.market token ≤
      chargedIn flows token + ∑ index,
        (world.positions index).pendingCharge world.market token := by
  have hcovered := hinvariant.funding.covered token
  apply Nat.le_of_mul_le_mul_left _ fundingScale_pos
  rw [Nat.mul_add, Nat.mul_add, Finset.mul_sum, Finset.mul_sum]
  have hcredit : (∑ index, fundingScale *
      (world.positions index).pendingCredit world.market token : ℤ) ≤
      contributed (dueShare world.market token) world.positions :=
    Finset.sum_le_sum fun index _ => pendingCredit_le_dueShare _ token _
  have hcharge : contributed (owedShare world.market token) world.positions ≤
      (∑ index, fundingScale *
        (world.positions index).pendingCharge world.market token : ℤ) :=
    Finset.sum_le_sum fun index _ => owedShare_le_pendingCharge _ token _
  zify
  linarith

/-- In every run whose removals close the whole size, the funding credited so
far and pending is at most the funding charged so far and pending, where the
pending amounts are those the program computes. -/
theorem funding_solvent {config : MarketConfig} {isEnabled : Bool}
    {clock : SysvarClock} {isLong isCollateralTokenLong : ι → Bool}
    {flows : List Flow} {world : World false ι}
    (hrun : Run World.step World.ClosesWhole
      (World.init config isEnabled clock isLong isCollateralTokenLong) flows
      world) (token : Bool) :
    creditedIn flows token + ∑ index,
        (world.positions index).pendingCredit world.market token ≤
      chargedIn flows token + ∑ index,
        (world.positions index).pendingCharge world.market token ∧
    ∀ index fees,
      (world.positions index).pendingFundingFees world.market = .ok fees →
      inToken false (world.positions index).isCollateralTokenLong token
          fees.amount =
          (world.positions index).pendingCharge world.market token ∧
        Flow.credited false fees token =
          (world.positions index).pendingCredit world.market token := by
  have hinvariant := FundingInvariant.of_run hrun
    (FundingInvariant.init config isEnabled clock _ _)
  exact ⟨hinvariant.credited_le_charged token, fun index fees hfees =>
    Position.pendingFundingFees_eq_ok hfees token⟩

end Funding

section Store

attribute [local instance] storeNumbers

def fundingStart : World false Bool :=
  World.init
    { MarketConfig.unrestricted with
      fundingFeeParams := ⟨10 ^ 20, 10 ^ 18, 0, 0, 10 ^ 18, 0, 0, 0⟩ }
    true ⟨0, 0⟩ (fun index => index) (fun _ => true)

/-- A long of 2000 usd and a short of 1000 usd, both with long collateral; funding
accrues for ten seconds and the short, which receives it, is closed. -/
def fundingActions : List (Action Bool) :=
  let prices : Prices :=
    ⟨⟨10 ^ 20, 10 ^ 20⟩, ⟨10 ^ 20, 10 ^ 20⟩, ⟨10 ^ 20, 10 ^ 20⟩⟩
  [.deposit ⟨100000, 100000, prices⟩,
    .increase true ⟨1000, 2000 * 10 ^ 20, none, prices⟩,
    .increase false ⟨1000, 1000 * 10 ^ 20, none, prices⟩, .tick ⟨1, 10⟩,
    .updateFunding prices,
    .decrease false ⟨prices, 1000 * 10 ^ 20, none, 0, ⟨false, false, true⟩,
      .noSwap⟩]

/-- The short has been credited 66 tokens while the 67 of the long are still
pending. -/
theorem funding_solvent_receiver_closed :
    ∃ flows world, Run World.step World.NoDust fundingStart flows world ∧
      creditedIn flows true = 66 ∧
      creditedIn flows true + ∑ index,
          (world.positions index).pendingCredit world.market true ≤
        chargedIn flows true + ∑ index,
          (world.positions index).pendingCharge world.market true := by
  obtain ⟨⟨flows, world⟩, hperformed, hcredited⟩ :
      ∃ done, perform World.step World.NoDust ([], fundingStart)
        fundingActions = some done ∧ creditedIn done.1 true = 66 :=
    exists_of_any (by decide +kernel)
  have hrun := Run.perform .refl hperformed
  exact ⟨flows, world, hrun, hcredited, (funding_solvent
    (hrun.mono fun _ _ => World.NoDust.closesWhole) true).1⟩

end Store

end Gmsol.System
