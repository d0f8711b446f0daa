import Gmsol.Library.Aggregate
import Gmsol.System.Steps

/-!
# Pools that aggregate over positions

Collateral sums, open interest and total borrowing are kept as pools that move
with every change of a position.  Along every run they are the sums over the
positions; for open interest and total borrowing this takes runs in which a
position is only removed by closing its whole size.
-/

namespace Gmsol.Model

open Gmsol.Fallible Gmsol.System

variable {isPure : Bool}

namespace Position

/-- A position either has both sizes or holds nothing at all. -/
def Valid (position : Position) : Prop :=
  (position.sizeInUsd = 0 ↔ position.sizeInTokens = 0) ∧
    (position.sizeInUsd = 0 → position.collateralAmount = 0)

theorem Valid.initialize_sizeInTokens {position : Position}
    (hvalid : position.Valid) (market : Market isPure) :
    (IncreasePosition.initializePositionIfEmpty position market).sizeInTokens =
      position.sizeInTokens := by
  unfold IncreasePosition.initializePositionIfEmpty
  split_ifs with hsize
  · exact (hvalid.1.mp hsize).symm
  · rfl

end Position

section Effects

variable [MarketNum] {before after : Market isPure} {position next : Position}

theorem IncreaseEffects.valid {params : IncreasePositionParams}
    {report : IncreasePositionReport}
    (heffects : IncreaseEffects before after position next params report) :
    next.Valid :=
  ⟨iff_of_false heffects.size_ne_zero heffects.tokens_ne_zero,
    fun hzero => absurd hzero heffects.size_ne_zero⟩

/-- An increase settles the position itself: preparing an empty position
changes nothing that the market accounts for. -/
theorem IncreaseEffects.settles_position {params : IncreasePositionParams}
    {report : IncreasePositionReport}
    (heffects : IncreaseEffects before after position next params report)
    (hvalid : position.Valid) :
    Settles before after position next next.sizeInUsd next.sizeInTokens := by
  have hsettles := heffects.settles
  exact {
    isLong_eq := by simpa using hsettles.isLong_eq
    isCollateralTokenLong_eq := by simpa using hsettles.isCollateralTokenLong_eq
    openInterest := by simpa using hsettles.openInterest
    openInterest_total := by simpa using hsettles.openInterest_total
    openInterestInTokens := by
      simpa [hvalid.initialize_sizeInTokens] using hsettles.openInterestInTokens
    collateralSum := by simpa using hsettles.collateralSum
    totalBorrowing := by simpa using hsettles.totalBorrowing
    borrowing_settled := by simpa using hsettles.borrowing_settled
    funding_settled := by simpa using hsettles.funding_settled
    claimable_settled := by simpa using hsettles.claimable_settled
    borrowingFactor_eq := hsettles.borrowingFactor_eq
    fundingAmountPerSize_eq := hsettles.fundingAmountPerSize_eq
    claimableFundingAmountPerSize_eq := hsettles.claimableFundingAmountPerSize_eq
    longTokenBalance_eq := hsettles.longTokenBalance_eq
    shortTokenBalance_eq := hsettles.shortTokenBalance_eq }

theorem DecreaseEffects.valid {params : DecreasePositionParams}
    {report : DecreasePositionReport}
    (heffects : DecreaseEffects before after position next params report) :
    next.Valid := by
  have hsize := heffects.sizeInUsd_eq
  have htokens := heffects.sizeInTokens_eq
  by_cases hremove : report.shouldRemove = true
  · rw [if_pos hremove] at hsize htokens
    exact ⟨iff_of_true hsize htokens, fun _ => heffects.collateral_removed hremove⟩
  · rw [if_neg hremove] at hsize htokens
    have hopen := not_or.mp (mt heffects.shouldRemove_iff.mpr hremove)
    rw [← hsize, ← htokens] at hopen
    exact ⟨iff_of_false hopen.1 hopen.2, fun hzero => absurd hzero hopen.1⟩

theorem DecreaseEffects.size_ne_zero {params : DecreasePositionParams}
    {report : DecreasePositionReport}
    (heffects : DecreaseEffects before after position next params report)
    (hvalid : position.Valid) : position.sizeInUsd ≠ 0 :=
  mt hvalid.1.mp heffects.tokens_ne_zero

end Effects

end Gmsol.Model

namespace Gmsol.System

open Gmsol.Fallible Gmsol.Model

variable {isPure : Bool} {ι : Type}

/-! ## Sums over positions -/

/-- What a position contributes to the pool of one side, seen from a token. -/
def shareOf (isPure side token : Bool) (amount : Position → ℕ)
    (position : Position) : ℤ :=
  if position.isLong = side then
    signedInToken isPure position.isCollateralTokenLong token (amount position)
  else 0

/-- What a position contributes to a total of one side. -/
def sideShareOf (side : Bool) (amount : Position → ℕ) (position : Position) : ℤ :=
  if position.isLong = side then (amount position : ℤ) else 0

section Shares

variable {position next : Position} {side token : Bool} {amount : Position → ℕ}

theorem shareOf_sub (hside : next.isLong = position.isLong)
    (hcollateral : next.isCollateralTokenLong = position.isCollateralTokenLong) :
    shareOf isPure side token amount next -
        shareOf isPure side token amount position =
      if side = position.isLong then
        signedInToken isPure position.isCollateralTokenLong token
          (amount next - amount position)
      else 0 := by
  unfold shareOf
  rw [hside, hcollateral]
  by_cases heq : side = position.isLong
  · rw [if_pos heq.symm, if_pos heq.symm, if_pos heq, sub_eq_add_neg,
      sub_eq_add_neg, signedInToken_add, signedInToken_neg]
  · rw [if_neg (Ne.symm heq), if_neg (Ne.symm heq), if_neg heq, sub_zero]

theorem sideShareOf_sub (hside : next.isLong = position.isLong) :
    sideShareOf side amount next - sideShareOf side amount position =
      if side = position.isLong then (amount next : ℤ) - amount position
      else 0 := by
  unfold sideShareOf
  rw [hside]
  by_cases heq : side = position.isLong
  · rw [if_pos heq.symm, if_pos heq.symm, if_pos heq]
  · rw [if_neg (Ne.symm heq), if_neg (Ne.symm heq), if_neg heq, sub_zero]

end Shares

namespace World

variable [Fintype ι]

/-- The sum of an amount over the positions of one side with collateral in the
token.  Positions that are not open hold nothing. -/
def sumOf (world : World isPure ι) (side token : Bool)
    (amount : Position → ℕ) : ℕ :=
  ∑ index, if (world.positions index).isLong = side then
    inToken isPure (world.positions index).isCollateralTokenLong token
      (amount (world.positions index))
  else 0

/-- The sum of an amount over the positions of one side. -/
def sumOfSide (world : World isPure ι) (side : Bool)
    (amount : Position → ℕ) : ℕ :=
  ∑ index, if (world.positions index).isLong = side then
    amount (world.positions index) else 0

theorem natCast_sumOf (world : World isPure ι) (side token : Bool)
    (amount : Position → ℕ) :
    (world.sumOf side token amount : ℤ) =
      contributed (shareOf isPure side token amount) world.positions := by
  unfold sumOf contributed shareOf
  rw [Nat.cast_sum]
  refine Finset.sum_congr rfl fun index _ => ?_
  split_ifs
  · exact natCast_inToken _ _ _
  · exact Nat.cast_zero

theorem natCast_sumOfSide (world : World isPure ι) (side : Bool)
    (amount : Position → ℕ) :
    (world.sumOfSide side amount : ℤ) =
      contributed (sideShareOf side amount) world.positions := by
  unfold sumOfSide contributed sideShareOf
  rw [Nat.cast_sum]
  refine Finset.sum_congr rfl fun index _ => ?_
  split_ifs
  · rfl
  · exact Nat.cast_zero

end World

/-! ## Collateral -/

namespace World

variable [Fintype ι] [MarketNum] [DecidableEq ι]

/-- Positions are valid and the collateral sums are those of the positions. -/
structure CollateralTracked (world : World isPure ι) : Prop where
  valid : ∀ index, (world.positions index).Valid
  collateralSum : ∀ side token,
    Tracks ((world.market.collateralSum.get side).tokenAmount token : ℤ)
      (shareOf isPure side token Position.collateralAmount) world.positions

omit [MarketNum] [DecidableEq ι] in
theorem CollateralTracked.init (config : MarketConfig) (isEnabled : Bool)
    (clock : SysvarClock) (isLong isCollateralTokenLong : ι → Bool) :
    (World.init config isEnabled clock isLong isCollateralTokenLong :
      World isPure ι).CollateralTracked where
  valid := fun index => ⟨Iff.rfl, fun _ => rfl⟩
  collateralSum := fun side token => by
    unfold Tracks
    rw [contributed_eq_zero]
    · cases side <;> simp [World.init, Market.init, Sided.get]
    · intro index
      simp [shareOf, World.init, Position.empty]

theorem CollateralTracked.update {world : World isPure ι}
    {market : Market isPure} {index : ι} {next : Position}
    {sizeInUsd sizeInTokens : ℕ} (htracked : world.CollateralTracked)
    (hnext : next.Valid)
    (hsettles : Settles world.market market (world.positions index) next
      sizeInUsd sizeInTokens) :
    (world.update market index next).CollateralTracked where
  valid := forall_update Position.Valid htracked.valid hnext
  collateralSum := fun side token => by
    apply (htracked.collateralSum side token).update
    rw [shareOf_sub hsettles.isLong_eq hsettles.isCollateralTokenLong_eq]
    exact hsettles.collateralSum side token

omit [MarketNum] [DecidableEq ι] in
theorem CollateralTracked.keeps {world : World isPure ι} {market : Market isPure}
    (htracked : world.CollateralTracked)
    (haccounts : world.market.KeepsAccounts market) :
    ({ world with market } : World isPure ι).CollateralTracked where
  valid := htracked.valid
  collateralSum := by
    simpa only [haccounts.collateralSum_eq] using htracked.collateralSum

theorem CollateralTracked.step {before after : World isPure ι}
    {action : Action ι} {flow : Flow} (htracked : before.CollateralTracked)
    (hstep : Stepped before action after flow) : after.CollateralTracked := by
  cases hstep with
  | liquidity accounts => exact htracked.keeps accounts
  | borrowing accounts => exact htracked.keeps accounts
  | funding accounts => exact htracked.keeps accounts
  | increase effects =>
      exact htracked.update effects.valid
        (effects.settles_position (htracked.valid _))
  | decrease _ effects =>
      exact htracked.update effects.valid
        (effects.settles (effects.size_ne_zero (htracked.valid _)))

theorem collateralTracked_of_run {start finish : World isPure ι}
    {flows : List Flow} {allowed : World isPure ι → Action ι → Prop}
    (hrun : Run World.step allowed start flows finish)
    (hstart : start.CollateralTracked) : finish.CollateralTracked := by
  refine hrun.preserves hstart ?_
  intro before action after flow htracked _ hstep
  exact htracked.step (World.stepped hstep)

end World

end Gmsol.System

namespace Gmsol.Model.DecreasePosition

open Gmsol.Fallible Gmsol.System CollateralProcessor

variable {isPure : Bool} [MarketNum]

/-- Settling a position leaves at most its collateral. -/
theorem nextPosition_collateral_le {market : Market isPure} {position : Position}
    {params : DecreasePositionParams} {order : DecreaseOrder}
    {processed : ProcessCollateralResult isPure} {sizeInUsd sizeInTokens : ℕ}
    {next : Position × ℕ × Bool}
    (horder : checkedOrder market position params = .ok order)
    (hprocess : processCollateral market position order = .ok processed)
    (hnext : nextPosition position sizeInUsd sizeInTokens processed.state.funds =
      .ok next) :
    next.1.collateralAmount ≤ position.collateralAmount := by
  have hchecked := checkedOrder_eq_ok horder
  obtain ⟨_, hsettled⟩ := processCollateral_eq_ok
    (by rw [hchecked.prices_eq]; exact hchecked.prices_valid) hprocess
  have hremaining := hsettled.remainingCollateral_le
  have hcollateral := (nextPosition_eq_ok hnext).2.collateralAmount_eq
  dsimp only [initialState] at hremaining
  split_ifs at hcollateral <;> omega

omit isPure in
theorem toOppositeSigned_failsOnly (value : ℕ) :
    FailsOnly (· ≠ .computation "collateral amount increased")
      (toOppositeSigned value) := by
  apply FailsOnly.bind
  · intro stopped hfail
    unfold toSigned at hfail
    split at hfail
    · exact absurd hfail (by simp)
    · rw [← Except.error.inj hfail]
      simp
  · intro signed _
    exact failsOnly_okOr fun _ => by simp

theorem applyDeltaAmount_failsOnly (pool : Pool isPure) (side : Bool) (delta : ℤ) :
    FailsOnly (· ≠ .computation "collateral amount increased")
      (pool.applyDeltaAmount side delta) := by
  unfold Pool.applyDeltaAmount Pool.applyDeltaToLongAmount
    Pool.applyDeltaToShortAmount
  split_ifs <;>
    exact (failsOnly_okOr fun _ => by simp).bind fun _ _ => failsOnly_ok _

/-- With at most the old collateral the subtraction succeeds. -/
theorem updateCollateralSum_ne_increased {market : Market isPure}
    {position : Position} {nextAmount : ℕ}
    (hle : nextAmount ≤ position.collateralAmount) :
    updateCollateralSum market position nextAmount ≠
      .error (.computation "collateral amount increased") := by
  have hsub : checkedSub position.collateralAmount nextAmount =
      some (position.collateralAmount - nextAmount) := if_pos hle
  have hfails : FailsOnly (· ≠ .computation "collateral amount increased")
      (updateCollateralSum market position nextAmount) := by
    apply FailsOnly.bind
    · exact failsOnly_okOr fun hnone => by simp [hsub] at hnone
    · intro decrease _
      apply (toOppositeSigned_failsOnly decrease).bind
      intro delta _
      exact (applyDeltaAmount_failsOnly _ _ _).bind fun _ _ => failsOnly_ok _
  intro hfail
  exact hfails _ hfail rfl

end Gmsol.Model.DecreasePosition

namespace Gmsol.System

open Gmsol.Fallible Gmsol.Model

section Collateral

variable {isPure : Bool} {ι : Type} [Fintype ι] [MarketNum] [DecidableEq ι]

/-- In every run the collateral sums are those of the positions, and a decrease
never finds that the collateral has increased. -/
theorem collateral_sums_consistent {config : MarketConfig} {isEnabled : Bool}
    {clock : SysvarClock} {isLong isCollateralTokenLong : ι → Bool}
    {flows : List Flow} {world : World isPure ι}
    (hrun : Run World.step (fun _ _ => True)
      (World.init config isEnabled clock isLong isCollateralTokenLong) flows
      world) :
    (∀ side token, (world.market.collateralSum.get side).tokenAmount token =
      world.sumOf side token Position.collateralAmount) ∧
    ∀ index params order processed sizeInUsd next market,
      DecreasePosition.checkedOrder world.market (world.positions index) params =
        .ok order →
      DecreasePosition.processCollateral world.market (world.positions index)
        order = .ok processed →
      DecreasePosition.nextPosition (world.positions index) sizeInUsd
        processed.prepared.sizeDeltaInTokens processed.state.funds = .ok next →
      DecreasePosition.updateCollateralSum (market : Market isPure)
        (world.positions index) next.1.collateralAmount ≠
          .error (.computation "collateral amount increased") := by
  have htracked := World.collateralTracked_of_run hrun
    (World.CollateralTracked.init config isEnabled clock _ _)
  constructor
  · intro side token
    have hsum := htracked.collateralSum side token
    rw [Tracks, ← World.natCast_sumOf] at hsum
    exact_mod_cast hsum
  · intro index params order processed sizeInUsd next market horder hprocess hnext
    exact DecreasePosition.updateCollateralSum_ne_increased
      (DecreasePosition.nextPosition_collateral_le horder hprocess hnext)

end Collateral

section Store

attribute [local instance] storeNumbers

/-- A long of 480 usd with short collateral, opened in a new market with
liquidity of both tokens, half of which is closed again. -/
def halfClosedRun : Option (List Flow × World false Unit) :=
  let prices : Prices := ⟨⟨120, 120⟩, ⟨120, 120⟩, ⟨1, 1⟩⟩
  perform World.step (fun _ _ => True)
    ([], World.init .unrestricted true ⟨0, 0⟩ (fun _ => true) (fun _ => false))
    [.deposit ⟨1000, 100000, prices⟩, .increase () ⟨100, 480, none, prices⟩,
      .decrease () ⟨prices, 240, none, 10, ⟨false, false, true⟩, .noSwap⟩]

theorem collateral_sums_consistent_half_closed :
    ∃ flows world, halfClosedRun = some (flows, world) ∧
      ∀ side token, (world.market.collateralSum.get side).tokenAmount token =
        world.sumOf side token Position.collateralAmount := by
  obtain ⟨⟨flows, world⟩, hperformed⟩ := Option.isSome_iff_exists.mp
    (show halfClosedRun.isSome = true by decide +kernel)
  have hrun := Run.perform .refl hperformed
  exact ⟨flows, world, hperformed, (collateral_sums_consistent hrun).1⟩

end Store

end Gmsol.System
