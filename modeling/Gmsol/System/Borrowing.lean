import Gmsol.System.OpenInterest

/-!
# Borrowing accounting

The total borrowing of a side is a sum of floors taken when positions were last
settled; the pending borrowing fees compare it with one floor over the whole
open interest.  Removed positions may leave size and borrowing without an
owner, so the invariant keeps track of these remainders as well.
-/

namespace Gmsol.Model

open Gmsol.Fallible Gmsol.System

variable {isPure : Bool} [MarketNum]

omit isPure in
theorem add_applied_le (left right factor : ℕ) :
    left * factor / unit + right * factor / unit ≤
      (left + right) * factor / unit := by
  rw [Nat.add_mul]
  exact Nat.div_add_div_le_add_div

omit isPure in
theorem applied_mono {left right small large : ℕ} (hvalue : left ≤ right)
    (hfactor : small ≤ large) : left * small / unit ≤ right * large / unit :=
  Nat.div_le_div_right (Nat.mul_le_mul hvalue hfactor)

/-- The floors of a sum's parts are at most the floor of the sum. -/
theorem sum_applied_le {ι : Type} (indices : Finset ι) (value : ι → ℕ)
    (factor : ℕ) :
    ∑ index ∈ indices, value index * factor / unit ≤
      (∑ index ∈ indices, value index) * factor / unit := by
  induction indices using Finset.cons_induction with
  | empty => simp
  | cons index rest hnew ih =>
      rw [Finset.sum_cons, Finset.sum_cons]
      exact (Nat.add_le_add_left ih _).trans (add_applied_le _ _ _)

/-! ## How borrowing fees can fail -/

/-- The texts of the sums and products of the borrowing fees that can exceed
the number type. -/
def borrowingOverflows : List String :=
  ["usage factor: calculating max reserved factor",
    "usage factor: calculating reserve usage factor",
    "usage factor: calculating open interest usage factor",
    "borrowing fee kink model: calculating borrowing factor per second",
    "borrowing fee kink model: increasing borrowing factor per second",
    "calculating reserved value after exponent",
    "calculating reserved value to pool factor",
    "calculating borrowing factor per second",
    "calculating borrowing factor delta",
    "calculating next borrowing factor",
    "calculating total pending borrowing fees"]

/-- Overflows, and an empty pool value. -/
inductive BorrowingFailure : Error → Prop
  | emptyPoolValue : BorrowingFailure .unableToGetBorrowingFactorEmptyPoolValue
  | overflow : BorrowingFailure .overflow
  | convert : BorrowingFailure .convert
  | computation {message : String} (hmessage : message ∈ borrowingOverflows) :
      BorrowingFailure (.computation message)

namespace Market

variable (market : Market isPure)

theorem openInterestAmount_fails (side : Bool) :
    FailsOnly BorrowingFailure (market.openInterestAmount side) :=
  failsOnly_okOr fun _ => .overflow

theorem reservedValue_fails (indexTokenPrice : Price) (side : Bool) :
    FailsOnly BorrowingFailure (market.reservedValue indexTokenPrice side) := by
  unfold reservedValue
  split_ifs
  · refine .okOr_bind (fun _ => .overflow) fun tokens _ => ?_
    exact failsOnly_okOr fun _ => .overflow
  · exact market.openInterestAmount_fails false

theorem skipsBorrowingFee_fails (side : Bool) :
    FailsOnly BorrowingFailure (market.skipsBorrowingFee side) := by
  unfold skipsBorrowingFee
  split_ifs
  · apply (market.openInterestAmount_fails true).bind
    intro longInterest _
    apply (market.openInterestAmount_fails false).bind
    intro shortInterest _
    exact failsOnly_ok _
  · exact failsOnly_ok _

theorem usageFactor_fails (side : Bool) (reservedValue poolValue : ℕ) :
    FailsOnly BorrowingFailure
      (market.usageFactor side reservedValue poolValue) := by
  refine .okOr_bind (fun _ => .computation (by decide))
    fun maxReservedValue _ => ?_
  refine .okOr_bind (fun _ => .computation (by decide))
    fun reserveUsageFactor _ => ?_
  split_ifs
  · exact failsOnly_ok _
  · apply (market.openInterestAmount_fails side).bind
    intro openInterest _
    refine .okOr_bind (fun _ => .computation (by decide))
        fun openInterestUsageFactor _ => ?_
    exact failsOnly_ok _

/-- The subtractions of the kink model are guarded by their comparisons. -/
theorem kinkModelBorrowingFactorPerSecond_fails (side : Bool)
    (reservedValue poolValue : ℕ) :
    FailsOnly BorrowingFailure (market.kinkModelBorrowingFactorPerSecond side
      reservedValue poolValue) := by
  unfold kinkModelBorrowingFactorPerSecond
  dsimp only
  split
  · exact failsOnly_ok _
  · apply (market.usageFactor_fails side reservedValue poolValue).bind
    intro usageFactor _
    refine .okOr_bind (fun _ => .computation (by decide)) fun base _ => ?_
    split
    · rename_i habove
      refine .okOr_bind (fun hnone => ?_) fun diff _ => ?_
      · simp [checkedSub, habove.1.le] at hnone
      apply FailsOnly.bind
      · split
        · rename_i hmore
          exact failsOnly_okOr fun hnone => by simp [checkedSub, hmore.le] at hnone
        · exact failsOnly_ok _
      · intro additional _
        refine .okOr_bind (fun hnone => ?_) fun divisor _ => ?_
        · simp [checkedSub, habove.2.le] at hnone
        refine .okOr_bind (fun _ => .computation (by decide)) fun factor _ => ?_
        exact failsOnly_ok _
    · exact failsOnly_ok _

theorem borrowingFactorPerSecond_fails (side : Bool) (prices : Prices) :
    FailsOnly BorrowingFailure (market.borrowingFactorPerSecond side prices) := by
  apply (market.reservedValue_fails prices.indexTokenPrice side).bind
  intro reservedValue _
  split
  · exact failsOnly_ok _
  · apply (market.skipsBorrowingFee_fails side).bind
    intro skips _
    split
    · exact failsOnly_ok _
    · refine .okOr_bind (fun _ => .overflow) fun poolValue _ => ?_
      refine .bind (failsOnly_ensure fun _ => .emptyPoolValue) fun _ _ => ?_
      apply (market.kinkModelBorrowingFactorPerSecond_fails side reservedValue
        poolValue).bind
      intro kink _
      cases kink with
      | some factor => exact failsOnly_ok _
      | none =>
          refine .okOr_bind (fun _ => .computation (by decide))
            fun afterExponent _ => ?_
          refine .okOr_bind (fun _ => .computation (by decide))
            fun toPoolFactor _ => ?_
          exact failsOnly_okOr fun _ => .computation (by decide)

theorem nextCumulativeBorrowingFactor_fails (side : Bool) (prices : Prices)
    (duration : ℕ) :
    FailsOnly BorrowingFailure
      (market.nextCumulativeBorrowingFactor side prices duration) := by
  apply (market.borrowingFactorPerSecond_fails side prices).bind
  intro perSecond _
  refine .okOr_bind (fun _ => .convert) fun durationValue _ => ?_
  refine .okOr_bind (fun _ => .computation (by decide)) fun delta _ => ?_
  refine .okOr_bind (fun _ => .computation (by decide)) fun next _ => ?_
  exact failsOnly_ok _

theorem totalPendingBorrowingFees_fails (prices : Prices) (side : Bool) :
    FailsOnly BorrowingFailure (market.totalPendingBorrowingFees prices side) := by
  apply (market.openInterestAmount_fails side).bind
  intro openInterest _
  apply (market.nextCumulativeBorrowingFactor_fails side prices _).bind
  intro next _
  exact failsOnly_okOr fun _ => .computation (by decide)

variable {market}

/-- The pending fees of a side whose borrowing is bounded: only the product of
open interest and factor can be too large, never the subtraction. -/
theorem totalPendingBorrowingFees_eq {prices : Prices} {side : Bool}
    {openInterest total : ℕ} {next : ℕ × ℕ}
    (hbound : market.totalBorrowingAmount side ≤
      (market.openInterest.get side).total *
        market.cumulativeBorrowingFactor side / unit)
    (hinterest : market.openInterestAmount side = .ok openInterest)
    (hnext : market.nextCumulativeBorrowingFactor side prices
      market.passedInSecondsForBorrowing = .ok next)
    (htotal : applyFactor openInterest next.1 = some total) :
    market.totalPendingBorrowingFees prices side =
      .ok (total - market.totalBorrowingAmount side) := by
  have hamount : openInterest = (market.openInterest.get side).total := by
    simp only [openInterestAmount, mergedAmount, okOr_eq_ok, checkedAdd_eq_some]
      at hinterest
    exact hinterest.2.symm
  have hfactor := nextCumulativeBorrowingFactor_eq_ok hnext
  have hle : market.totalBorrowingAmount side ≤ total := by
    rw [applyFactor_eq_some] at htotal
    rw [← htotal.2, hamount]
    exact hbound.trans (applied_mono le_rfl (by omega))
  simp [totalPendingBorrowingFees, hinterest, hnext, htotal, checkedSub, hle,
    bind, Except.bind, okOr]

end Market

theorem Position.pendingBorrowingFeeValue_eq {position : Position}
    {market : Market isPure}
    (hfactor : position.borrowingFactor ≤
      market.cumulativeBorrowingFactor position.isLong) :
    position.pendingBorrowingFeeValue market =
      okOr (applyFactor position.sizeInUsd
        (market.cumulativeBorrowingFactor position.isLong -
          position.borrowingFactor))
        (.computation "calculating borrowing fee value") := by
  simp [pendingBorrowingFeeValue, checkedSub, hfactor, okOr, bind, Except.bind]

end Gmsol.Model

namespace Gmsol.System

open Gmsol.Fallible Gmsol.Model

section Borrowing

variable {isPure : Bool} {ι : Type} [Fintype ι] [MarketNum] [DecidableEq ι]

/-- Positions own all of a side's open interest and borrowing but the
remainders `interest` and `borrowed`. -/
structure Owned (world : World isPure ι) (side : Bool)
    (interest borrowed : ℕ) : Prop where
  interest_tracked :
    Tracks (((world.market.openInterest.get side).total : ℤ) - interest)
      (sideShareOf side Position.sizeInUsd) world.positions
  borrowed_tracked :
    Tracks ((world.market.totalBorrowingAmount side : ℤ) - borrowed)
      (sideShareOf side Position.borrowed) world.positions
  borrowed_le : borrowed ≤
    interest * world.market.cumulativeBorrowingFactor side / unit

/-- Factors of positions are behind the cumulative ones, and what positions do
not own of the borrowing is at most what their missing interest would owe. -/
structure World.BorrowingBounded (world : World isPure ι) : Prop where
  factor_le : ∀ index, (world.positions index).borrowingFactor ≤
    world.market.cumulativeBorrowingFactor (world.positions index).isLong
  owned : ∀ side, ∃ interest borrowed, Owned world side interest borrowed

namespace World.BorrowingBounded

omit [DecidableEq ι] in
theorem init (config : MarketConfig) (isEnabled : Bool)
    (clock : SysvarClock) (isLong isCollateralTokenLong : ι → Bool) :
    (World.init config isEnabled clock isLong isCollateralTokenLong :
      World isPure ι).BorrowingBounded where
  factor_le := fun index => Nat.zero_le _
  owned := fun side => by
    refine ⟨0, 0, ?_, ?_, Nat.zero_le _⟩
    · unfold Tracks
      rw [contributed_eq_zero]
      · cases side <;> simp [World.init, Market.init, Sided.get]
      · intro index
        simp [sideShareOf, World.init, Position.empty]
    · unfold Tracks
      rw [contributed_eq_zero]
      · cases side <;> rfl
      · intro index
        simp [sideShareOf, World.init, Position.empty, Position.borrowed]

omit [DecidableEq ι] in
/-- Pools and positions stay and factors do not shrink. -/
theorem keeps {world : World isPure ι} {market : Market isPure}
    (hbounded : world.BorrowingBounded)
    (haccounts : world.market.KeepsAccounts market)
    (hfactor : ∀ side, world.market.cumulativeBorrowingFactor side ≤
      market.cumulativeBorrowingFactor side) :
    ({ world with market } : World isPure ι).BorrowingBounded where
  factor_le := fun index => (hbounded.factor_le index).trans (hfactor _)
  owned := fun side => by
    obtain ⟨interest, borrowed, howned⟩ := hbounded.owned side
    refine ⟨interest, borrowed, ?_, ?_,
      howned.borrowed_le.trans (applied_mono le_rfl (hfactor side))⟩
    · rw [haccounts.openInterest_eq]
      exact howned.interest_tracked
    · rw [Market.totalBorrowingAmount, haccounts.totalBorrowing_eq]
      exact howned.borrowed_tracked

/-- A settled position takes its part of the pools along; what a removal leaves
behind is added to the remainders. -/
theorem update {world : World isPure ι} {market : Market isPure}
    {index : ι} {next : Position} {sizeInUsd sizeInTokens : ℕ}
    (hbounded : world.BorrowingBounded)
    (hsettles : Settles world.market market (world.positions index) next
      sizeInUsd sizeInTokens)
    (hsize : next.sizeInUsd = sizeInUsd ∨ next.sizeInUsd = 0) :
    (world.update market index next).BorrowingBounded where
  factor_le := by
    refine World.forall_update (fun position => position.borrowingFactor ≤
      market.cumulativeBorrowingFactor position.isLong) ?_ ?_
    · simpa only [Market.cumulativeBorrowingFactor, hsettles.borrowingFactor_eq]
        using hbounded.factor_le
    · rw [hsettles.isLong_eq, Market.cumulativeBorrowingFactor,
        hsettles.borrowingFactor_eq]
      exact hsettles.borrowing_settled.le
  owned := fun side => by
    obtain ⟨interest, borrowed, howned⟩ := hbounded.owned side
    have hfactor : market.cumulativeBorrowingFactor side =
        world.market.cumulativeBorrowingFactor side := by
      rw [Market.cumulativeBorrowingFactor, hsettles.borrowingFactor_eq,
        Market.cumulativeBorrowingFactor]
    have hinterest := hsettles.openInterest_total side
    have hborrowing := hsettles.totalBorrowing side
    by_cases hside : side = (world.positions index).isLong
    · rw [if_pos hside] at hinterest hborrowing
      have hle : next.borrowed ≤ sizeInUsd * next.borrowingFactor / unit :=
        applied_mono (by omega) le_rfl
      refine ⟨interest + (sizeInUsd - next.sizeInUsd), borrowed +
        (sizeInUsd * next.borrowingFactor / unit - next.borrowed), ?_, ?_, ?_⟩
      · apply howned.interest_tracked.update
        rw [sideShareOf_sub hsettles.isLong_eq, if_pos hside]
        dsimp only [World.update]
        omega
      · apply howned.borrowed_tracked.update
        rw [sideShareOf_sub hsettles.isLong_eq, if_pos hside]
        dsimp only [World.update]
        rw [Nat.cast_add, Nat.cast_sub hle, hborrowing]
        simp only [Position.borrowed]
        ring
      · have hsettled : next.borrowingFactor =
            world.market.cumulativeBorrowingFactor side := by
          rw [hside]
          exact hsettles.borrowing_settled
        dsimp only [World.update]
        rw [hfactor, hsettled]
        have hbound := howned.borrowed_le
        rcases hsize with hkept | hremoved
        · rw [Position.borrowed, hsettled, hkept, Nat.sub_self, Nat.sub_self,
            Nat.add_zero, Nat.add_zero]
          exact hbound
        · rw [Position.borrowed, hremoved, Nat.zero_mul, Nat.zero_div,
            Nat.sub_zero, Nat.sub_zero]
          exact (Nat.add_le_add_right hbound _).trans (add_applied_le _ _ _)
    · rw [if_neg hside, add_zero] at hinterest hborrowing
      refine ⟨interest, borrowed, ?_, ?_, ?_⟩
      · apply howned.interest_tracked.update
        rw [sideShareOf_sub hsettles.isLong_eq, if_neg hside, add_zero]
        exact congrArg (· - (interest : ℤ)) hinterest
      · apply howned.borrowed_tracked.update
        rw [sideShareOf_sub hsettles.isLong_eq, if_neg hside, add_zero]
        exact congrArg (· - (borrowed : ℤ)) hborrowing
      · exact hfactor ▸ howned.borrowed_le

theorem step {before after : World isPure ι} {action : Action ι} {flow : Flow}
    (hbounded : before.BorrowingBounded)
    (hvalid : ∀ index, (before.positions index).Valid)
    (hstep : Stepped before action after flow) : after.BorrowingBounded := by
  cases hstep with
  | liquidity accounts _ borrowing =>
      exact hbounded.keeps accounts fun side => by
        simp only [Market.cumulativeBorrowingFactor, borrowing, le_refl]
  | borrowing accounts _ borrowing => exact hbounded.keeps accounts borrowing
  | funding accounts borrowing =>
      exact hbounded.keeps accounts fun side => by
        simp only [Market.cumulativeBorrowingFactor, borrowing, le_refl]
  | increase effects =>
      exact hbounded.update (effects.settles_position (hvalid _)) (.inl rfl)
  | decrease _ effects =>
      refine hbounded.update
        (effects.settles (effects.size_ne_zero (hvalid _))) ?_
      rw [effects.sizeInUsd_eq]
      split_ifs
      · exact .inr rfl
      · exact .inl rfl

theorem of_run {start finish : World isPure ι} {flows : List Flow}
    {allowed : World isPure ι → Action ι → Prop}
    (hrun : Run World.step allowed start flows finish)
    (hcollateral : start.CollateralTracked) (hstart : start.BorrowingBounded) :
    finish.BorrowingBounded := by
  have hboth : finish.CollateralTracked ∧ finish.BorrowingBounded := by
    apply hrun.preserves
    · exact ⟨hcollateral, hstart⟩
    · rintro before action after flow ⟨hcollateral, hbounded⟩ _ hstep
      have hstepped := World.stepped hstep
      exact ⟨hcollateral.step hstepped, hbounded.step hcollateral.valid hstepped⟩
  exact hboth.2

omit [DecidableEq ι] in
/-- The total borrowing of a side is at most the borrowing of its whole open
interest. -/
theorem totalBorrowing_le {world : World isPure ι}
    (hbounded : world.BorrowingBounded) (side : Bool) :
    world.market.totalBorrowingAmount side ≤
      (world.market.openInterest.get side).total *
        world.market.cumulativeBorrowingFactor side / unit := by
  obtain ⟨interest, borrowed, howned⟩ := hbounded.owned side
  have hinterest := howned.interest_tracked
  have hborrowed := howned.borrowed_tracked
  rw [Tracks, ← World.natCast_sumOfSide] at hinterest hborrowed
  have hsum : world.sumOfSide side Position.borrowed ≤
      world.sumOfSide side Position.sizeInUsd *
        world.market.cumulativeBorrowingFactor side / unit := by
    refine (Finset.sum_le_sum fun index _ => ?_).trans (sum_applied_le _ _ _)
    split_ifs with hside
    · exact applied_mono le_rfl (hside ▸ hbounded.factor_le index)
    · exact Nat.zero_le _
  calc
    world.market.totalBorrowingAmount side =
        world.sumOfSide side Position.borrowed + borrowed := by omega
    _ ≤ world.sumOfSide side Position.sizeInUsd *
          world.market.cumulativeBorrowingFactor side / unit +
        interest * world.market.cumulativeBorrowingFactor side / unit :=
      Nat.add_le_add hsum howned.borrowed_le
    _ ≤ (world.sumOfSide side Position.sizeInUsd + interest) *
          world.market.cumulativeBorrowingFactor side / unit :=
      add_applied_le _ _ _
    _ = (world.market.openInterest.get side).total *
          world.market.cumulativeBorrowingFactor side / unit := by
      congr 2
      omega

end World.BorrowingBounded

/-- In every run total borrowing is bounded by the borrowing of the open
interest and no position is ahead of the cumulative factor, so that pending
borrowing fees fail only on overflow or on an empty pool value. -/
theorem borrowing_never_underflows {config : MarketConfig} {isEnabled : Bool}
    {clock : SysvarClock} {isLong isCollateralTokenLong : ι → Bool}
    {flows : List Flow} {world : World isPure ι}
    (hrun : Run World.step (fun _ _ => True)
      (World.init config isEnabled clock isLong isCollateralTokenLong) flows
      world) :
    (∀ side, world.market.totalBorrowingAmount side ≤
      (world.market.openInterest.get side).total *
        world.market.cumulativeBorrowingFactor side / unit) ∧
    (∀ index, (world.positions index).borrowingFactor ≤
      world.market.cumulativeBorrowingFactor (world.positions index).isLong) ∧
    (∀ side prices openInterest next total,
      world.market.openInterestAmount side = .ok openInterest →
      world.market.nextCumulativeBorrowingFactor side prices
        world.market.passedInSecondsForBorrowing = .ok next →
      applyFactor openInterest next.1 = some total →
      world.market.totalPendingBorrowingFees prices side =
        .ok (total - world.market.totalBorrowingAmount side)) ∧
    (∀ side prices, FailsOnly BorrowingFailure
      (world.market.totalPendingBorrowingFees prices side)) ∧
    ∀ index, (world.positions index).pendingBorrowingFeeValue world.market =
      okOr (applyFactor (world.positions index).sizeInUsd
        (world.market.cumulativeBorrowingFactor (world.positions index).isLong -
          (world.positions index).borrowingFactor))
        (.computation "calculating borrowing fee value") := by
  have hbounded := World.BorrowingBounded.of_run hrun
    (World.CollateralTracked.init config isEnabled clock _ _)
    (World.BorrowingBounded.init config isEnabled clock _ _)
  refine ⟨hbounded.totalBorrowing_le, hbounded.factor_le, ?_, ?_, ?_⟩
  · intro side prices openInterest next total hinterest hnext htotal
    exact Market.totalPendingBorrowingFees_eq (hbounded.totalBorrowing_le side)
      hinterest hnext htotal
  · intro side prices
    exact world.market.totalPendingBorrowingFees_fails prices side
  · intro index
    exact Position.pendingBorrowingFeeValue_eq (hbounded.factor_le index)

end Borrowing

section Store

attribute [local instance] storeNumbers

/-- A long of one token pays borrowing fees for 1000 seconds and is then removed
by closing half of its size. -/
def borrowingDustRun : Option (List Flow × World false Unit) :=
  let prices : Prices :=
    ⟨⟨10 ^ 22, 10 ^ 22⟩, ⟨10 ^ 22, 10 ^ 22⟩, ⟨10 ^ 20, 10 ^ 20⟩⟩
  let config : MarketConfig :=
    { MarketConfig.unrestricted with
      borrowingFeeParams := ⟨0, fun _ => 10 ^ 20, fun _ => 10 ^ 18, false⟩ }
  perform World.step (fun _ _ => True)
    ([], World.init config true ⟨0, 0⟩ (fun _ => true) (fun _ => false))
    [.deposit ⟨1000, 100000, prices⟩,
      .increase () ⟨100, 150 * 10 ^ 20, none, prices⟩, .tick ⟨1, 1000⟩,
      .updateBorrowing prices,
      .decrease () ⟨prices, 75 * 10 ^ 20, none, 0, ⟨true, false, true⟩, .noSwap⟩]

/-- The removed long leaves a total borrowing that its leftover open interest
covers exactly. -/
theorem borrowing_never_underflows_after_dust :
    ∃ flows world, borrowingDustRun = some (flows, world) ∧
      world.market.totalBorrowingAmount true = 75 * 10 ^ 18 ∧
      world.market.totalBorrowingAmount true ≤
        (world.market.openInterest.get true).total *
          world.market.cumulativeBorrowingFactor true / unit := by
  obtain ⟨⟨flows, world⟩, hperformed, hborrowing⟩ :
      ∃ done, borrowingDustRun = some done ∧
        done.2.market.totalBorrowingAmount true = 75 * 10 ^ 18 :=
    exists_of_any (by decide +kernel)
  have hrun := Run.perform .refl hperformed
  exact ⟨flows, world, hperformed, hborrowing,
    (borrowing_never_underflows hrun).1 true⟩

end Store

end Gmsol.System
