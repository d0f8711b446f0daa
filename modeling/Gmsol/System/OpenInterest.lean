import Gmsol.System.Aggregates

/-!
# Open interest and total borrowing

Open interest, its tokens and the total borrowing move by the deltas of a
decrease, while a removed position drops its whole size.  A long is removed
when its rounded up size in tokens reaches zero, which can happen before its
size in usd does; then the rest of the size stays in the pools for good.
-/

namespace Gmsol.Model

open Gmsol.Fallible Gmsol.System

variable {isPure : Bool} [MarketNum]

namespace DecreasePosition

/-- A long is decreased by less than its size, and the size that is left is
worth less than one token at the average price of the position. -/
def LeavesDust (market : Market isPure) (position : Position)
    (params : DecreasePositionParams) : Prop :=
  ∃ order, checkedOrder market position params = .ok order ∧
    position.isLong = true ∧ order.sizeDeltaUsd < position.sizeInUsd ∧
    (position.sizeInUsd - order.sizeDeltaUsd) * position.sizeInTokens <
      position.sizeInUsd

instance (market : Market isPure) (position : Position)
    (params : DecreasePositionParams) :
    Decidable (LeavesDust market position params) :=
  decidable_of_iff _ exists_ok_iff_any.symm

end DecreasePosition

/-- The tokens of a part of a position are all its tokens only for a long that
leaves dust. -/
theorem Position.dust_of_sizeDeltaInTokens {position : Position} {sizeDelta : ℕ}
    (htokens : position.sizeDeltaInTokens sizeDelta = .ok position.sizeInTokens)
    (hlt : sizeDelta < position.sizeInUsd) (hne : position.sizeInTokens ≠ 0) :
    position.isLong = true ∧
      (position.sizeInUsd - sizeDelta) * position.sizeInTokens <
        position.sizeInUsd := by
  have hsize : 0 < position.sizeInUsd := Nat.zero_lt_of_lt hlt
  have hpos : 0 < position.sizeInTokens := Nat.pos_of_ne_zero hne
  unfold Position.sizeDeltaInTokens at htokens
  rw [if_neg hlt.ne'] at htokens
  split_ifs at htokens with hlong
  · rw [okOr_eq_ok, checkedMulDivCeil_eq_some] at htokens
    have hceil : ¬position.sizeInTokens * sizeDelta ⌈/⌉ position.sizeInUsd ≤
        position.sizeInTokens - 1 := by omega
    rw [ceilDiv_le_iff_le_mul hsize, Nat.mul_sub, Nat.mul_one] at hceil
    refine ⟨hlong, ?_⟩
    rw [Nat.sub_mul, Nat.mul_comm sizeDelta]
    omega
  · rw [okOr_eq_ok, checkedMulDiv_eq_some] at htokens
    have hfloor : position.sizeInTokens * sizeDelta / position.sizeInUsd <
        position.sizeInTokens := by
      rw [Nat.div_lt_iff_lt_mul hsize]
      exact Nat.mul_lt_mul_of_pos_left hlt hpos
    omega

section Removal

variable {before after : Market isPure} {position next : Position}
  {params : DecreasePositionParams} {report : DecreasePositionReport}

/-- Without dust only a full close removes a position. -/
theorem DecreaseEffects.closes_whole
    (heffects : DecreaseEffects before after position next params report)
    (hdust : ¬DecreasePosition.LeavesDust before position params)
    (hremove : report.shouldRemove = true) :
    report.sizeDeltaUsd = position.sizeInUsd := by
  have hle := heffects.sizeDeltaUsd_le
  have htokensLe := heffects.sizeDeltaInTokens_le
  rcases heffects.shouldRemove_iff.mp hremove with hsize | htokens
  · omega
  · by_contra hne
    obtain ⟨order, horder, hdelta⟩ := heffects.order_eq
    have hall : report.sizeDeltaInTokens = position.sizeInTokens := by omega
    have heq := heffects.sizeDeltaInTokens_eq
    rw [hall] at heq
    obtain ⟨hlong, hleft⟩ := Position.dust_of_sizeDeltaInTokens heq (by omega)
      heffects.tokens_ne_zero
    rw [← hdelta] at hleft
    exact hdust ⟨order, horder, hlong, by omega, hleft⟩

/-- A decrease that removes only a fully closed position settles the sizes that
are left of it. -/
theorem DecreaseEffects.settles_next
    (heffects : DecreaseEffects before after position next params report)
    (hvalid : position.Valid)
    (hwhole : report.shouldRemove = true →
      report.sizeDeltaUsd = position.sizeInUsd) :
    Settles before after position next next.sizeInUsd next.sizeInTokens := by
  have hsettles := heffects.settles (heffects.size_ne_zero hvalid)
  rw [heffects.sizeInUsd_eq, heffects.sizeInTokens_eq]
  by_cases hremove : report.shouldRemove = true
  · have hdelta := hwhole hremove
    have htokens : report.sizeDeltaInTokens = position.sizeInTokens := by
      have heq := heffects.sizeDeltaInTokens_eq
      rw [hdelta, Position.sizeDeltaInTokens, if_pos rfl] at heq
      exact (Except.ok.inj heq).symm
    rw [hdelta, htokens, Nat.sub_self, Nat.sub_self] at hsettles
    simpa [hremove] using hsettles
  · simpa [hremove] using hsettles

end Removal

/-- The value of `applyFactor` at the size and borrowing factor. -/
def Position.borrowed (position : Position) : ℕ :=
  position.sizeInUsd * position.borrowingFactor / unit

end Gmsol.Model

namespace Gmsol.System

open Gmsol.Fallible Gmsol.Model

section Interest

variable {isPure : Bool} {ι : Type} [Fintype ι] [MarketNum] [DecidableEq ι]

namespace World

/-- A decrease that removes its position closes the whole size. -/
def ClosesWhole (world : World isPure ι) : Action ι → Prop
  | .decrease index params => ∀ market next report,
      DecreasePosition.execute world.market (world.positions index) params =
        .ok (market, next, report) →
      report.shouldRemove = true →
      report.sizeDeltaUsd = (world.positions index).sizeInUsd
  | _ => True

/-- A decrease leaves no dust. -/
def NoDust (world : World isPure ι) : Action ι → Prop
  | .decrease index params =>
      ¬DecreasePosition.LeavesDust world.market (world.positions index) params
  | _ => True

instance (world : World isPure ι) (action : Action ι) :
    Decidable (world.NoDust action) :=
  match action with
  | .decrease index params => inferInstanceAs (Decidable
      (¬DecreasePosition.LeavesDust world.market (world.positions index) params))
  | .deposit _ | .withdraw _ | .swap _ | .increase _ _ | .updateFunding _
  | .updateBorrowing _ | .distributePositionImpact | .tick _
  | .configure _ _ => inferInstanceAs (Decidable True)

omit [Fintype ι] [DecidableEq ι] in
theorem NoDust.closesWhole {world : World isPure ι} {action : Action ι}
    (hdust : world.NoDust action) : world.ClosesWhole action := by
  cases action with
  | decrease index params =>
      intro market next report hexecute
      exact (DecreasePosition.execute_effects hexecute).closes_whole hdust
  | _ => trivial

/-- The pools of sizes and borrowing are those of the positions. -/
structure InterestTracked (world : World isPure ι) : Prop where
  openInterest : ∀ side token,
    Tracks ((world.market.openInterest.get side).tokenAmount token : ℤ)
      (shareOf isPure side token Position.sizeInUsd) world.positions
  openInterestInTokens : ∀ side token,
    Tracks ((world.market.openInterestInTokens.get side).tokenAmount token : ℤ)
      (shareOf isPure side token Position.sizeInTokens) world.positions
  totalBorrowing : ∀ side,
    Tracks (world.market.totalBorrowingAmount side : ℤ)
      (sideShareOf side Position.borrowed) world.positions

omit [DecidableEq ι] in
theorem InterestTracked.init (config : MarketConfig) (isEnabled : Bool)
    (clock : SysvarClock) (isLong isCollateralTokenLong : ι → Bool) :
    (World.init config isEnabled clock isLong isCollateralTokenLong :
      World isPure ι).InterestTracked where
  openInterest := fun side token => by
    unfold Tracks
    rw [contributed_eq_zero]
    · cases side <;> simp [World.init, Market.init, Sided.get]
    · intro index
      simp [shareOf, World.init, Position.empty]
  openInterestInTokens := fun side token => by
    unfold Tracks
    rw [contributed_eq_zero]
    · cases side <;> simp [World.init, Market.init, Sided.get]
    · intro index
      simp [shareOf, World.init, Position.empty]
  totalBorrowing := fun side => by
    unfold Tracks
    rw [contributed_eq_zero]
    · cases side <;> rfl
    · intro index
      simp [sideShareOf, World.init, Position.empty, Position.borrowed]

omit [DecidableEq ι] in
/-- Nothing changes for the pools and positions of a market that keeps them. -/
theorem InterestTracked.keeps {world : World isPure ι} {market : Market isPure}
    (htracked : world.InterestTracked)
    (haccounts : world.market.KeepsAccounts market) :
    ({ world with market } : World isPure ι).InterestTracked where
  openInterest := by
    simpa only [haccounts.openInterest_eq] using htracked.openInterest
  openInterestInTokens := by
    simpa only [haccounts.openInterestInTokens_eq] using
      htracked.openInterestInTokens
  totalBorrowing := by
    simpa only [Market.totalBorrowingAmount, haccounts.totalBorrowing_eq] using
      htracked.totalBorrowing

theorem InterestTracked.update {world : World isPure ι} {market : Market isPure}
    {index : ι} {next : Position} (htracked : world.InterestTracked)
    (hsettles : Settles world.market market (world.positions index) next
      next.sizeInUsd next.sizeInTokens) :
    (world.update market index next).InterestTracked where
  openInterest := fun side token => by
    apply (htracked.openInterest side token).update
    rw [shareOf_sub hsettles.isLong_eq hsettles.isCollateralTokenLong_eq]
    exact hsettles.openInterest side token
  openInterestInTokens := fun side token => by
    apply (htracked.openInterestInTokens side token).update
    rw [shareOf_sub hsettles.isLong_eq hsettles.isCollateralTokenLong_eq]
    exact hsettles.openInterestInTokens side token
  totalBorrowing := fun side => by
    apply (htracked.totalBorrowing side).update
    rw [sideShareOf_sub hsettles.isLong_eq]
    exact hsettles.totalBorrowing side

theorem InterestTracked.step {before after : World isPure ι}
    {action : Action ι} {flow : Flow} (htracked : before.InterestTracked)
    (hvalid : ∀ index, (before.positions index).Valid)
    (hwhole : before.ClosesWhole action)
    (hstep : Stepped before action after flow) : after.InterestTracked := by
  cases hstep with
  | liquidity accounts => exact htracked.keeps accounts
  | borrowing accounts => exact htracked.keeps accounts
  | funding accounts => exact htracked.keeps accounts
  | increase effects =>
      exact htracked.update (effects.settles_position (hvalid _))
  | decrease executed effects =>
      exact htracked.update
        (effects.settles_next (hvalid _) (hwhole _ _ _ executed))

/-- Runs in which every removal closes the whole size. -/
theorem interestTracked_of_run {start finish : World isPure ι}
    {flows : List Flow} (hrun : Run World.step ClosesWhole start flows finish)
    (hcollateral : start.CollateralTracked) (hstart : start.InterestTracked) :
    finish.InterestTracked := by
  have hboth : finish.CollateralTracked ∧ finish.InterestTracked := by
    apply hrun.preserves
    · exact ⟨hcollateral, hstart⟩
    · rintro before action after flow ⟨hcollateral, htracked⟩ hwhole hstep
      have hstepped := World.stepped hstep
      exact ⟨hcollateral.step hstepped,
        htracked.step hcollateral.valid hwhole hstepped⟩
  exact hboth.2

end World

/-- In every run whose decreases leave no dust the pools of open interest, of
its tokens and of total borrowing are the sums over the positions. -/
theorem open_interest_consistent {config : MarketConfig} {isEnabled : Bool}
    {clock : SysvarClock} {isLong isCollateralTokenLong : ι → Bool}
    {flows : List Flow} {world : World isPure ι}
    (hrun : Run World.step World.NoDust
      (World.init config isEnabled clock isLong isCollateralTokenLong) flows
      world) :
    (∀ side token, (world.market.openInterest.get side).tokenAmount token =
      world.sumOf side token Position.sizeInUsd) ∧
    (∀ side token,
      (world.market.openInterestInTokens.get side).tokenAmount token =
        world.sumOf side token Position.sizeInTokens) ∧
    ∀ side, world.market.totalBorrowingAmount side =
      world.sumOfSide side Position.borrowed := by
  have htracked := World.interestTracked_of_run
    (hrun.mono fun _ _ => World.NoDust.closesWhole)
    (World.CollateralTracked.init config isEnabled clock _ _)
    (World.InterestTracked.init config isEnabled clock _ _)
  refine ⟨fun side token => ?_, fun side token => ?_, fun side => ?_⟩
  · have hsum := htracked.openInterest side token
    rw [Tracks, ← World.natCast_sumOf] at hsum
    exact_mod_cast hsum
  · have hsum := htracked.openInterestInTokens side token
    rw [Tracks, ← World.natCast_sumOf] at hsum
    exact_mod_cast hsum
  · have hsum := htracked.totalBorrowing side
    rw [Tracks, ← World.natCast_sumOfSide] at hsum
    exact_mod_cast hsum

end Interest

section Store

attribute [local instance] storeNumbers

def oneTokenStart : World false Unit :=
  World.init .unrestricted true ⟨0, 0⟩ (fun _ => true) (fun _ => false)

/-- Adds liquidity, opens a long of 150 usd at a price of 100, which makes one
token, and decreases the long by `size`. -/
def oneTokenActions (size : ℕ) : List (Action Unit) :=
  let prices : Prices := ⟨⟨100, 100⟩, ⟨100, 100⟩, ⟨1, 1⟩⟩
  [.deposit ⟨1000, 100000, prices⟩, .increase () ⟨100, 150, none, prices⟩,
    .decrease () ⟨prices, size, none, 0, ⟨false, false, true⟩, .noSwap⟩]

/-- Closing the whole long leaves no open interest. -/
theorem open_interest_consistent_whole_close :
    ∃ flows world,
      Run World.step World.NoDust oneTokenStart flows world ∧
      world.market.openInterest.get true = ⟨0, 0⟩ ∧
      ∀ side token, (world.market.openInterest.get side).tokenAmount token =
        world.sumOf side token Position.sizeInUsd := by
  obtain ⟨⟨flows, world⟩, hperformed, hclosed⟩ :
      ∃ done, perform World.step World.NoDust ([], oneTokenStart)
        (oneTokenActions 150) = some done ∧
        done.2.market.openInterest.get true = ⟨0, 0⟩ :=
    exists_of_any (by decide +kernel)
  have hrun := Run.perform .refl hperformed
  exact ⟨flows, world, hrun, hclosed, (open_interest_consistent hrun).1⟩

/-- Closing half of the long rounds its tokens up to the whole token: the
position is removed and 75 usd of open interest are left without an owner. -/
theorem open_interest_inconsistent_half_close :
    ∃ flows world,
      Run World.step (fun _ _ => True) oneTokenStart flows world ∧
      (world.market.openInterest.get true).tokenAmount false = 75 ∧
      world.sumOf true false Position.sizeInUsd = 0 := by
  obtain ⟨⟨flows, world⟩, hperformed, hinterest⟩ :
      ∃ done, perform World.step (fun _ _ => True) ([], oneTokenStart)
        (oneTokenActions 75) = some done ∧
        ((done.2.market.openInterest.get true).tokenAmount false = 75 ∧
          done.2.sumOf true false Position.sizeInUsd = 0) :=
    exists_of_any (by decide +kernel)
  exact ⟨flows, world, Run.perform .refl hperformed, hinterest⟩

end Store

end Gmsol.System
