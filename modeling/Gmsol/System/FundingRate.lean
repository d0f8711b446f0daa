import Gmsol.System.Steps

/-!
# The funding rate

Every update of the funding state moves the stored funding factor by at most one
change and clamps it.  The factor that is charged is the stored one raised to the
minimum; its sign says which side pays.
-/

namespace Gmsol.Model

open Gmsol.Fallible

section Bounds

variable [MarketNum]

theorem toSignedWithSign_eq_ok {value : ℕ} {negative : Bool} {result : ℤ}
    (hsigned : toSignedWithSign value negative = .ok result) :
    result = if negative then -(value : ℤ) else value := by
  cases negative with
  | false => exact (toSigned_eq_ok.mp hsigned).2.symm
  | true => exact (toOppositeSigned_eq_ok.mp hsigned).2.symm

/-- Bounding the magnitude keeps the sign; zero counts as positive. -/
theorem boundMagnitude_eq_ok {value result : ℤ} {lower upper : ℕ}
    (hbound : boundMagnitude value lower upper = .ok result) :
    lower ≤ upper ∧
      result = if value < 0 then -((max lower (min value.natAbs upper) : ℕ) : ℤ)
        else ((max lower (min value.natAbs upper) : ℕ) : ℤ) := by
  rw [boundMagnitude] at hbound
  split at hbound
  · exact absurd hbound (by simp)
  · refine ⟨by omega, ?_⟩
    split at hbound
    · rw [toSignedWithSign_eq_ok hbound]
      simp only [decide_eq_true_eq]
      split <;> omega
    · split at hbound
      · rw [toSignedWithSign_eq_ok hbound]
        simp only [decide_eq_true_eq]
        split <;> omega
      · obtain rfl := Except.ok.inj hbound
        split <;> omega

end Bounds

namespace UpdateFundingState

variable [MarketNum] {isPure : Bool}

/-- The imbalance of the open interest as a factor of the total. -/
def diffFactorOf (params : FundingFeeParams) (longInterest shortInterest : ℕ) :
    Option ℕ := do
  let afterExponent ←
    applyExponentFactor (diff longInterest shortInterest) params.exponent
  divToFactor afterExponent (longInterest + shortInterest) false

/-- The funding flows in the direction of the skew: the larger side has been
paying. -/
def SkewInDirectionOf (factor : ℤ) (longInterest shortInterest : ℕ) : Prop :=
  (0 < factor ∧ shortInterest < longInterest) ∨
    (factor < 0 ∧ longInterest < shortInterest)

/-- A decrease moves the factor toward zero, but not past it. -/
theorem decreasedFactor_eq_ok {params : FundingFeeParams} {factor next : ℤ}
    {durationValue : ℕ}
    (hdecrease : decreasedFactor params factor durationValue = .ok next)
    (hfactor : factor ≠ 0) :
    (0 < factor → 0 ≤ next ∧ next ≤ factor) ∧
      (factor < 0 → factor ≤ next ∧ next ≤ 0) := by
  simp only [decreasedFactor, bind_eq_ok, okOr_eq_ok, checkedMul_eq_some] at hdecrease
  obtain ⟨decrease, -, hnext⟩ := hdecrease
  split at hnext
  · simp only [bind_eq_ok, okOr_eq_ok, toSigned_eq_ok] at hnext
    obtain ⟨_, ⟨-, rfl⟩, hdiv⟩ := hnext
    rw [signedDiv, if_neg (by omega), narrowSigned_eq_some] at hdiv
    rw [← hdiv.2]
    constructor
    · intro hpositive
      rw [Int.natAbs_of_nonneg hpositive.le, Int.tdiv_self hfactor]
      omega
    · intro hnegative
      rw [Int.ofNat_natAbs_of_nonpos hnegative.le, Int.tdiv_neg, Int.tdiv_self hfactor]
      omega
  · simp only [bind_eq_ok, okOr_eq_ok, checkedSub_eq_some] at hnext
    obtain ⟨_, ⟨-, rfl⟩, hnext⟩ := hnext
    split at hnext
    · rw [toOppositeSigned_eq_ok] at hnext
      omega
    · rw [toSigned_eq_ok] at hnext
      omega

/-- An increase moves the factor in the direction of the skew. -/
theorem increasedFactor_eq_ok {params : FundingFeeParams} {factor next : ℤ}
    {diffFactor durationValue longInterest shortInterest : ℕ}
    (hincrease : increasedFactor params factor diffFactor durationValue longInterest
      shortInterest = .ok next) :
    if longInterest < shortInterest then next ≤ factor else factor ≤ next := by
  simp only [increasedFactor, bind_eq_ok, okOr_eq_ok] at hincrease
  obtain ⟨magnitude, -, increase, hsigned, hadd⟩ := hincrease
  rw [signedAdd_eq_some] at hadd
  split at hsigned
  · rw [toOppositeSigned_eq_ok] at hsigned
    rw [if_pos ‹_›]
    omega
  · rw [toSigned_eq_ok] at hsigned
    rw [if_neg ‹_›]
    omega

/-- What an update with a growth rate makes of the stored factor. -/
structure FactorLaws (params : FundingFeeParams) (factor : ℤ)
    (longInterest shortInterest diffFactor charged : ℕ) (longsPayShorts : Bool)
    (stored : ℤ) : Prop where
  stored_le : stored.natAbs ≤ params.maxFactorPerSecond
  charged_bounded : params.minFactorPerSecond ≤ charged ∧
    charged ≤ params.maxFactorPerSecond
  payer : ∃ rate : ℤ, rate.natAbs = charged ∧ (longsPayShorts = true ↔ 0 < rate) ∧
    (0 < stored → 0 < rate) ∧ (stored < 0 → rate < 0)
  decrease : params.change factor longInterest shortInterest diffFactor = .decrease →
    stored.natAbs ≤ factor.natAbs ∧ 0 ≤ stored * factor
  increase : params.change factor longInterest shortInterest diffFactor = .increase →
    SkewInDirectionOf factor longInterest shortInterest →
    min factor.natAbs params.maxFactorPerSecond ≤ stored.natAbs ∧ 0 ≤ stored * factor

/-- A change in the direction of a factor that has a sign keeps the sign. -/
theorem changedFactor_decrease {params : FundingFeeParams} {factor next : ℤ}
    {diffFactor durationValue longInterest shortInterest : ℕ}
    (hchanged : changedFactor params factor diffFactor durationValue longInterest
      shortInterest = .ok next)
    (hdecrease : params.change factor longInterest shortInterest diffFactor =
      .decrease) :
    (0 < factor → 0 ≤ next ∧ next ≤ factor) ∧
      (factor < 0 → factor ≤ next ∧ next ≤ 0) := by
  simp only [changedFactor, hdecrease] at hchanged
  split at hchanged
  · exact decreasedFactor_eq_ok hchanged (by omega)
  · obtain rfl := Except.ok.inj hchanged
    omega

theorem changedFactor_increase {params : FundingFeeParams} {factor next : ℤ}
    {diffFactor durationValue longInterest shortInterest : ℕ}
    (hchanged : changedFactor params factor diffFactor durationValue longInterest
      shortInterest = .ok next)
    (hincrease : params.change factor longInterest shortInterest diffFactor =
      .increase) (hskew : SkewInDirectionOf factor longInterest shortInterest) :
    (0 < factor ∧ factor ≤ next) ∨ (factor < 0 ∧ next ≤ factor) := by
  simp only [changedFactor, hincrease] at hchanged
  have hmoved := increasedFactor_eq_ok hchanged
  rcases hskew with ⟨hpositive, hlonger⟩ | ⟨hnegative, hshorter⟩
  · rw [if_neg (by omega)] at hmoved
    exact .inl ⟨hpositive, hmoved⟩
  · rw [if_pos hshorter] at hmoved
    exact .inr ⟨hnegative, hmoved⟩

omit [MarketNum] in
/-- A decrease is only chosen for a factor that has a sign. -/
theorem change_decrease {params : FundingFeeParams} {factor : ℤ}
    {longInterest shortInterest diffFactor : ℕ}
    (hdecrease : params.change factor longInterest shortInterest diffFactor =
      .decrease) : SkewInDirectionOf factor longInterest shortInterest := by
  simp only [FundingFeeParams.change] at hdecrease
  split at hdecrease
  · assumption
  · exact absurd hdecrease (by simp)

/-- The stored and the charged factor are bounds of one changed factor. -/
theorem factorLaws {params : FundingFeeParams} {factor changed stored bounded : ℤ}
    {diffFactor durationValue longInterest shortInterest : ℕ}
    (hchanged : changedFactor params factor diffFactor durationValue longInterest
      shortInterest = .ok changed)
    (hstored : boundMagnitude changed 0 params.maxFactorPerSecond = .ok stored)
    (hbounded : boundMagnitude stored params.minFactorPerSecond
      params.maxFactorPerSecond = .ok bounded) :
    FactorLaws params factor longInterest shortInterest diffFactor bounded.natAbs
      (decide (0 < bounded)) stored := by
  obtain ⟨-, hstored⟩ := boundMagnitude_eq_ok hstored
  obtain ⟨hle, hbounded⟩ := boundMagnitude_eq_ok hbounded
  have hstoredLe : stored.natAbs ≤ params.maxFactorPerSecond := by
    split at hstored <;> omega
  have hstoredSign : (0 ≤ changed → 0 ≤ stored) ∧ (changed ≤ 0 → stored ≤ 0) := by
    split at hstored <;> omega
  have hstoredAbs : stored.natAbs = min changed.natAbs params.maxFactorPerSecond := by
    split at hstored <;> omega
  refine ⟨hstoredLe, ?_, ⟨bounded, rfl, decide_eq_true_iff, ?_, ?_⟩, ?_, ?_⟩
  · split at hbounded <;> omega
  · split at hbounded <;> omega
  · split at hbounded <;> omega
  · intro hdecrease
    obtain ⟨hpositive, hnegative⟩ := changedFactor_decrease hchanged hdecrease
    rcases change_decrease hdecrease with ⟨hfactor, -⟩ | ⟨hfactor, -⟩
    · have hnext := hpositive hfactor
      exact ⟨by omega, mul_nonneg (hstoredSign.1 hnext.1) hfactor.le⟩
    · have hnext := hnegative hfactor
      exact ⟨by omega, mul_nonneg_of_nonpos_of_nonpos (hstoredSign.2 hnext.2) hfactor.le⟩
  · intro hincrease hskew
    rcases changedFactor_increase hchanged hincrease hskew with
      ⟨hfactor, hnext⟩ | ⟨hfactor, hnext⟩
    · exact ⟨by omega, mul_nonneg (hstoredSign.1 (by omega)) hfactor.le⟩
    · exact ⟨by omega,
        mul_nonneg_of_nonpos_of_nonpos (hstoredSign.2 (by omega)) hfactor.le⟩

/-- What an update without a growth rate does: nothing is stored, and the larger
side pays. -/
structure FallbackLaws (params : FundingFeeParams)
    (longInterest shortInterest charged : ℕ) (longsPayShorts : Bool) (stored : ℤ) :
    Prop where
  stored_eq : stored = 0
  charged_le : charged ≤ params.maxFactorPerSecond
  longs_pay : shortInterest < longInterest → longsPayShorts = true
  shorts_pay : longInterest < shortInterest → longsPayShorts = false

/-- What an update charges and stores when both sides have open interest. -/
def RateLaws (params : FundingFeeParams) (factor : ℤ)
    (longInterest shortInterest charged : ℕ) (longsPayShorts : Bool)
    (stored : ℤ) : Prop :=
  (params.increaseFactorPerSecond ≠ 0 →
      ∃ diffFactor, diffFactorOf params longInterest shortInterest = some diffFactor ∧
        FactorLaws params factor longInterest shortInterest diffFactor charged
          longsPayShorts stored) ∧
    (params.increaseFactorPerSecond = 0 →
      FallbackLaws params longInterest shortInterest charged longsPayShorts stored)

theorem nextFundingFactorPerSecond_eq_ok {market : Market isPure}
    {duration longInterest shortInterest : ℕ} {result : ℕ × Bool × ℤ}
    (hnext : nextFundingFactorPerSecond market duration longInterest shortInterest =
      .ok result) :
    RateLaws market.config.fundingFeeParams market.fundingFactorPerSecond longInterest
      shortInterest result.1 result.2.1 result.2.2 := by
  simp only [nextFundingFactorPerSecond] at hnext
  split at hnext
  · rename_i hzero
    obtain rfl := Except.ok.inj hnext
    refine ⟨fun hne => absurd hzero.2 hne, fun _ => ⟨rfl, Nat.zero_le _, fun _ => rfl, ?_⟩⟩
    intro hless
    have := hzero.1
    simp only [diff] at this
    omega
  · simp only [bind_eq_ok, okOr_eq_ok, checkedAdd_eq_some, ensure_eq_ok] at hnext
    obtain ⟨_, ⟨-, rfl⟩, _, -, afterExponent, hexponent, diffFactor, hdiff, hnext⟩ :=
      hnext
    split at hnext
    · rename_i hzero
      refine ⟨fun hne => absurd hzero hne, fun _ => ?_⟩
      simp only [fallbackFactor, bind_eq_ok, okOr_eq_ok, pure_eq_ok] at hnext
      obtain ⟨_, -, rfl⟩ := hnext
      refine ⟨rfl, min_le_right _ _, fun hless => decide_eq_true hless, fun hless => ?_⟩
      exact decide_eq_false (by omega)
    · rename_i hne
      refine ⟨fun _ => ⟨diffFactor, ?_, ?_⟩, fun hzero => absurd hzero hne⟩
      · rw [diffFactorOf, hexponent]
        exact hdiff
      · simp only [bind_eq_ok, okOr_eq_ok, pure_eq_ok] at hnext
        obtain ⟨_, -, changed, hchanged, stored, hstored, bounded, hbounded, rfl⟩ :=
          hnext
        exact factorLaws hchanged hstored hbounded

/-! ## Updates of the market -/

/-- An executed update. -/
structure FundingUpdate (isPure : Bool) where
  before : Market isPure
  prices : Prices
  after : Market isPure
  report : UpdateFundingReport

/-- What an update obeys: the stored factor is bounded and vanishes when one side
has no open interest; otherwise the side that pays is the one the rate says, and
only that side is charged. -/
structure FundingUpdate.Lawful (update : FundingUpdate isPure)
    (longInterest shortInterest : ℕ) : Prop where
  stored_le : update.after.fundingFactorPerSecond.natAbs ≤
    update.before.config.fundingFeeParams.maxFactorPerSecond
  stored_of_oneSided : longInterest = 0 ∨ shortInterest = 0 →
    update.after.fundingFactorPerSecond = 0
  charged : longInterest ≠ 0 → shortInterest ≠ 0 → ∃ charged longsPayShorts,
    nextFundingFactorPerSecond update.before
        (Clocks.passedInSeconds update.before.clock update.before.clocks.funding)
        longInterest shortInterest =
      .ok (charged, longsPayShorts, update.after.fundingFactorPerSecond) ∧
    RateLaws update.before.config.fundingFeeParams
      update.before.fundingFactorPerSecond longInterest shortInterest charged
      longsPayShorts update.after.fundingFactorPerSecond ∧
    update.report.deltaFundingAmountPerSize.get (!longsPayShorts) = ⟨0, 0⟩ ∧
    update.report.deltaClaimableFundingAmountPerSize.get longsPayShorts = ⟨0, 0⟩

theorem RateLaws.stored_le {params : FundingFeeParams} {factor stored : ℤ}
    {longInterest shortInterest charged : ℕ} {longsPayShorts : Bool}
    (hlaws : RateLaws params factor longInterest shortInterest charged longsPayShorts
      stored) : stored.natAbs ≤ params.maxFactorPerSecond := by
  by_cases hzero : params.increaseFactorPerSecond = 0
  · rw [(hlaws.2 hzero).stored_eq]
    exact Nat.zero_le _
  · obtain ⟨_, -, hfactor⟩ := hlaws.1 hzero
    exact hfactor.stored_le

/-- The report of an update when both sides have open interest. -/
theorem nextFundingAmountPerSize_eq_ok {market : Market isPure} {prices : Prices}
    {duration : ℕ} {report : UpdateFundingReport}
    (hnext : nextFundingAmountPerSize market prices duration = .ok report) :
    ∃ longInterest shortInterest,
      market.openInterestAmount true = .ok longInterest ∧
      market.openInterestAmount false = .ok shortInterest ∧
      (longInterest = 0 ∨ shortInterest = 0 → report.nextFundingFactorPerSecond = 0) ∧
      (longInterest ≠ 0 → shortInterest ≠ 0 → ∃ charged longsPayShorts,
        nextFundingFactorPerSecond market duration longInterest shortInterest =
          .ok (charged, longsPayShorts, report.nextFundingFactorPerSecond) ∧
        report.deltaFundingAmountPerSize.get (!longsPayShorts) = ⟨0, 0⟩ ∧
        report.deltaClaimableFundingAmountPerSize.get longsPayShorts = ⟨0, 0⟩) := by
  simp only [nextFundingAmountPerSize, bind_eq_ok] at hnext
  obtain ⟨longInterest, hlong, shortInterest, hshort, hnext⟩ := hnext
  refine ⟨longInterest, shortInterest, hlong, hshort, ?_⟩
  split at hnext
  · rename_i hzero
    obtain rfl := Except.ok.inj hnext
    refine ⟨fun _ => rfl, fun hlongNe hshortNe => ?_⟩
    exact absurd hzero (by omega)
  · rename_i hboth
    refine ⟨fun hzero => absurd hzero hboth, fun _ _ => ?_⟩
    simp only [bind_eq_ok, pure_eq_ok] at hnext
    obtain ⟨factor, hfactor, _, -, _, -, _, -, _, -, _, -, _, -, _, -, rfl⟩ := hnext
    refine ⟨factor.1, factor.2.1, hfactor, ?_, ?_⟩
    · cases factor.2.1 <;> rfl
    · cases factor.2.1 <;> rfl

/-- An update is lawful. -/
theorem execute_lawful {before after : Market isPure} {prices : Prices}
    {report : UpdateFundingReport}
    (hexecute : execute before prices = .ok (after, report)) :
    ∃ longInterest shortInterest,
      before.openInterestAmount true = .ok longInterest ∧
      before.openInterestAmount false = .ok shortInterest ∧
      FundingUpdate.Lawful ⟨before, prices, after, report⟩ longInterest
        shortInterest := by
  simp only [execute, bind_eq_ok, pure_eq_ok] at hexecute
  obtain ⟨_, -, found, hfound, _, -, _, -, _, -, fourth, -, hresult⟩ := hexecute
  obtain ⟨rfl, rfl⟩ := Prod.mk.inj hresult
  obtain ⟨longInterest, shortInterest, hlong, hshort, honeSided, hcharged⟩ :=
    nextFundingAmountPerSize_eq_ok hfound
  refine ⟨longInterest, shortInterest, hlong, hshort, ?_, honeSided, ?_⟩
  · by_cases hzero : longInterest = 0 ∨ shortInterest = 0
    · show found.nextFundingFactorPerSecond.natAbs ≤ _
      rw [honeSided hzero]
      exact Nat.zero_le _
    · obtain ⟨charged, longsPayShorts, hnext, -⟩ := hcharged (by omega) (by omega)
      exact (nextFundingFactorPerSecond_eq_ok hnext).stored_le
  · intro hlongNe hshortNe
    obtain ⟨charged, longsPayShorts, hnext, hdeltas⟩ := hcharged hlongNe hshortNe
    exact ⟨charged, longsPayShorts, hnext, nextFundingFactorPerSecond_eq_ok hnext,
      hdeltas⟩

/-! ## Runs -/

/-- A run of updates, the latest first.  Between two updates anything may change
except the stored factor. -/
inductive FundingRun (start : Market isPure) :
    List (FundingUpdate isPure) → Market isPure → Prop
  | start : FundingRun start [] start
  | change {updates market next} (run : FundingRun start updates market)
      (factor_eq : next.fundingFactorPerSecond = market.fundingFactorPerSecond) :
      FundingRun start updates next
  | update {updates market prices after report}
      (run : FundingRun start updates market)
      (executed : execute market prices = .ok (after, report)) :
      FundingRun start (⟨market, prices, after, report⟩ :: updates) after

/-- In every run each update obeys the laws of the funding rate, and the stored
factor stays within the bound of the latest update. -/
theorem run_fundingLaws {start final : Market isPure}
    {updates : List (FundingUpdate isPure)}
    (hrun : FundingRun start updates final) :
    (∀ update ∈ updates, ∃ longInterest shortInterest,
      update.before.openInterestAmount true = .ok longInterest ∧
      update.before.openInterestAmount false = .ok shortInterest ∧
      update.Lawful longInterest shortInterest) ∧
    ∀ update ∈ updates.head?, final.fundingFactorPerSecond.natAbs ≤
      update.before.config.fundingFeeParams.maxFactorPerSecond := by
  induction hrun with
  | start =>
      refine ⟨fun update hupdate => absurd hupdate List.not_mem_nil, ?_⟩
      intro update hupdate
      exact absurd hupdate (Option.not_mem_none update)
  | change run factor_eq ih =>
      refine ⟨ih.1, fun update hupdate => ?_⟩
      rw [factor_eq]
      exact ih.2 update hupdate
  | update run executed ih =>
      have hlawful := execute_lawful executed
      refine ⟨fun update hupdate => ?_, fun update hupdate => ?_⟩
      · rcases List.mem_cons.mp hupdate with rfl | hupdate
        · exact hlawful
        · exact ih.1 update hupdate
      · obtain rfl := Option.mem_some_iff.mp hupdate
        obtain ⟨_, _, -, -, hlaws⟩ := hlawful
        exact hlaws.stored_le

end UpdateFundingState

namespace UpdateFundingState

section Store

attribute [local instance] storeNumbers

/-- A market where longs outweigh shorts three to one, with a growing rate. -/
def skewedFunding : Market false :=
  { Market.init false
      { MarketConfig.unrestricted with
        fundingFeeParams := ⟨10 ^ 20, 0, 10 ^ 12, 10 ^ 11, 10 ^ 12, 10 ^ 10, 0, 0⟩ }
      true ⟨0, 0⟩ with
    clock := ⟨1, 10⟩
    primary := ⟨10 ^ 25, 10 ^ 25⟩
    openInterest := ⟨⟨3 * 10 ^ 22, 0⟩, ⟨0, 10 ^ 22⟩⟩ }

/-- Over ten seconds the rate reaches its maximum; once the longs have closed, the
stored rate is zero. -/
theorem run_fundingLaws_skewed :
    ∃ updates final, FundingRun skewedFunding updates final ∧
      updates.map (fun update => update.after.fundingFactorPerSecond) = [0, 10 ^ 12] ∧
      ∀ update ∈ updates.head?, final.fundingFactorPerSecond.natAbs ≤
        update.before.config.fundingFeeParams.maxFactorPerSecond := by
  obtain ⟨⟨first, report⟩, hfirst, hrate, hclosed⟩ :
      ∃ done, execute skewedFunding ⟨⟨1, 1⟩, ⟨1, 1⟩, ⟨1, 1⟩⟩ = .ok done ∧
        done.1.fundingFactorPerSecond = 10 ^ 12 ∧
        (execute { done.1 with openInterest := ⟨⟨0, 0⟩, ⟨0, 10 ^ 22⟩⟩ }
          ⟨⟨1, 1⟩, ⟨1, 1⟩, ⟨1, 1⟩⟩).toOption.any
            (fun last => decide (last.1.fundingFactorPerSecond = 0)) = true :=
    exists_ok_iff_any.mpr (by decide +kernel)
  obtain ⟨⟨last, lastReport⟩, hlast, hzero⟩ := exists_ok_iff_any.mpr hclosed
  have hstart : FundingRun skewedFunding [] skewedFunding := .start
  have hclose : FundingRun skewedFunding _
      { first with openInterest := ⟨⟨0, 0⟩, ⟨0, 10 ^ 22⟩⟩ } :=
    .change (.update hstart hfirst) rfl
  have hrun := hclose.update hlast
  refine ⟨_, last, hrun, ?_, (run_fundingLaws hrun).2⟩
  rw [List.map_cons, List.map_cons, List.map_nil, hrate, hzero]

end Store

end UpdateFundingState

end Gmsol.Model
