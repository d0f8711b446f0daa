import Gmsol.Accounting.Conservation

/-!
# The supply of market tokens

A deposit mints as many market tokens as it reports, and nothing else changes the supply
on the way.
-/

namespace Gmsol.Model

open Gmsol.Fallible

variable [MarketNum] {isPure : Bool} {before after : Market isPure}

namespace Market

theorem applyDelta_supply {side : Bool} {delta : ℤ}
    (happly : before.applyDelta side delta = .ok after) :
    after.totalSupply = before.totalSupply := by
  simp only [applyDelta, bind_eq_ok, pure_eq_ok] at happly
  obtain ⟨_, _, rfl⟩ := happly
  rfl

theorem applyDeltaToClaimableFeePool_supply {side : Bool} {delta : ℤ}
    (happly : before.applyDeltaToClaimableFeePool side delta = .ok after) :
    after.totalSupply = before.totalSupply := by
  simp only [applyDeltaToClaimableFeePool, bind_eq_ok, pure_eq_ok] at happly
  obtain ⟨_, _, rfl⟩ := happly
  rfl

theorem applySwapImpactValueWithCap_supply {side : Bool} {price : Price} {usdImpact : ℤ}
    {applied : Market isPure × ℕ}
    (happly : before.applySwapImpactValueWithCap side price usdImpact = .ok applied) :
    applied.1.totalSupply = before.totalSupply := by
  simp only [applySwapImpactValueWithCap, bind_eq_ok, pure_eq_ok] at happly
  obtain ⟨_, _, _, _, _, _, rfl⟩ := happly
  rfl

end Market

namespace Deposit

variable {params : DepositParams}

theorem settleImpact_supply {isLongToken : Bool} {poolValue supply amount : ℕ} {impact : ℤ}
    {settled : ImpactSettled isPure}
    (hsettle : settleImpact before params isLongToken poolValue supply amount impact =
      .ok settled) : settled.market.totalSupply = before.totalSupply := by
  unfold settleImpact at hsettle
  split_ifs at hsettle
  · simp only [settlePositiveImpact, bind_eq_ok, pure_eq_ok] at hsettle
    obtain ⟨_, happlied, _, _, _, _, _, _, _, _, _, hnext, _, _, rfl⟩ := hsettle
    exact (Market.applyDelta_supply hnext).trans
      (Market.applySwapImpactValueWithCap_supply happlied)
  · simp only [settleNegativeImpact, bind_eq_ok, pure_eq_ok] at hsettle
    obtain ⟨_, happlied, _, _, rfl⟩ := hsettle
    exact Market.applySwapImpactValueWithCap_supply happlied
  · obtain rfl := Except.ok.inj hsettle
    rfl

theorem executeDeposit_supply {isLongToken : Bool} {poolValue : ℕ} {impact : ℤ}
    {result : Market isPure × ℕ × Fees}
    (hdeposit : executeDeposit before params isLongToken poolValue impact = .ok result) :
    result.1.totalSupply = before.totalSupply := by
  simp only [executeDeposit, bind_eq_ok, pure_eq_ok] at hdeposit
  obtain ⟨_, _, _, _, _, _, _, hfees, _, hsettled, _, _, _, _, _, _, _, _, _, _, _, hnext, _, _,
    _, _, rfl⟩ := hdeposit
  exact (Market.applyDelta_supply hnext).trans
    ((settleImpact_supply hsettled).trans (Market.applyDeltaToClaimableFeePool_supply hfees))

theorem executeSide_supply {isLongToken : Bool} {poolValue : ℕ} {impact : ℤ}
    {usdValue totalLong totalShort minted : ℕ} {message : String}
    {result : Market isPure × ℕ × Fees}
    (hside : executeSide before params isLongToken poolValue impact usdValue totalLong
      totalShort minted message = .ok result) :
    result.1.totalSupply = before.totalSupply := by
  unfold executeSide at hside
  split_ifs at hside
  · obtain rfl := Except.ok.inj hside
    rfl
  · simp only [bind_eq_ok, pure_eq_ok] at hside
    obtain ⟨_, _, _, _, _, hdeposited, _, _, rfl⟩ := hside
    have hsupply := executeDeposit_supply hdeposited
    exact hsupply

/-- A deposit mints what it reports. -/
theorem execute_supply {report : DepositReport}
    (hdeposit : execute before params = .ok (after, report)) :
    after.totalSupply = before.totalSupply + report.minted := by
  simp only [execute, bind_eq_ok, pure_eq_ok, Prod.mk.injEq] at hdeposit
  obtain ⟨_, _, _, _, _, _, _, _, _, _, _, hlong, _, hshort, _, hmint, rfl, rfl⟩ := hdeposit
  rw [Market.mint_eq_ok hmint, executeSide_supply hshort, executeSide_supply hlong]

end Deposit

end Gmsol.Model
