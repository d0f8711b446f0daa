import Gmsol.Accounting.ProviderShares

/-!
# The spread of the value of a market

A market is valued with the prices that favour its liquidity providers or with those that
do not.  As long as no profit is capped, the first value is never below the second.
-/

namespace Gmsol.Model

open Gmsol.Fallible

/-- No price is turned around. -/
structure OrderedPrices (prices : Prices) : Prop where
  index : prices.indexTokenPrice.min ≤ prices.indexTokenPrice.max
  long : prices.longTokenPrice.min ≤ prices.longTokenPrice.max
  short : prices.shortTokenPrice.min ≤ prices.shortTokenPrice.max

theorem Price.pickPrice_mono {price : Price} (hordered : price.min ≤ price.max) :
    price.pickPrice false ≤ price.pickPrice true :=
  hordered

namespace Market

variable [MarketNum] {isPure : Bool} {market : Market isPure} {prices : Prices}

/-- The profit of a side at a price. -/
theorem pnl_mono {indexTokenPrice : Price} (hordered : indexTokenPrice.min ≤ indexTokenPrice.max)
    {isLong : Bool} {low high : ℤ}
    (hlow : market.pnl indexTokenPrice isLong false = .ok low)
    (hhigh : market.pnl indexTokenPrice isLong true = .ok high) : low ≤ high := by
  simp only [pnl, bind_eq_ok] at hlow hhigh
  obtain ⟨interest, hinterest, tokens, htokens, hlow⟩ := hlow
  obtain ⟨other, hother, otherTokens, hotherTokens, hhigh⟩ := hhigh
  rw [hinterest] at hother
  obtain rfl := Except.ok.inj hother
  rw [htokens] at hotherTokens
  obtain rfl := Except.ok.inj hotherTokens
  split_ifs at hlow hhigh with hempty hlong
  · rw [pure_eq_ok] at hlow hhigh
    exact (hlow.symm.trans hhigh).le
  all_goals
    simp only [bind_eq_ok, okOr_eq_ok, checkedMul_eq_some, toSigned_eq_ok,
      signedSub_eq_some] at hlow hhigh
  · obtain ⟨_, ⟨_, rfl⟩, _, ⟨_, rfl⟩, _, ⟨_, rfl⟩, _, rfl⟩ := hlow
    obtain ⟨_, ⟨_, rfl⟩, _, ⟨_, rfl⟩, _, ⟨_, rfl⟩, _, rfl⟩ := hhigh
    subst hlong
    apply Int.sub_le_sub_right
    exact_mod_cast Nat.mul_le_mul_left _ hordered
  · obtain ⟨_, ⟨_, rfl⟩, _, ⟨_, rfl⟩, _, ⟨_, rfl⟩, _, rfl⟩ := hlow
    obtain ⟨_, ⟨_, rfl⟩, _, ⟨_, rfl⟩, _, ⟨_, rfl⟩, _, rfl⟩ := hhigh
    obtain rfl : isLong = false := Bool.eq_false_of_not_eq_true hlong
    apply Int.sub_le_sub_left
    exact_mod_cast Nat.mul_le_mul_left _ hordered

theorem impactPoolValue_mono
    (hordered : prices.indexTokenPrice.min ≤ prices.indexTokenPrice.max) {low high : ℤ}
    (hlow : market.impactPoolValue prices false = .ok low)
    (hhigh : market.impactPoolValue prices true = .ok high) : low ≤ high := by
  simp only [impactPoolValue, bind_eq_ok, okOr_eq_ok, checkedMul_eq_some,
    toSigned_eq_ok] at hlow hhigh
  obtain ⟨pending, hpending, _, ⟨_, rfl⟩, _, rfl⟩ := hlow
  obtain ⟨other, hother, _, ⟨_, rfl⟩, _, rfl⟩ := hhigh
  rw [hpending] at hother
  obtain rfl := Except.ok.inj hother
  exact_mod_cast Nat.mul_le_mul_left _ (Price.pickPrice_mono hordered)

/-- The maximized value is not below the minimized one, whatever they are for. -/
theorem poolValue_mono (hordered : OrderedPrices prices)
    (huncapped : market.PnlUncapped prices) {kind otherKind : PnlFactorKind} {low high : ℤ}
    (hlow : market.poolValue prices kind false = .ok low)
    (hhigh : market.poolValue prices otherKind true = .ok high) : low ≤ high := by
  obtain ⟨fees, longPnl, shortPnl, impact, hfees, hlong, hshort, himpact, rfl⟩ :=
    poolValue_parts huncapped hlow
  obtain ⟨otherFees, otherLong, otherShort, otherImpact, hotherFees, hotherLong, hotherShort,
    hotherImpact, rfl⟩ := poolValue_parts huncapped hhigh
  rw [hfees] at hotherFees
  obtain rfl := Except.ok.inj hotherFees
  have hlongPnl := pnl_mono hordered.index hotherLong hlong
  have hshortPnl := pnl_mono hordered.index hotherShort hshort
  have himpacts := impactPoolValue_mono hordered.index hotherImpact himpact
  have hlongTokens : (market.primary.longAmount * prices.longTokenPrice.pickPrice false : ℤ) ≤
      market.primary.longAmount * prices.longTokenPrice.pickPrice true := by
    exact_mod_cast Nat.mul_le_mul_left _ (Price.pickPrice_mono hordered.long)
  have hshortTokens :
      (market.primary.shortAmount * prices.shortTokenPrice.pickPrice false : ℤ) ≤
        market.primary.shortAmount * prices.shortTokenPrice.pickPrice true := by
    exact_mod_cast Nat.mul_le_mul_left _ (Price.pickPrice_mono hordered.short)
  linarith

end Market

end Gmsol.Model
