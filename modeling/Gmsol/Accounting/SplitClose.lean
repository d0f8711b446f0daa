import Gmsol.Accounting.Decrease

/-!
# Closing a position in parts

A position may be closed in parts at one price.  Each part takes a share of the
tokens that is rounded against the trader, so the profit that is still open
falls by at least what the part realizes.  Over a whole sequence of parts the
trader realizes at most the profit of closing at once.
-/

namespace Gmsol.Model

open Gmsol.Fallible

section Shares

variable [MarketNum]

/-- A share of a signed amount is truncated toward zero. -/
theorem mulDivWithSignedNumerator_eq_some {value denominator : ℕ}
    {numerator result : ℤ}
    (hshare : checkedMulDivWithSignedNumerator value numerator denominator =
      some result) :
    denominator ≠ 0 ∧
      result = if 0 < numerator then
          ((value * numerator.natAbs / denominator : ℕ) : ℤ)
        else -((value * numerator.natAbs / denominator : ℕ) : ℤ) := by
  simp only [checkedMulDivWithSignedNumerator, option_bind_eq_some,
    checkedMulDiv_eq_some] at hshare
  obtain ⟨_, ⟨hdenominator, -, rfl⟩, signed, hsigned, hresult⟩ := hshare
  have hquotient : ((value * numerator.natAbs / denominator : ℕ) : ℤ) = signed := by
    rw [toSigned] at hsigned
    split at hsigned
    · exact Option.some.inj hsigned
    · exact absurd hsigned (by simp [Except.toOption])
  rw [hquotient]
  split at hresult
  · rw [if_pos ‹_›]
    exact ⟨hdenominator, (Option.some.inj hresult).symm⟩
  · rw [if_neg ‹_›]
    exact ⟨hdenominator, (signedNeg_eq_some.mp hresult).2.symm⟩

/-- A truncated share is at most any integer that the exact share does not
exceed. -/
theorem mulDivWithSignedNumerator_le {value denominator : ℕ}
    {numerator result bound : ℤ}
    (hshare : checkedMulDivWithSignedNumerator value numerator denominator =
      some result)
    (hbound : value * numerator ≤ denominator * bound) : result ≤ bound := by
  obtain ⟨hdenominator, rfl⟩ := mulDivWithSignedNumerator_eq_some hshare
  have hposNat := Nat.pos_of_ne_zero hdenominator
  have hpos : (0 : ℤ) < denominator := by exact_mod_cast hposNat
  split
  · apply le_of_mul_le_mul_left _ hpos
    have hfloor : (denominator : ℤ) *
        ((value * numerator.natAbs / denominator : ℕ) : ℤ) ≤ value * numerator := by
      rw [← Int.natAbs_of_nonneg (show 0 ≤ numerator by omega)]
      exact_mod_cast Nat.mul_div_le (value * numerator.natAbs) denominator
    exact hfloor.trans hbound
  · have hceil : (value * -numerator : ℤ) <
        denominator * (((value * numerator.natAbs / denominator : ℕ) : ℤ) + 1) := by
      rw [← Int.ofNat_natAbs_of_nonpos (show numerator ≤ 0 by omega)]
      exact_mod_cast Nat.lt_mul_div_succ (value * numerator.natAbs) hposNat
    have hlt : (denominator : ℤ) *
        -(((value * numerator.natAbs / denominator : ℕ) : ℤ) + 1) <
          denominator * bound := by
      linarith
    have := lt_of_mul_lt_mul_left hlt hpos.le
    omega

/-- A whole amount is its own share. -/
theorem mulDivWithSignedNumerator_self {denominator : ℕ} {numerator result : ℤ}
    (hshare : checkedMulDivWithSignedNumerator denominator numerator denominator =
      some result) : result = numerator := by
  obtain ⟨hdenominator, rfl⟩ := mulDivWithSignedNumerator_eq_some hshare
  rw [Nat.mul_div_cancel_left _ (Nat.pos_of_ne_zero hdenominator)]
  split <;> omega

end Shares

namespace Position

variable [MarketNum] {isPure : Bool}

omit [MarketNum] in
/-- The profit of the whole position at an index price. -/
def profitAt (position : Position) (indexTokenPrice : Price) : ℤ :=
  let price := indexTokenPrice.pickPriceForPnl position.isLong false
  if position.isLong then position.sizeInTokens * price - position.sizeInUsd
  else position.sizeInUsd - position.sizeInTokens * price

theorem uncappedTotalPnl_eq_ok {position : Position} {prices : Prices} {pnl : ℤ}
    (hpnl : position.uncappedTotalPnl prices = .ok pnl) :
    pnl = position.profitAt prices.indexTokenPrice := by
  simp only [uncappedTotalPnl, bind_eq_ok, okOr_eq_ok, checkedMul_eq_some,
    toSigned_eq_ok] at hpnl
  obtain ⟨_, ⟨-, rfl⟩, _, ⟨-, rfl⟩, _, ⟨-, rfl⟩, hsub⟩ := hpnl
  rw [profitAt]
  split at hsub
  · rw [signedSub_eq_some] at hsub
    rw [if_pos ‹_›, ← hsub.2, Nat.cast_mul]
  · rw [signedSub_eq_some] at hsub
    rw [if_neg ‹_›, ← hsub.2, Nat.cast_mul]

/-- The tokens of a part are rounded against the trader. -/
theorem sizeDeltaInTokens_rounded {position : Position} {sizeDeltaUsd tokens : ℕ}
    (hsize : position.sizeInUsd ≠ 0)
    (htokens : position.sizeDeltaInTokens sizeDeltaUsd = .ok tokens) :
    if position.isLong then
      position.sizeInTokens * sizeDeltaUsd ≤ tokens * position.sizeInUsd
    else tokens * position.sizeInUsd ≤ position.sizeInTokens * sizeDeltaUsd := by
  rw [sizeDeltaInTokens] at htokens
  split at htokens
  · obtain rfl := Except.ok.inj htokens
    rename_i hfull
    rw [hfull]
    split <;> exact le_rfl
  · split at htokens
    · rw [okOr_eq_ok, checkedMulDivCeil_eq_some] at htokens
      obtain ⟨-, -, rfl⟩ := htokens
      rw [if_pos ‹_›, mul_comm (_ ⌈/⌉ _)]
      exact le_smul_ceilDiv (Nat.pos_of_ne_zero hsize)
    · rw [okOr_eq_ok, checkedMulDiv_eq_some] at htokens
      obtain ⟨-, -, rfl⟩ := htokens
      rw [if_neg ‹_›]
      exact Nat.div_mul_le_self _ _

theorem sizeDeltaInTokens_le {position : Position} {sizeDeltaUsd tokens : ℕ}
    (hle : sizeDeltaUsd ≤ position.sizeInUsd)
    (htokens : position.sizeDeltaInTokens sizeDeltaUsd = .ok tokens) :
    tokens ≤ position.sizeInTokens := by
  have hproduct : position.sizeInTokens * sizeDeltaUsd ≤
      position.sizeInUsd * position.sizeInTokens := by
    rw [mul_comm position.sizeInUsd]
    exact Nat.mul_le_mul_left _ hle
  rw [sizeDeltaInTokens] at htokens
  split at htokens
  · exact (Except.ok.inj htokens).ge
  · split at htokens
    · rw [okOr_eq_ok, checkedMulDivCeil_eq_some] at htokens
      obtain ⟨hsize, -, rfl⟩ := htokens
      exact (ceilDiv_le_iff_le_mul (Nat.pos_of_ne_zero hsize)).mpr hproduct
    · rw [okOr_eq_ok, checkedMulDiv_eq_some] at htokens
      obtain ⟨-, -, rfl⟩ := htokens
      exact Nat.div_le_of_le_mul hproduct

/-- What the profit of a part is computed from. -/
theorem pnlValue_eq_ok {position : Position} {market : Market isPure}
    {prices : Prices} {sizeDeltaUsd : ℕ} {pnl uncapped : ℤ} {tokens : ℕ}
    (hvalue : position.pnlValue market prices sizeDeltaUsd =
      .ok (pnl, uncapped, tokens)) :
    position.sizeDeltaInTokens sizeDeltaUsd = .ok tokens ∧
      checkedMulDivWithSignedNumerator tokens
        (position.profitAt prices.indexTokenPrice) position.sizeInTokens =
          some uncapped := by
  simp only [pnlValue, bind_eq_ok, okOr_eq_ok, pure_eq_ok] at hvalue
  obtain ⟨total, htotal, capped, -, found, htokens, pnlUsd, -, uncappedPnl,
    huncapped, hresult⟩ := hvalue
  obtain ⟨-, rfl, rfl⟩ : pnlUsd = pnl ∧ uncappedPnl = uncapped ∧ found = tokens := by
    simpa only [Prod.mk.injEq] using hresult
  rw [uncappedTotalPnl_eq_ok htotal] at huncapped
  exact ⟨htokens, huncapped⟩

/-- The profit of the whole position is realized exactly. -/
theorem uncapped_eq_profitAt {position : Position} {market : Market isPure}
    {prices : Prices} {pnl uncapped : ℤ} {tokens : ℕ}
    (hvalue : position.pnlValue market prices position.sizeInUsd =
      .ok (pnl, uncapped, tokens)) :
    uncapped = position.profitAt prices.indexTokenPrice := by
  obtain ⟨htokens, huncapped⟩ := pnlValue_eq_ok hvalue
  obtain rfl : position.sizeInTokens = tokens := by
    rw [sizeDeltaInTokens, if_pos rfl] at htokens
    exact Except.ok.inj htokens
  exact mulDivWithSignedNumerator_self huncapped

end Position

/-- A part of the position is closed at the index price, and the sizes are
updated. -/
structure ClosesPart [MarketNum] (indexTokenPrice : Price) (position : Position)
    (sizeDeltaUsd sizeDeltaInTokens : ℕ) (uncappedPnl : ℤ) (next : Position)
    (shouldRemove : Bool) : Prop where
  sizeDeltaUsd_le : sizeDeltaUsd ≤ position.sizeInUsd
  pnlValue : ∃ (isPure : Bool) (market : Market isPure) (prices : Prices) (pnl : ℤ),
    prices.indexTokenPrice = indexTokenPrice ∧
      position.pnlValue market prices sizeDeltaUsd =
        .ok (pnl, uncappedPnl, sizeDeltaInTokens)
  nextPosition : ∃ funds updated output,
    DecreasePosition.nextPosition position (position.sizeInUsd - sizeDeltaUsd)
        sizeDeltaInTokens funds = .ok (updated, output, shouldRemove) ∧
      next.isLong = updated.isLong ∧ next.sizeInUsd = updated.sizeInUsd ∧
      next.sizeInTokens = updated.sizeInTokens

/-- The position is closed in parts, the last of which removes it; the uncapped
profits of the parts. -/
inductive ClosesAll [MarketNum] (indexTokenPrice : Price) :
    Position → List ℤ → Prop
  | remove {position next sizeDeltaUsd sizeDeltaInTokens uncappedPnl}
      (part : ClosesPart indexTokenPrice position sizeDeltaUsd sizeDeltaInTokens
        uncappedPnl next true) :
      ClosesAll indexTokenPrice position [uncappedPnl]
  | keep {position next sizeDeltaUsd sizeDeltaInTokens uncappedPnl pnls}
      (part : ClosesPart indexTokenPrice position sizeDeltaUsd sizeDeltaInTokens
        uncappedPnl next false)
      (rest : ClosesAll indexTokenPrice next pnls) :
      ClosesAll indexTokenPrice position (uncappedPnl :: pnls)

section

variable [MarketNum] {indexTokenPrice : Price} {position next : Position}
  {sizeDeltaUsd sizeDeltaInTokens : ℕ} {uncappedPnl : ℤ} {shouldRemove : Bool}

/-- A decrease closes a part of the position. -/
theorem DecreasePosition.execute_closesPart {isPure : Bool}
    {before after : Market isPure} {params : DecreasePositionParams}
    {report : DecreasePositionReport}
    (hexecute : DecreasePosition.execute before position params =
      .ok (after, next, report)) :
    ClosesPart params.prices.indexTokenPrice position report.sizeDeltaUsd
      report.sizeDeltaInTokens report.uncappedPnl next report.shouldRemove := by
  simp only [DecreasePosition.execute, bind_eq_ok, pure_eq_ok] at hexecute
  obtain ⟨order, horder, processed, hprocessed, updated, hupdated, -, -, stamped,
    hstamped, swapped, -, outputs, -, hresult⟩ := hexecute
  obtain ⟨-, rfl, rfl⟩ : _ ∧ stamped.2 = next ∧ _ = report := by
    simpa only [Prod.mk.injEq] using hresult
  have hchecked := DecreasePosition.checkedOrder_eq_ok horder
  simp only [DecreasePosition.processCollateral, bind_eq_ok, pure_eq_ok]
    at hprocessed
  obtain ⟨prepared, hprepared, _, -, _, -, funds, -, rfl⟩ := hprocessed
  simp only [DecreasePosition.prepare, bind_eq_ok, pure_eq_ok] at hprepared
  obtain ⟨_, -, pnl, hpnl, _, -, rfl⟩ := hprepared
  simp only [DecreasePosition.updateSizes, bind_eq_ok, okOr_eq_ok, pure_eq_ok,
    checkedSub_eq_some] at hupdated
  obtain ⟨_, ⟨hle, rfl⟩, _, -, sizes, hsizes, _, -, _, -, _, -, _, -, rfl⟩ :=
    hupdated
  obtain ⟨_, _, _, _, rfl⟩ := DecreasePosition.onDecreased_eq_ok hstamped
  exact {
    sizeDeltaUsd_le := hle
    pnlValue := ⟨isPure, before, order.params.prices, pnl.1,
      congrArg Prices.indexTokenPrice hchecked.prices_eq, hpnl⟩
    nextPosition := ⟨funds, sizes.1, sizes.2.1, hsizes, rfl, rfl, rfl⟩ }

/-- What a part leaves open: the sizes are reduced, and no part of the profit
falls away with a removal. -/
theorem ClosesPart.sizes
    (hpart : ClosesPart indexTokenPrice position sizeDeltaUsd sizeDeltaInTokens
      uncappedPnl next shouldRemove) :
    (shouldRemove = true →
        sizeDeltaUsd = position.sizeInUsd ∨ sizeDeltaInTokens = position.sizeInTokens) ∧
      (shouldRemove = false → next.isLong = position.isLong ∧
        next.sizeInUsd + sizeDeltaUsd = position.sizeInUsd ∧
        next.sizeInTokens + sizeDeltaInTokens = position.sizeInTokens ∧
        next.sizeInUsd ≠ 0 ∧ next.sizeInTokens ≠ 0) := by
  have hle := hpart.sizeDeltaUsd_le
  obtain ⟨funds, updated, output, hnext, hside, husd, htokens⟩ := hpart.nextPosition
  obtain ⟨htokensLe, hnext⟩ := DecreasePosition.nextPosition_eq_ok hnext
  refine ⟨fun hremove => ?_, fun hkeep => ?_⟩
  · have := hnext.shouldRemove_iff.mp hremove
    omega
  · subst hkeep
    have hpositive := mt hnext.shouldRemove_iff.mpr Bool.false_ne_true
    have husdEq := hnext.sizeInUsd_eq
    have htokensEq := hnext.sizeInTokens_eq
    simp only [Bool.false_eq_true, if_false] at husdEq htokensEq
    refine ⟨hside.trans hnext.isLong_eq, ?_, ?_, ?_, ?_⟩ <;> omega

/-- A part realizes at most what it takes from the open profit: nothing is left
open by a removal. -/
theorem ClosesPart.uncappedPnl_le
    (hpart : ClosesPart indexTokenPrice position sizeDeltaUsd sizeDeltaInTokens
      uncappedPnl next shouldRemove) (hsize : position.sizeInUsd ≠ 0) :
    uncappedPnl ≤ position.profitAt indexTokenPrice -
      if shouldRemove then 0 else next.profitAt indexTokenPrice := by
  obtain ⟨hremoved, hkept⟩ := hpart.sizes
  obtain ⟨isPure, market, prices, pnl, rfl, hvalue⟩ := hpart.pnlValue
  obtain ⟨htokens, huncapped⟩ := Position.pnlValue_eq_ok hvalue
  apply mulDivWithSignedNumerator_le huncapped
  cases shouldRemove with
  | true =>
      have hall : sizeDeltaInTokens = position.sizeInTokens := by
        rcases hremoved rfl with hfull | hall
        · rw [Position.sizeDeltaInTokens, if_pos hfull.symm] at htokens
          exact (Except.ok.inj htokens).symm
        · exact hall
      rw [hall, if_pos rfl, sub_zero]
  | false =>
      obtain ⟨hside, husd, htokensSum, -, -⟩ := hkept rfl
      have hrounded := Position.sizeDeltaInTokens_rounded hsize htokens
      have husdEq : (next.sizeInUsd : ℤ) = position.sizeInUsd - sizeDeltaUsd := by
        omega
      have htokensEq : (next.sizeInTokens : ℤ) =
          position.sizeInTokens - sizeDeltaInTokens := by
        omega
      simp only [Position.profitAt, hside, husdEq, htokensEq, Bool.false_eq_true,
        if_false]
      split at hrounded
      · have hroundedInt : (position.sizeInTokens * sizeDeltaUsd : ℤ) ≤
            sizeDeltaInTokens * position.sizeInUsd := by exact_mod_cast hrounded
        rw [if_pos ‹_›, if_pos ‹_›]
        linarith
      · have hroundedInt : (sizeDeltaInTokens * position.sizeInUsd : ℤ) ≤
            position.sizeInTokens * sizeDeltaUsd := by exact_mod_cast hrounded
        rw [if_neg ‹_›, if_neg ‹_›]
        linarith

/-- Over a whole sequence of parts, the open profit bounds what is realized. -/
theorem ClosesAll.sum_le {pnls : List ℤ}
    (hcloses : ClosesAll indexTokenPrice position pnls)
    (hsize : position.sizeInUsd ≠ 0) :
    pnls.sum ≤ position.profitAt indexTokenPrice := by
  induction hcloses with
  | remove part =>
      simpa using part.uncappedPnl_le hsize
  | keep part rest ih =>
      have hpart := part.uncappedPnl_le hsize
      have hrest := ih (part.sizes.2 rfl).2.2.2.1
      rw [if_neg Bool.false_ne_true] at hpart
      rw [List.sum_cons]
      omega

/-- Splitting a close never benefits the trader: no part takes more tokens than
there are, and the parts together realize at most the uncapped profit of the
whole position and one unit for each part. -/
theorem split_close_bounded (position : Position) (indexTokenPrice : Price)
    (hsizeInUsd : 0 < position.sizeInUsd) :
    (∀ {isPure : Bool} (market : Market isPure) (prices : Prices)
        (sizeDeltaUsd : ℕ) (pnl uncapped : ℤ) (tokens : ℕ),
      sizeDeltaUsd ≤ position.sizeInUsd →
      position.pnlValue market prices sizeDeltaUsd = .ok (pnl, uncapped, tokens) →
      tokens ≤ position.sizeInTokens) ∧
    ∀ {isPure : Bool} (market : Market isPure) (prices : Prices)
        (pnl whole : ℤ) (tokens : ℕ) (pnls : List ℤ),
      prices.indexTokenPrice = indexTokenPrice →
      position.pnlValue market prices position.sizeInUsd =
        .ok (pnl, whole, tokens) →
      ClosesAll indexTokenPrice position pnls →
      pnls.sum ≤ whole + pnls.length := by
  refine ⟨fun market prices _ pnl uncapped _ hle hvalue =>
    Position.sizeDeltaInTokens_le hle (Position.pnlValue_eq_ok hvalue).1, ?_⟩
  intro isPure market prices pnl whole tokens pnls hprice hvalue hcloses
  have hsum := hcloses.sum_le (Nat.pos_iff_ne_zero.mp hsizeInUsd)
  rw [Position.uncapped_eq_profitAt hvalue, hprice]
  omega

end

section Store

attribute [local instance] storeNumbers

/-- A short of ten usd and three tokens, its first half, and prices at which it
has lost two. -/
def losingShort : Position :=
  { Position.empty false false with sizeInUsd := 10, sizeInTokens := 3 }

def losingShortAfterHalf : Position :=
  { losingShort with sizeInUsd := 5, sizeInTokens := 2 }

def losingPrices : Prices := ⟨⟨4, 4⟩, ⟨1, 1⟩, ⟨1, 1⟩⟩

/-- Closing one half first loses three: the first half takes one token only. -/
theorem split_close_bounded_losingShort :
    ClosesAll ⟨4, 4⟩ losingShort [0, -3] ∧ [0, -3].sum ≤ -2 + (2 : ℤ) := by
  let market := Market.init false .unrestricted true ⟨0, 0⟩
  have hhalf : losingShort.pnlValue market losingPrices 5 = .ok (0, 0, 1) := by
    decide +kernel
  have hrest : losingShortAfterHalf.pnlValue market losingPrices 5 =
      .ok (-3, -3, 2) := by
    decide +kernel
  have hwhole : losingShort.pnlValue market losingPrices losingShort.sizeInUsd =
      .ok (-2, -2, 3) := by
    decide +kernel
  have hcloses : ClosesAll ⟨4, 4⟩ losingShort [0, -3] :=
    .keep ⟨by decide, ⟨_, market, losingPrices, 0, rfl, hhalf⟩,
        ⟨⟨0, 0, 0⟩, losingShortAfterHalf, 0, by decide +kernel, rfl, rfl, rfl⟩⟩
      (.remove ⟨by decide, ⟨_, market, losingPrices, -3, rfl, hrest⟩,
        ⟨⟨0, 0, 0⟩, Position.empty false false, 0, by decide +kernel, rfl, rfl, rfl⟩⟩)
  exact ⟨hcloses, (split_close_bounded losingShort ⟨4, 4⟩ (by decide)).2 market
    losingPrices (-2) (-2) 3 [0, -3] rfl hwhole hcloses⟩

end Store

end Gmsol.Model
