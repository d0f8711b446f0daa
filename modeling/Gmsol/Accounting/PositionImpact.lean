import Gmsol.Accounting.SwapValue
import Gmsol.Accounting.Decrease

/-!
# Positive position impact

A positive price impact is paid out of the position impact pool.  It is capped
by the value of the pool at the minimal index price, and the tokens that an
increase or a decrease takes for it are then always in the pool.
-/

namespace Gmsol.Model

open Gmsol.Fallible

section Covered

variable [MarketNum] {isPure : Bool}

/-- An impact respects the cap by the pool and the cap by the maximal factor. -/
structure ImpactCapped (market : Market isPure) (indexTokenPrice : Price)
    (sizeDeltaUsd : ℕ) (impact : ℤ) : Prop where
  byPool : impact ≤ (market.positionImpactPoolAmount * indexTokenPrice.min : ℕ)
  byFactor : impact ≤ ((sizeDeltaUsd *
    market.config.positionParams.maxPositivePositionImpactFactor / unit : ℕ) : ℤ)
  poolFits : market.positionImpactPoolAmount * indexTokenPrice.min ≤ maxUnsigned

theorem capPositivePositionPriceImpact_eq_ok {market : Market isPure}
    {indexTokenPrice : Price} {sizeDeltaUsd impact capped : ℤ}
    (hcap : market.capPositivePositionPriceImpact indexTokenPrice sizeDeltaUsd
      impact = .ok capped) (hpositive : 0 < capped) :
    ImpactCapped market indexTokenPrice sizeDeltaUsd.natAbs capped := by
  rw [Market.capPositivePositionPriceImpact] at hcap
  split at hcap
  · simp only [bind_eq_ok, okOr_eq_ok, pure_eq_ok, checkedMul_eq_some,
      applyFactor_eq_some, toSigned_eq_ok, Price.pickPrice, Bool.false_eq_true,
      if_false] at hcap
    obtain ⟨_, ⟨hfits, rfl⟩, _, ⟨-, rfl⟩, _, ⟨-, rfl⟩, _, ⟨-, rfl⟩, rfl⟩ := hcap
    exact ⟨(min_le_left _ _).trans (min_le_right _ _), min_le_right _ _, hfits⟩
  · obtain rfl := Except.ok.inj hcap
    exact absurd hpositive ‹_›

/-- The cap on negative impacts leaves positive impacts alone. -/
theorem capNegativePositionPriceImpact_positive {market : Market isPure}
    {sizeDeltaUsd impact : ℤ} {forLiquidations : Bool} {capped : ℤ × ℕ}
    (hcap : market.capNegativePositionPriceImpact sizeDeltaUsd forLiquidations
      impact = .ok capped) (hpositive : 0 < capped.1) : capped.1 = impact := by
  rw [Market.capNegativePositionPriceImpact] at hcap
  split at hcap
  · simp only [bind_eq_ok, toOppositeSigned_eq_ok] at hcap
    obtain ⟨magnitude, -, _, ⟨-, rfl⟩, hcap⟩ := hcap
    split at hcap
    · simp only [bind_eq_ok, pure_eq_ok] at hcap
      obtain ⟨_, -, rfl⟩ := hcap
      dsimp only at hpositive
      omega
    · obtain rfl := Except.ok.inj hcap
      rfl
  · obtain rfl := Except.ok.inj hcap
    rfl

theorem cappedPositionPriceImpact_eq_ok {position : Position}
    {market : Market isPure} {indexTokenPrice : Price} {sizeDeltaUsd : ℤ}
    {capped : ℤ × ℕ}
    (hcap : position.cappedPositionPriceImpact market indexTokenPrice
      sizeDeltaUsd = .ok capped) (hpositive : 0 < capped.1) :
    ImpactCapped market indexTokenPrice sizeDeltaUsd.natAbs capped.1 := by
  simp only [Position.cappedPositionPriceImpact,
    Position.cappedPositivePositionPriceImpact, bind_eq_ok] at hcap
  obtain ⟨impact, ⟨_, -, hcapPositive⟩, hcapNegative⟩ := hcap
  have heq := capNegativePositionPriceImpact_positive hcapNegative hpositive
  rw [heq] at hpositive ⊢
  exact capPositivePositionPriceImpact_eq_ok hcapPositive hpositive

/-- Tokens that are in the impact pool can be taken. -/
theorem exists_takeFromImpactPool {market : Market isPure} {amount : ℤ}
    (hnonneg : 0 ≤ amount) (hcovered : amount ≤ market.positionImpactPoolAmount)
    (hfits : market.positionImpactPoolAmount ≤ maxUnsigned) :
    ∃ after, market.applyDeltaToPositionImpactPool (-amount) = .ok after ∧
      (after.positionImpactPoolAmount : ℤ) =
        market.positionImpactPoolAmount - amount := by
  simp only [Market.positionImpactPoolAmount, Pool.longAmount, Bool.false_eq_true,
    if_false] at hcovered hfits ⊢
  have htake := Pool.checkedAddSigned_neg hnonneg hcovered hfits
  refine ⟨_, by simp only [Market.applyDeltaToPositionImpactPool,
    Pool.applyDeltaToLongAmount, htake, okOr]; rfl, ?_⟩
  dsimp only
  omega

theorem ImpactCapped.fits {market : Market isPure} {indexTokenPrice : Price}
    {sizeDeltaUsd : ℕ} {impact : ℤ}
    (hcapped : ImpactCapped market indexTokenPrice sizeDeltaUsd impact)
    (hprice : 0 < indexTokenPrice.min) :
    market.positionImpactPoolAmount ≤ maxUnsigned :=
  (Nat.le_mul_of_pos_right _ hprice).trans hcapped.poolFits

/-- The positive impact of an increase is capped, and its tokens, rounded down at
the maximal price, are in the pool. -/
theorem IncreasePosition.getExecutionParams_covered {position : Position}
    {market : Market isPure} {params : IncreasePositionParams}
    {execution : ExecutionParams}
    (hordered : params.prices.indexTokenPrice.Ordered)
    (hexecution : getExecutionParams position market params = .ok execution)
    (hpositive : 0 < execution.priceImpactValue) :
    ImpactCapped market params.prices.indexTokenPrice params.sizeDeltaUsd
        execution.priceImpactValue ∧
      execution.priceImpactAmount =
        execution.priceImpactValue / params.prices.indexTokenPrice.max ∧
      execution.priceImpactAmount ≤ market.positionImpactPoolAmount := by
  rw [getExecutionParams] at hexecution
  split at hexecution
  · obtain rfl := Except.ok.inj hexecution
    exact absurd hpositive (lt_irrefl 0)
  · simp only [bind_eq_ok, pure_eq_ok, toSigned_eq_ok,
      Position.cappedPositivePositionPriceImpact] at hexecution
    obtain ⟨_, ⟨-, rfl⟩, value, ⟨_, -, hcap⟩, amount, hamount, _, -, _, -, _, -,
      rfl⟩ := hexecution
    have hcapped := capPositivePositionPriceImpact_eq_ok hcap hpositive
    dsimp only at hpositive ⊢
    obtain ⟨hmin, hle⟩ := hordered
    have hmax : (0 : ℤ) < params.prices.indexTokenPrice.max := by omega
    simp only [priceImpactAmount, if_pos hpositive, bind_eq_ok, okOr_eq_ok,
      toSigned_eq_ok, Price.pickPrice, if_true] at hamount
    obtain ⟨_, ⟨-, rfl⟩, hdiv⟩ := hamount
    rw [signedDiv, if_neg hmax.ne', narrowSigned_eq_some,
      Int.tdiv_eq_ediv_of_nonneg hpositive.le] at hdiv
    refine ⟨hcapped, hdiv.2.symm, ?_⟩
    rw [← hdiv.2]
    apply Int.ediv_le_of_le_mul hmax
    have hworth : market.positionImpactPoolAmount * params.prices.indexTokenPrice.min ≤
        market.positionImpactPoolAmount * params.prices.indexTokenPrice.max :=
      Nat.mul_le_mul_left _ hle
    have hpool := hcapped.byPool
    push_cast at hpool
    exact hpool.trans (by exact_mod_cast hworth)

/-- Moving fees and collateral of an increase leaves the impact pool alone. -/
theorem IncreasePosition.processCollateral_positionImpact {position : Position}
    {market : Market isPure} {params : IncreasePositionParams} {impact : ℤ}
    {processed : Market isPure × ℤ × PositionFees}
    (hprocess : processCollateral position market params impact = .ok processed) :
    processed.1.positionImpactPoolAmount = market.positionImpactPoolAmount := by
  obtain ⟨_, _, _, heq, -⟩ := processCollateral_eq_ok hprocess
  rw [heq]
  rfl

namespace DecreasePosition

/-- The positive impact of a decrease is capped. -/
theorem prepare_capped {market : Market isPure} {position : Position}
    {order : DecreaseOrder} {prepared : Prepared}
    (hprepare : prepare market position order = .ok prepared)
    (hpositive : 0 < prepared.settlement.priceImpact) :
    ImpactCapped market order.params.prices.indexTokenPrice order.sizeDeltaUsd
      prepared.settlement.priceImpact := by
  simp only [prepare, bind_eq_ok, pure_eq_ok] at hprepare
  obtain ⟨execution, hexecution, _, -, _, -, rfl⟩ := hprepare
  dsimp only at hpositive ⊢
  rw [getExecutionParams] at hexecution
  split at hexecution
  · obtain rfl := Except.ok.inj hexecution
    exact absurd hpositive (lt_irrefl 0)
  · simp only [bind_eq_ok, pure_eq_ok, toOppositeSigned_eq_ok] at hexecution
    obtain ⟨_, ⟨-, rfl⟩, impact, himpact, _, -, rfl⟩ := hexecution
    simpa only [Int.natAbs_neg, Int.natAbs_natCast] using
      cappedPositionPriceImpact_eq_ok himpact hpositive

open CollateralProcessor

/-- Taking the profit out of the liquidity pool leaves the impact pool alone. -/
theorem deductFromPool_positionImpact {context : Context} {before after : State isPure}
    {profit : ℕ} {message : String}
    (hdeduct : deductFromPool context before profit message = .ok after) :
    after.market.positionImpactPoolAmount =
      before.market.positionImpactPoolAmount := by
  simp only [deductFromPool, bind_eq_ok, pure_eq_ok, Market.applyDelta] at hdeduct
  obtain ⟨_, -, _, -, _, ⟨_, -, rfl⟩, _, -, rfl⟩ := hdeduct
  rfl

theorem addPnlIfPositive_positionImpact {context : Context}
    {before after : State isPure} {pnl : ℤ}
    (hadd : addPnlIfPositive context pnl before = .ok after) :
    after.market.positionImpactPoolAmount =
      before.market.positionImpactPoolAmount := by
  rw [addPnlIfPositive] at hadd
  split at hadd
  · exact deductFromPool_positionImpact hadd
  · obtain rfl := Except.ok.inj hadd
    rfl

/-- The tokens of a capped impact, rounded up at the minimal price, are in the
pool. -/
theorem roundUp_covered {market : Market isPure} {indexTokenPrice : Price}
    {sizeDeltaUsd amount : ℕ} {impact : ℤ}
    (hcapped : ImpactCapped market indexTokenPrice sizeDeltaUsd impact)
    (hpositive : 0 < impact) (hprice : 0 < indexTokenPrice.min)
    (hround : checkedRoundUpDiv impact.natAbs (indexTokenPrice.pickPrice false) =
      some amount) :
    amount = impact.natAbs ⌈/⌉ indexTokenPrice.min ∧
      amount ≤ market.positionImpactPoolAmount := by
  obtain ⟨-, -, rfl⟩ := checkedRoundUpDiv_eq_some.mp hround
  refine ⟨rfl, (ceilDiv_le_iff_le_mul hprice).mpr ?_⟩
  have hpool := hcapped.byPool
  rw [mul_comm]
  omega

/-- A positive impact of a decrease can always be taken out of the pool, after the
profit has been taken. -/
theorem addPriceImpactIfPositive_covered {context : Context}
    {market : Market isPure} {state : State isPure} {sizeDeltaUsd amount : ℕ}
    {impact : ℤ}
    (hcapped : ImpactCapped market context.prices.indexTokenPrice sizeDeltaUsd impact)
    (hpositive : 0 < impact) (hprice : 0 < context.prices.indexTokenPrice.min)
    (hpool : state.market.positionImpactPoolAmount = market.positionImpactPoolAmount)
    (hround : checkedRoundUpDiv impact.natAbs
      (context.prices.indexTokenPrice.pickPrice false) = some amount) :
    (∃ after, state.market.applyDeltaToPositionImpactPool (-(amount : ℤ)) =
        .ok after) ∧
      ∀ after, addPriceImpactIfPositive context impact state = .ok after →
        (after.market.positionImpactPoolAmount : ℤ) =
          market.positionImpactPoolAmount - amount := by
  obtain ⟨-, hcovered⟩ := roundUp_covered hcapped hpositive hprice hround
  obtain ⟨taken, htake, hamount⟩ := exists_takeFromImpactPool
    (Int.natCast_nonneg amount) (hpool ▸ Int.ofNat_le.mpr hcovered)
    (hpool ▸ hcapped.fits hprice)
  refine ⟨⟨taken, htake⟩, fun after hadd => ?_⟩
  simp only [addPriceImpactIfPositive, if_pos hpositive, hround, bind_eq_ok,
    okOr_eq_ok, Option.some.injEq, toOppositeSigned_eq_ok] at hadd
  obtain ⟨_, rfl, _, ⟨-, rfl⟩, withImpact, hwithImpact, hdeduct⟩ := hadd
  obtain rfl : taken = withImpact := Except.ok.inj (htake.symm.trans hwithImpact)
  rw [deductFromPool_positionImpact hdeduct, hamount, hpool]

end DecreasePosition

/-! ## Both actions -/

/-- What holds of a positive impact of an increase: it is capped, and once the
collateral has been processed its tokens can be taken out of the pool. -/
structure IncreaseImpactCovered (market : Market isPure) (position : Position)
    (params : IncreasePositionParams) (execution : ExecutionParams) : Prop where
  capped : ImpactCapped market params.prices.indexTokenPrice params.sizeDeltaUsd
    execution.priceImpactValue
  amount_eq : execution.priceImpactAmount =
    execution.priceImpactValue / params.prices.indexTokenPrice.max
  amount_le : execution.priceImpactAmount ≤ market.positionImpactPoolAmount
  taken : ∀ processed,
    IncreasePosition.processCollateral position market params
      execution.priceImpactValue = .ok processed →
    ∃ after, processed.1.applyDeltaToPositionImpactPool
        (-execution.priceImpactAmount) = .ok after ∧
      (after.positionImpactPoolAmount : ℤ) =
        market.positionImpactPoolAmount - execution.priceImpactAmount

open CollateralProcessor DecreasePosition in
/-- What holds of a positive impact of a decrease: it is capped, and once the
profit has been added its tokens can be taken out of the pool. -/
structure DecreaseImpactCovered (market : Market isPure) (position : Position)
    (order : DecreaseOrder) (prepared : Prepared) : Prop where
  capped : ImpactCapped market order.params.prices.indexTokenPrice
    order.sizeDeltaUsd prepared.settlement.priceImpact
  taken : ∀ withPnl amount,
    addPnlIfPositive (contextOf position isPure order.params.prices)
      prepared.settlement.pnl (initialState market position prepared.fees) =
        .ok withPnl →
    checkedRoundUpDiv prepared.settlement.priceImpact.natAbs
      (order.params.prices.indexTokenPrice.pickPrice false) = some amount →
    amount = prepared.settlement.priceImpact.natAbs ⌈/⌉
        order.params.prices.indexTokenPrice.min ∧
      amount ≤ market.positionImpactPoolAmount ∧
      (∃ after, withPnl.market.applyDeltaToPositionImpactPool (-(amount : ℤ)) =
        .ok after) ∧
      ∀ after, addPriceImpactIfPositive
          (contextOf position isPure order.params.prices)
          prepared.settlement.priceImpact withPnl = .ok after →
        (after.market.positionImpactPoolAmount : ℤ) =
          market.positionImpactPoolAmount - amount

/-- A positive position impact is always covered by the impact pool. -/
theorem position_impact_covered (market : Market isPure) (position : Position)
    (indexTokenPrice : Price) (hordered : indexTokenPrice.Ordered) :
    (∀ params execution, params.prices.indexTokenPrice = indexTokenPrice →
      IncreasePosition.getExecutionParams position market params = .ok execution →
      0 < execution.priceImpactValue →
      IncreaseImpactCovered market position params execution) ∧
    ∀ order prepared, order.params.prices.indexTokenPrice = indexTokenPrice →
      DecreasePosition.prepare market position order = .ok prepared →
      0 < prepared.settlement.priceImpact →
      DecreaseImpactCovered market position order prepared := by
  constructor
  · rintro params execution rfl hexecution hpositive
    obtain ⟨hcapped, hamount, hle⟩ :=
      IncreasePosition.getExecutionParams_covered hordered hexecution hpositive
    have hnonneg : 0 ≤ execution.priceImpactAmount :=
      hamount ▸ Int.ediv_nonneg hpositive.le (Int.natCast_nonneg _)
    refine ⟨hcapped, hamount, hle, fun processed hprocess => ?_⟩
    rw [← IncreasePosition.processCollateral_positionImpact hprocess] at hle ⊢
    apply exists_takeFromImpactPool hnonneg hle
    rw [IncreasePosition.processCollateral_positionImpact hprocess]
    exact hcapped.fits hordered.1
  · rintro order prepared rfl hprepare hpositive
    have hcapped := DecreasePosition.prepare_capped hprepare hpositive
    refine ⟨hcapped, fun withPnl amount hadd hround => ?_⟩
    obtain ⟨hamount, hle⟩ :=
      DecreasePosition.roundUp_covered hcapped hpositive hordered.1 hround
    exact ⟨hamount, hle, DecreasePosition.addPriceImpactIfPositive_covered hcapped
      hpositive hordered.1 (DecreasePosition.addPnlIfPositive_positionImpact hadd)
      hround⟩

end Covered

section Store

attribute [local instance] storeNumbers

/-- A market where shorts outweigh longs, whose impact pool holds three tokens. -/
def skewedMarket : Market false :=
  { Market.init false
      { MarketConfig.unrestricted with
        positionImpactParams := ⟨10 ^ 20, 10 ^ 18, 10 ^ 18⟩
        positionParams := ⟨0, 0, 0, 10 ^ 20, 0, 0⟩ } true ⟨0, 0⟩ with
    primary := ⟨10 ^ 25, 10 ^ 25⟩
    positionImpact := ⟨3, 0⟩
    openInterest := ⟨⟨0, 0⟩, ⟨0, 10 ^ 22⟩⟩ }

def skewedPrices : Prices := ⟨⟨2, 3⟩, ⟨1, 1⟩, ⟨1, 1⟩⟩

def skewedShort : Position :=
  { Position.empty false false with
    sizeInUsd := 10 ^ 21
    sizeInTokens := 10 ^ 21 }

def skewedClose : DecreaseOrder :=
  ⟨⟨skewedPrices, 10 ^ 21, none, 0, ⟨false, false, false⟩, .noSwap⟩, 10 ^ 21, 0⟩

/-- Opening a long and closing a short earn all that the pool is worth: two tokens
are taken at the maximal price and three at the minimal one. -/
theorem position_impact_covered_skewed :
    (∃ execution, IncreasePosition.getExecutionParams (.empty true false)
        skewedMarket ⟨0, 10 ^ 21, none, skewedPrices⟩ = .ok execution ∧
      execution.priceImpactValue = 6 ∧ execution.priceImpactAmount = 2 ∧
      IncreaseImpactCovered skewedMarket (.empty true false)
        ⟨0, 10 ^ 21, none, skewedPrices⟩ execution) ∧
    ∃ prepared,
      DecreasePosition.prepare skewedMarket skewedShort skewedClose = .ok prepared ∧
      prepared.settlement.priceImpact = 6 ∧
      DecreaseImpactCovered skewedMarket skewedShort skewedClose prepared := by
  constructor
  · obtain ⟨execution, hexecution, hvalue, hamount⟩ : ∃ execution,
        IncreasePosition.getExecutionParams (.empty true false) skewedMarket
          ⟨0, 10 ^ 21, none, skewedPrices⟩ = .ok execution ∧
        execution.priceImpactValue = 6 ∧ execution.priceImpactAmount = 2 :=
      exists_ok_iff_any.mpr (by decide +kernel)
    exact ⟨execution, hexecution, hvalue, hamount,
      (position_impact_covered skewedMarket (.empty true false) ⟨2, 3⟩
        (by decide)).1 _ execution rfl hexecution (by omega)⟩
  · obtain ⟨prepared, hprepare, hvalue⟩ : ∃ prepared,
        DecreasePosition.prepare skewedMarket skewedShort skewedClose =
          .ok prepared ∧ prepared.settlement.priceImpact = 6 :=
      exists_ok_iff_any.mpr (by decide +kernel)
    exact ⟨prepared, hprepare, hvalue,
      (position_impact_covered skewedMarket _ ⟨2, 3⟩ (by decide)).2 _ prepared rfl
        hprepare (by omega)⟩

end Store

end Gmsol.Model
