import Gmsol.Traits.Atomicity

/-!
# The market of the program

The market that the program stores answers every question of the interface
without an error, and its pools can always be written.  The swap of the interface
is then the swap of the program's market.
-/

namespace Gmsol.Traits

open Gmsol.Fallible Gmsol.Model

variable [MarketNum] {isPure : Bool}

theorem returns_applyDeltaToLongAmount (pool : Pool isPure) (delta : ℤ) :
    Returns (pool.applyDeltaToLongAmount delta) :=
  Returns.bind (returns_okOr fun _ => nofun) fun _ => returns_ok _

theorem returns_applyDeltaToShortAmount (pool : Pool isPure) (delta : ℤ) :
    Returns (pool.applyDeltaToShortAmount delta) := by
  rw [Pool.applyDeltaToShortAmount]
  split
  · exact Returns.bind (returns_okOr fun _ => nofun) fun _ => returns_ok _
  · exact Returns.bind (returns_okOr fun _ => nofun) fun _ => returns_ok _

theorem returns_checkedApplyDelta (pool : Pool isPure) (delta : Delta) :
    Returns (pool.checkedApplyDelta delta) := by
  unfold Pool.checkedApplyDelta
  refine Returns.bind ?_ fun afterLong => ?_
  · cases delta.long with
    | none => exact returns_ok _
    | some amount => exact returns_applyDeltaToLongAmount pool amount
  · cases delta.short with
    | none => exact returns_ok _
    | some amount => exact returns_applyDeltaToShortAmount afterLong amount

instance : PoolOps (Pool isPure) where
  longAmount pool := .ok pool.longAmount
  shortAmount pool := .ok pool.shortAmount
  checkedApplyDelta := Pool.checkedApplyDelta
  returns_longAmount _ := returns_ok _
  returns_shortAmount _ := returns_ok _
  returns_checkedApplyDelta := returns_checkedApplyDelta

namespace Program

/-- The answers of the program's market. -/
def read (market : Market isPure) : SwapMarket (Pool isPure) where
  liquidityPool := .ok market.primary
  claimableFeePool := .ok market.claimableFee
  swapImpactPool := .ok market.swapImpact
  openInterestPool isLong := .ok (market.openInterest.get isLong)
  openInterestInTokensPool isLong := .ok (market.openInterestInTokens.get isLong)
  collateralSumPool isLong := .ok (market.collateralSum.get isLong)
  usdToAmountDivisor := usdToAmountDivisor
  maxPoolAmount isLong := .ok (market.config.maxPoolAmount isLong)
  pnlFactorConfig kind isLong := .ok (market.config.pnlFactorConfig kind isLong)
  reserveFactor := .ok market.config.reserveFactor
  openInterestReserveFactor := .ok market.config.openInterestReserveFactor
  maxOpenInterest isLong := .ok (market.config.maxOpenInterest isLong)
  ignoreOpenInterestForUsageFactor :=
    .ok market.config.ignoreOpenInterestForUsageFactor
  swapImpactParams := .ok market.config.swapImpactParams
  swapFeeParams := .ok market.config.swapFeeParams

def interface : SwapMarketMut (Market isPure) (Pool isPure) where
  read := read
  liquidityPoolMut market := .ok fun primary => { market with primary }
  swapImpactPoolMut market := .ok fun swapImpact => { market with swapImpact }
  claimableFeePoolMut market := .ok fun claimableFee => { market with claimableFee }
  answers market :=
    { liquidityPool := returns_ok _
      claimableFeePool := returns_ok _
      swapImpactPool := returns_ok _
      openInterestPool := fun _ => returns_ok _
      openInterestInTokensPool := fun _ => returns_ok _
      maxPoolAmount := fun _ => returns_ok _
      pnlFactorConfig := fun _ _ => returns_ok _
      reserveFactor := returns_ok _
      swapImpactParams := returns_ok _
      swapFeeParams := returns_ok _ }
  liquidityPoolMut_ok _ _ _ := ⟨_, rfl⟩
  swapImpactPoolMut_ok _ _ _ := ⟨_, rfl⟩
  claimableFeePoolMut_ok _ _ _ := ⟨_, rfl⟩
  read_liquidityPool market write pool hwrite := by
    obtain rfl := Except.ok.inj hwrite
    rfl
  read_swapImpactPool market write pool hwrite := by
    obtain rfl := Except.ok.inj hwrite
    rfl
  read_claimableFeePool market write pool hwrite := by
    obtain rfl := Except.ok.inj hwrite
    rfl

/-! ## The swap of the program -/

theorem read_openInterestAmount (market : Market isPure) (isLong : Bool) :
    (read market).toBaseMarket.openInterestAmount isLong =
      market.openInterestAmount isLong := by
  cases isLong <;> rfl

theorem read_openInterestInTokensAmount (market : Market isPure) (isLong : Bool) :
    (read market).toBaseMarket.openInterestInTokensAmount isLong =
      market.openInterestInTokensAmount isLong := by
  cases isLong <;> rfl

theorem read_pnl (market : Market isPure) (indexTokenPrice : Price)
    (isLong maximize : Bool) :
    (read market).toBaseMarket.pnl indexTokenPrice isLong maximize =
      market.pnl indexTokenPrice isLong maximize := by
  rw [BaseMarket.pnl, Market.pnl, read_openInterestAmount,
    read_openInterestInTokensAmount]

theorem usdValue_eq (pool : Pool isPure) (isLong : Bool) (price : ℕ) :
    PoolOps.usdValue pool isLong price =
      okOr (checkedMul (pool.amount isLong) price) .overflow := by
  cases isLong <;> rfl

theorem read_poolValue (market : Market isPure) (prices : Prices)
    (isLong maximize : Bool) :
    (read market).toBaseMarket.poolValueWithoutPnlForOneSide prices isLong maximize =
      market.poolValueWithoutPnlForOneSide prices isLong maximize :=
  usdValue_eq market.primary isLong _

theorem read_validatePoolAmount (market : Market isPure) (isLongToken : Bool) :
    (read market).toBaseMarket.validatePoolAmount isLongToken =
      market.validatePoolAmount isLongToken := by
  cases isLongToken <;> rfl

theorem read_validateReserve (market : Market isPure) (prices : Prices)
    (isLong : Bool) :
    (read market).toBaseMarket.validateReserve prices isLong =
      market.validateReserve prices isLong := by
  rw [BaseMarket.validateReserve, Market.validateReserve, Market.validateReserveWith,
    read_poolValue]
  cases isLong <;> rfl

theorem read_validatePnlFactor (market : Market isPure) (prices : Prices)
    (kind : PnlFactorKind) (isLong : Bool) :
    (read market).toBaseMarket.validatePnlFactor prices kind isLong =
      market.validatePnlFactor prices kind isLong := by
  rw [BaseMarket.validatePnlFactor, Market.validatePnlFactor,
    BaseMarket.pnlFactorExceeded, Market.pnlFactorExceeded,
    BaseMarket.pnlFactorWithPoolValue, Market.pnlFactorWithPoolValue, read_pnl,
    read_poolValue]
  rfl

theorem read_validateMaxPnl (market : Market isPure) (prices : Prices)
    (longKind shortKind : PnlFactorKind) :
    (read market).toBaseMarket.validateMaxPnl prices longKind shortKind =
      market.validateMaxPnl prices longKind shortKind := by
  rw [BaseMarket.validateMaxPnl, Market.validateMaxPnl, read_validatePnlFactor,
    read_validatePnlFactor]

theorem read_swapImpactAmountWithCap (market : Market isPure) (isLongToken : Bool)
    (price : Price) (usdImpact : ℤ) :
    (read market).swapImpactAmountWithCap isLongToken price usdImpact =
      market.swapImpactAmountWithCap isLongToken price usdImpact := by
  cases isLongToken <;> rfl

/-- The amounts of the interface, as those of the program. -/
def toModel (amounts : Swap.Amounts (Pool isPure)) : Model.Swap.Amounts isPure :=
  ⟨amounts.swapImpact, amounts.tokenInAmount, amounts.tokenOutAmount,
    amounts.poolAmountOut, amounts.priceImpactAmount⟩

omit [MarketNum] in
theorem map_bind {α β γ : Type} (step : Result α) (next : α → Result β)
    (view : β → γ) :
    (step >>= next).map view = step >>= fun value => (next value).map view := by
  cases step <;> rfl

theorem read_cappedDiffTokenInAmount (market : Market isPure) (params : SwapParams)
    (tokenInPrice : Price) (cappedDiffValue : ℕ) :
    Swap.cappedDiffTokenInAmount (read market) params tokenInPrice cappedDiffValue =
      Model.Swap.cappedDiffTokenInAmount market params tokenInPrice
        cappedDiffValue := by
  simp only [Swap.cappedDiffTokenInAmount, Model.Swap.cappedDiffTokenInAmount,
    read_swapImpactAmountWithCap]

theorem read_amountsForPositiveImpact (market : Market isPure) (params : SwapParams)
    (values : Model.Swap.ReassignedValues) (priceImpact : ℤ) (amountAfterFees : ℕ) :
    (Swap.amountsForPositiveImpact (read market) params values priceImpact
        amountAfterFees).map toModel =
      Model.Swap.amountsForPositiveImpact market params values priceImpact
        amountAfterFees := by
  simp only [Swap.amountsForPositiveImpact, Model.Swap.amountsForPositiveImpact,
    read_swapImpactAmountWithCap, read_cappedDiffTokenInAmount, map_bind]
  rfl

theorem read_amountsForNegativeImpact (market : Market isPure) (params : SwapParams)
    (values : Model.Swap.ReassignedValues) (priceImpact : ℤ) (amountAfterFees : ℕ) :
    (Swap.amountsForNegativeImpact (read market) params values priceImpact
        amountAfterFees).map toModel =
      Model.Swap.amountsForNegativeImpact market params values priceImpact
        amountAfterFees := by
  simp only [Swap.amountsForNegativeImpact, Model.Swap.amountsForNegativeImpact,
    read_swapImpactAmountWithCap, map_bind]
  rfl

theorem read_amounts (market : Market isPure) (params : SwapParams)
    (values : Model.Swap.ReassignedValues) (priceImpact : ℤ) (amountAfterFees : ℕ) :
    (Swap.amounts (read market) params values priceImpact amountAfterFees).map
        toModel =
      Model.Swap.amounts market params values priceImpact amountAfterFees := by
  rw [Swap.amounts, Model.Swap.amounts]
  split
  · exact read_amountsForPositiveImpact market params values priceImpact _
  · exact read_amountsForNegativeImpact market params values priceImpact _

/-- The program's market with the pools of a view. -/
def withPools (market : Market isPure) (cache : Swap.Cache (Pool isPure)) :
    Market isPure :=
  { market with
    primary := cache.liquidity
    swapImpact := cache.swapImpact
    claimableFee := cache.claimableFee }

theorem read_priceImpact (market : Market isPure) (params : SwapParams)
    (values : Model.Swap.ReassignedValues) :
    Swap.priceImpact (read market) params values =
      Model.Swap.priceImpact market params values :=
  rfl

theorem read_chargeFees (market : Market isPure) (params : SwapParams)
    (isPositiveImpact : Bool) :
    Swap.chargeFees (read market) params isPositiveImpact =
      okOr (market.config.swapFeeParams.applyFees isPositiveImpact
        params.tokenInAmount) (.computation "apply fees") :=
  rfl

/-- The view judges its pools as the program judges the market with them. -/
theorem read_validate (market : Market isPure) (params : SwapParams)
    (values : Model.Swap.ReassignedValues)
    (liquidity swapImpact claimableFee : Pool isPure) :
    (Swap.Cache.mk (read market).toBaseMarket liquidity swapImpact
        claimableFee).validate params values =
      Model.Swap.validateAfter
        { market with
          primary := liquidity
          swapImpact := swapImpact
          claimableFee := claimableFee } params values := by
  have hview : (Swap.Cache.mk (read market).toBaseMarket liquidity swapImpact
      claimableFee).toBaseMarket = (read { market with
        primary := liquidity
        swapImpact := swapImpact
        claimableFee := claimableFee }).toBaseMarket := rfl
  rw [Swap.Cache.validate, Model.Swap.validateAfter, hview, read_validatePoolAmount,
    read_validateReserve, read_validateMaxPnl]

omit [MarketNum] in
theorem bind_of_map {α β γ : Type} (step : Result α) (view : α → β)
    (next : β → Result γ) :
    step.map view >>= next = step >>= fun value => next (view value) := by
  cases step <;> rfl

/-- Computing a swap of the interface computes the swap of the program. -/
theorem read_tryExecute (market : Market isPure) (params : SwapParams) :
    (Swap.tryExecute (read market) params).map
        (fun result => (withPools market result.1, result.2)) =
      Model.Swap.tryExecute market params := by
  simp only [Swap.tryExecute, Model.Swap.tryExecute, ← read_amounts, map_bind,
    bind_of_map, read_priceImpact, read_chargeFees, read_validate]
  rfl

/-- A swap over the interface is the swap of the program, which leaves the market
alone when it fails. -/
theorem swap_eq (market : Market isPure) (params : SwapParams) :
    Swap.swap interface market params =
      some (match Model.Swap.execute market params with
        | .ok (after, report) => (after, .ok report)
        | .error error => (market, .error error)) := by
  have hmodel : (Swap.tryExecute (interface.read market) params).map
      (fun result => (withPools market result.1, result.2)) =
        Model.Swap.tryExecute market params := read_tryExecute market params
  rw [Swap.swap, Model.Swap.execute]
  cases hnew : Model.Swap.tryNew params with
  | error error => rfl
  | ok done =>
      obtain rfl : done = () := rfl
      have hreturns := Swap.returns_tryExecute (interface.answers market) hnew
      simp only [Swap.execute, bind, Except.bind, ← hmodel]
      cases htry : Swap.tryExecute (interface.read market) params with
      | ok result => rfl
      | error error =>
          cases error with
          | panic message => exact absurd rfl (hreturns _ htry message)
          | _ => rfl

end Program

end Gmsol.Traits
