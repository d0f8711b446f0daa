import Gmsol.Traits.Swap

/-!
# Atomicity of swaps

A swap never stops the program: its prices have been validated before they are
used, and the pools that it writes have been read.  What fails leaves the market
alone, and what succeeds has been judged on the pools that it writes.
-/

namespace Gmsol.Traits

open Gmsol.Fallible Gmsol.Model

variable [MarketNum] {M P : Type} [PoolOps P]

/-! ## Computations that return -/

omit [MarketNum] in
theorem returns_ok {α : Type} (value : α) : Returns (.ok value) :=
  failsOnly_ok value

omit [MarketNum] in
theorem returns_okOr {α : Type} {found : Option α} {failure : Error}
    (hfailure : ∀ message, failure ≠ .panic message) :
    Returns (okOr found failure) :=
  failsOnly_okOr fun _ => hfailure

omit [MarketNum] in
theorem returns_ensure {condition : Prop} [Decidable condition] {failure : Error}
    (hfailure : ∀ message, failure ≠ .panic message) :
    Returns (ensure condition failure) :=
  failsOnly_ensure fun _ => hfailure

omit [MarketNum] in
theorem Returns.bind {α β : Type} {step : Result α} {next : α → Result β}
    (hstep : Returns step) (hnext : ∀ value, Returns (next value)) :
    Returns (step >>= next) :=
  FailsOnly.bind hstep fun value _ => hnext value

omit [MarketNum] in
theorem Returns.ite {α : Type} {condition : Prop} [Decidable condition]
    {yes no : Result α} (hyes : Returns yes) (hno : Returns no) :
    Returns (if condition then yes else no) := by
  split
  · exact hyes
  · exact hno

theorem returns_toSigned (value : ℕ) : Returns (toSigned value) := by
  rw [toSigned]
  split
  · exact returns_ok _
  · intro stopped hfail
    obtain rfl := Except.error.inj hfail
    nofun

theorem returns_toOppositeSigned (value : ℕ) : Returns (toOppositeSigned value) :=
  (returns_toSigned value).bind fun _ => returns_okOr fun _ => nofun

omit [MarketNum] in
theorem returns_amount (pool : P) (isLong : Bool) :
    Returns (PoolOps.amount pool isLong) := by
  cases isLong
  · exact PoolOps.returns_shortAmount pool
  · exact PoolOps.returns_longAmount pool

theorem returns_usdValue (pool : P) (isLong : Bool) (price : ℕ) :
    Returns (PoolOps.usdValue pool isLong price) :=
  (returns_amount pool isLong).bind fun _ => returns_okOr fun _ => nofun

theorem returns_applyFactors (value factor exponent : ℕ) :
    Returns (applyFactors value factor exponent) :=
  Returns.bind (returns_okOr fun _ => nofun) fun _ => returns_okOr fun _ => nofun

theorem returns_priceImpact (delta : PoolDelta) (params : PriceImpactParams) :
    Returns (delta.priceImpact params) := by
  rw [PoolDelta.priceImpact]
  apply Returns.ite
  · apply (returns_applyFactors _ _ _).bind
    intro initial
    apply (returns_applyFactors _ _ _).bind
    intro next
    apply (returns_toSigned _).bind
    intro impact
    exact Returns.ite (returns_ok _) (returns_okOr fun _ => nofun)
  · apply (returns_applyFactors _ _ _).bind
    intro initial
    apply (returns_applyFactors _ _ _).bind
    intro next
    apply (returns_toSigned _).bind
    intro impact
    exact Returns.ite (returns_ok _) (returns_okOr fun _ => nofun)

/-! ## The derived quantities -/

namespace BaseMarket

variable {market : BaseMarket P}

theorem returns_mergedAmount (long short : P) (isLong : Bool) :
    Returns (mergedAmount long short isLong) := by
  apply (PoolOps.returns_longAmount _).bind
  intro longAmount
  apply (PoolOps.returns_shortAmount _).bind
  intro shortAmount
  exact returns_okOr fun _ => nofun

namespace Answers

variable (hanswers : market.Answers)

include hanswers

theorem poolValue (prices : Prices) (isLong maximize : Bool) :
    Returns (market.poolValueWithoutPnlForOneSide prices isLong maximize) :=
  hanswers.liquidityPool.bind fun pool => returns_usdValue pool isLong _

theorem openInterestAmount (isLong : Bool) :
    Returns (market.openInterestAmount isLong) :=
  (hanswers.openInterestPool true).bind fun _ =>
    (hanswers.openInterestPool false).bind fun _ => returns_mergedAmount _ _ _

theorem openInterestInTokensAmount (isLong : Bool) :
    Returns (market.openInterestInTokensAmount isLong) :=
  (hanswers.openInterestInTokensPool true).bind fun _ =>
    (hanswers.openInterestInTokensPool false).bind fun _ => returns_mergedAmount _ _ _

theorem pnl (indexTokenPrice : Price) (isLong maximize : Bool) :
    Returns (market.pnl indexTokenPrice isLong maximize) := by
  apply (hanswers.openInterestAmount isLong).bind
  intro openInterest
  apply (hanswers.openInterestInTokensAmount isLong).bind
  intro openInterestInTokens
  apply Returns.ite (returns_ok 0)
  refine Returns.bind (returns_okOr fun _ => nofun) fun value => ?_
  apply Returns.ite
  · apply (returns_toSigned _).bind
    intro signedValue
    apply (returns_toSigned _).bind
    intro signedInterest
    exact returns_okOr fun _ => nofun
  · apply (returns_toSigned _).bind
    intro signedInterest
    apply (returns_toSigned _).bind
    intro signedValue
    exact returns_okOr fun _ => nofun

theorem validatePnlFactor (prices : Prices) (kind : PnlFactorKind) (isLong : Bool) :
    Returns (market.validatePnlFactor prices kind isLong) := by
  have hfactor : Returns (market.pnlFactorWithPoolValue prices isLong true) := by
    apply (hanswers.poolValue prices isLong _).bind
    intro poolValue
    apply (hanswers.pnl _ isLong true).bind
    intro pnl
    exact Returns.bind (returns_okOr fun _ => nofun) fun _ => returns_ok _
  have hexceeded : Returns (market.pnlFactorExceeded prices kind isLong) :=
    hfactor.bind fun _ => (hanswers.pnlFactorConfig kind isLong).bind fun _ =>
      returns_ok _
  exact hexceeded.bind fun _ => returns_ensure fun _ => nofun

theorem validateMaxPnl (prices : Prices) (longKind shortKind : PnlFactorKind) :
    Returns (market.validateMaxPnl prices longKind shortKind) :=
  (hanswers.validatePnlFactor prices longKind true).bind fun _ =>
    hanswers.validatePnlFactor prices shortKind false

omit [MarketNum] in
theorem validatePoolAmount (isLongToken : Bool) :
    Returns (market.validatePoolAmount isLongToken) := by
  apply hanswers.liquidityPool.bind
  intro pool
  apply (returns_amount pool isLongToken).bind
  intro amount
  apply (hanswers.maxPoolAmount isLongToken).bind
  intro maxPoolAmount
  exact returns_ensure fun _ => nofun

theorem reservedValue (indexTokenPrice : Price) (isLong : Bool) :
    Returns (market.reservedValue indexTokenPrice isLong) :=
  Returns.ite
    ((hanswers.openInterestInTokensAmount true).bind fun _ =>
      returns_okOr fun _ => nofun)
    (hanswers.openInterestAmount false)

theorem validateReserve (prices : Prices) (isLong : Bool) :
    Returns (market.validateReserve prices isLong) := by
  apply (hanswers.poolValue prices isLong false).bind
  intro poolValue
  apply hanswers.reserveFactor.bind
  intro reserveFactor
  refine Returns.bind (returns_okOr fun _ => nofun) fun maxReservedValue => ?_
  apply (hanswers.reservedValue _ isLong).bind
  intro reservedValue
  exact returns_ensure fun _ => nofun

end Answers

end BaseMarket

namespace Swap

variable {market : SwapMarket P} {params : SwapParams}

/-! ## The execution -/

theorem returns_swapImpactAmountWithCap (hanswers : market.Answers)
    (isLongToken : Bool) (price : Price) (usdImpact : ℤ) :
    Returns (market.swapImpactAmountWithCap isLongToken price usdImpact) := by
  rw [SwapMarket.swapImpactAmountWithCap]
  apply Returns.ite
  · intro stopped hfail
    obtain rfl := Except.error.inj hfail
    nofun
  apply Returns.ite
  · apply (returns_toSigned _).bind
    intro maxPrice
    refine Returns.bind (returns_okOr fun _ => nofun) fun amount => ?_
    apply hanswers.swapImpactPool.bind
    intro pool
    apply (returns_amount pool isLongToken).bind
    intro unsignedAmount
    apply (returns_toSigned _).bind
    intro maxAmount
    apply Returns.ite
    · exact Returns.bind (returns_okOr fun _ => nofun) fun _ => returns_ok _
    · exact returns_ok _
  apply Returns.ite
  · apply (returns_toSigned _).bind
    intro minPrice
    exact Returns.bind (returns_okOr fun _ => nofun) fun _ => returns_ok _
  · exact returns_ok _

/-- The prices of a swap that was created have mid prices. -/
theorem mid_of_tryNew {params : SwapParams} (hnew : Swap.tryNew params = .ok ())
    (isLong : Bool) :
    ∃ mid, (params.prices.collateralTokenPrice isLong).mid = .ok mid := by
  simp only [Swap.tryNew, Prices.validate, bind_eq_ok, ensure_eq_ok, exists_const]
    at hnew
  have hvalid := Prices.collateralTokenPrice_isValid hnew.2 isLong
  simp only [Price.isValid, Bool.and_eq_true] at hvalid
  obtain ⟨mid, hmid⟩ := Option.isSome_iff_exists.mp hvalid.2
  exact ⟨mid, okOr_eq_ok.mpr hmid⟩

theorem returns_mid (hnew : Swap.tryNew params = .ok ()) (isLong : Bool) :
    Returns (params.prices.collateralTokenPrice isLong).mid := by
  obtain ⟨mid, hmid⟩ := mid_of_tryNew hnew isLong
  rw [hmid]
  exact returns_ok mid

theorem returns_reassignValues (hnew : Swap.tryNew params = .ok ()) :
    Returns (Swap.reassignValues params) := by
  rw [Swap.reassignValues]
  apply Returns.ite
  · apply (show Returns params.prices.longTokenPrice.mid from
      returns_mid hnew true).bind
    intro mid
    refine Returns.bind (returns_okOr fun _ => nofun) fun value => ?_
    apply (returns_toSigned _).bind
    intro signed
    exact Returns.bind (returns_okOr fun _ => nofun) fun _ => returns_ok _
  · apply (show Returns params.prices.shortTokenPrice.mid from
      returns_mid hnew false).bind
    intro mid
    refine Returns.bind (returns_okOr fun _ => nofun) fun value => ?_
    apply (returns_toSigned _).bind
    intro signed
    exact Returns.bind (returns_okOr fun _ => nofun) fun _ => returns_ok _

theorem returns_swapPriceImpact (hanswers : market.Answers)
    (hnew : Swap.tryNew params = .ok ()) (values : Swap.ReassignedValues) :
    Returns (priceImpact market params values) := by
  apply hanswers.liquidityPool.bind
  intro pool
  apply (show Returns params.prices.longTokenPrice.mid from returns_mid hnew true).bind
  intro longMid
  apply (show Returns params.prices.shortTokenPrice.mid from
    returns_mid hnew false).bind
  intro shortMid
  have hdelta : Returns (SwapMarket.poolDeltaWithValues pool values.longTokenDeltaValue
      values.shortTokenDeltaValue longMid shortMid) := by
    apply (PoolOps.returns_longAmount pool).bind
    intro longAmount
    refine Returns.bind (returns_okOr fun _ => nofun) fun currentLong => ?_
    apply (PoolOps.returns_shortAmount pool).bind
    intro shortAmount
    refine Returns.bind (returns_okOr fun _ => nofun) fun currentShort => ?_
    refine Returns.bind (returns_okOr fun _ => nofun) fun nextLong => ?_
    exact Returns.bind (returns_okOr fun _ => nofun) fun _ => returns_ok _
  apply hdelta.bind
  intro delta
  apply hanswers.swapImpactParams.bind
  intro impactParams
  exact returns_priceImpact delta impactParams

theorem returns_amounts (hanswers : market.Answers) (values : Swap.ReassignedValues)
    (priceImpact : ℤ) (amountAfterFees : ℕ) :
    Returns (amounts market params values priceImpact amountAfterFees) := by
  rw [amounts]
  apply Returns.ite
  · apply (returns_swapImpactAmountWithCap hanswers _ _ _).bind
    intro capped
    have hdiff : Returns (cappedDiffTokenInAmount market params values.tokenInPrice
        capped.2) := by
      apply Returns.ite (returns_ok 0)
      apply (returns_toSigned _).bind
      intro value
      apply (returns_swapImpactAmountWithCap hanswers _ _ _).bind
      intro diff
      exact returns_ok _
    apply hdiff.bind
    intro diffAmount
    have hadd : Returns (addCappedDiff amountAfterFees capped.2 diffAmount) :=
      Returns.ite (returns_ok _) (returns_okOr fun _ => nofun)
    apply hadd.bind
    intro tokenInAmount
    apply hanswers.swapImpactPool.bind
    intro pool
    refine Returns.bind (returns_okOr fun _ => nofun) fun impactDelta => ?_
    refine Returns.bind (returns_okOr fun _ => nofun) fun diffDelta => ?_
    apply (PoolOps.returns_checkedApplyDelta _ _).bind
    intro swapImpact
    refine Returns.bind (returns_okOr fun _ => nofun) fun poolAmountOut => ?_
    exact Returns.bind (returns_okOr fun _ => nofun) fun _ => returns_ok _
  · apply (returns_swapImpactAmountWithCap hanswers _ _ _).bind
    intro capped
    apply hanswers.swapImpactPool.bind
    intro pool
    refine Returns.bind (returns_okOr fun _ => nofun) fun impactDelta => ?_
    apply (PoolOps.returns_checkedApplyDelta _ _).bind
    intro swapImpact
    refine Returns.bind (returns_okOr fun _ => nofun) fun tokenInAmount => ?_
    refine Returns.bind (returns_ensure fun _ => nofun) fun _ => ?_
    exact Returns.bind (returns_okOr fun _ => nofun) fun _ => returns_ok _

omit [MarketNum] [PoolOps P] in
theorem Cache.answers (hanswers : market.Answers) (liquidity swapImpact
    claimableFee : P) :
    (Cache.mk market.toBaseMarket liquidity swapImpact
      claimableFee).toBaseMarket.Answers where
  liquidityPool := returns_ok _
  claimableFeePool := returns_ok _
  swapImpactPool := returns_ok _
  openInterestPool := hanswers.openInterestPool
  openInterestInTokensPool := hanswers.openInterestInTokensPool
  maxPoolAmount := hanswers.maxPoolAmount
  pnlFactorConfig := hanswers.pnlFactorConfig
  reserveFactor := hanswers.reserveFactor

/-- Computing a swap never stops the program. -/
theorem returns_tryExecute (hanswers : market.Answers)
    (hnew : Swap.tryNew params = .ok ()) : Returns (tryExecute market params) := by
  apply (returns_reassignValues hnew).bind
  intro values
  apply (returns_swapPriceImpact hanswers hnew values).bind
  intro impact
  have hcharge : Returns (chargeFees market params (0 < impact)) :=
    hanswers.swapFeeParams.bind fun _ => returns_okOr fun _ => nofun
  apply hcharge.bind
  intro charged
  apply hanswers.claimableFeePool.bind
  intro claimableFeePool
  apply (returns_toSigned _).bind
  intro receiverDelta
  apply (PoolOps.returns_checkedApplyDelta _ _).bind
  intro claimableFee
  apply (returns_amounts hanswers values impact charged.1).bind
  intro amounts
  apply hanswers.liquidityPool.bind
  intro liquidityPool
  refine Returns.bind (returns_okOr fun _ => nofun) fun poolIn => ?_
  apply (returns_toSigned _).bind
  intro inDelta
  apply (returns_toOppositeSigned _).bind
  intro outDelta
  apply (PoolOps.returns_checkedApplyDelta _ _).bind
  intro liquidity
  have hcache := Cache.answers hanswers liquidity amounts.swapImpact claimableFee
  have hvalidate : Returns ((Cache.mk market.toBaseMarket liquidity amounts.swapImpact
      claimableFee).validate params values) := by
    apply (hcache.validatePoolAmount _).bind
    intro _
    apply (hcache.validateReserve _ _).bind
    intro _
    exact hcache.validateMaxPnl _ _ _
  exact hvalidate.bind fun _ => returns_ok _

/-- The limits that a swap respects. -/
structure Validated (market : BaseMarket P) (params : SwapParams) : Prop where
  poolAmount : market.validatePoolAmount params.isTokenInLong = .ok ()
  reserve : market.validateReserve params.prices (!params.isTokenInLong) = .ok ()
  maxPnl : market.validateMaxPnl params.prices
    (if params.isTokenInLong then .maxAfterDeposit else .maxAfterWithdrawal)
    (if params.isTokenInLong then .maxAfterWithdrawal else .maxAfterDeposit) = .ok ()

omit [PoolOps P] in
theorem reassignValues_kinds {values : Swap.ReassignedValues}
    (hvalues : Swap.reassignValues params = .ok values) :
    values.longPnlFactorKind =
        (if params.isTokenInLong then .maxAfterDeposit else .maxAfterWithdrawal) ∧
      values.shortPnlFactorKind =
        if params.isTokenInLong then .maxAfterWithdrawal else .maxAfterDeposit := by
  cases hside : params.isTokenInLong
  · simp only [Swap.reassignValues, hside, Bool.false_eq_true, if_false, bind_eq_ok,
      pure_eq_ok] at hvalues
    obtain ⟨_, _, _, _, _, _, _, _, rfl⟩ := hvalues
    exact ⟨rfl, rfl⟩
  · simp only [Swap.reassignValues, hside, if_true, bind_eq_ok, pure_eq_ok] at hvalues
    obtain ⟨_, _, _, _, _, _, _, _, rfl⟩ := hvalues
    exact ⟨rfl, rfl⟩

/-- What a computed swap has read, and what its view has passed. -/
theorem tryExecute_eq_ok {cache : Cache P} {report : SwapReport}
    (htry : tryExecute market params = .ok (cache, report)) :
    cache.market = market.toBaseMarket ∧
      (∃ pool, market.liquidityPool = .ok pool) ∧
      (∃ pool, market.swapImpactPool = .ok pool) ∧
      (∃ pool, market.claimableFeePool = .ok pool) ∧
      Validated cache.toBaseMarket params := by
  simp only [tryExecute, bind_eq_ok, okOr_eq_ok, pure_eq_ok, Cache.validate] at htry
  obtain ⟨values, hvalues, impact, -, charged, -, claimableFeePool, hclaimable, -, -,
    claimableFee, -, found, hamounts, liquidityPool, hliquidity, -, -, -, -, -, -,
    liquidity, -, ⟨⟩, ⟨⟨⟩, hpool, ⟨⟩, hreserve, hpnl⟩, hresult⟩ := htry
  obtain ⟨rfl, -⟩ := Prod.mk.inj hresult
  have hswapImpact : ∃ pool, market.swapImpactPool = .ok pool := by
    rw [amounts] at hamounts
    split at hamounts
    · simp only [amountsForPositiveImpact, bind_eq_ok] at hamounts
      obtain ⟨-, -, -, -, -, -, pool, hpool, -⟩ := hamounts
      exact ⟨pool, hpool⟩
    · simp only [amountsForNegativeImpact, bind_eq_ok] at hamounts
      obtain ⟨-, -, pool, hpool, -⟩ := hamounts
      exact ⟨pool, hpool⟩
  obtain ⟨hlong, hshort⟩ := reassignValues_kinds hvalues
  rw [hlong, hshort] at hpnl
  exact ⟨rfl, ⟨liquidityPool, hliquidity⟩, hswapImpact, ⟨claimableFeePool, hclaimable⟩,
    ⟨hpool, hreserve, hpnl⟩⟩

omit [MarketNum] [PoolOps P] in
/-- The pools that were read can be written, and then they are the pools of the
market, which answers as the view does. -/
theorem writePools_eq_some (interface : SwapMarketMut M P) {market : M}
    {cache : Cache P} (hmarket : cache.market = (interface.read market).toBaseMarket)
    (hliquidity : ∃ pool, (interface.read market).liquidityPool = .ok pool)
    (hswapImpact : ∃ pool, (interface.read market).swapImpactPool = .ok pool)
    (hclaimable : ∃ pool, (interface.read market).claimableFeePool = .ok pool) :
    ∃ after, writePools interface market cache = some after ∧
      (interface.read after).toBaseMarket = cache.toBaseMarket := by
  obtain ⟨_, hpool⟩ := hliquidity
  obtain ⟨writeLiquidity, hwrite⟩ := interface.liquidityPoolMut_ok _ _ hpool
  have hread := interface.read_liquidityPool _ _ cache.liquidity hwrite
  obtain ⟨_, himpact⟩ := hswapImpact
  obtain ⟨writeImpact, hwriteImpact⟩ :=
    interface.swapImpactPoolMut_ok (writeLiquidity cache.liquidity) _
      (by rw [hread]; exact himpact)
  have hreadImpact := interface.read_swapImpactPool _ _ cache.swapImpact hwriteImpact
  obtain ⟨_, hfee⟩ := hclaimable
  obtain ⟨writeFee, hwriteFee⟩ :=
    interface.claimableFeePoolMut_ok (writeImpact cache.swapImpact) _
      (by rw [hreadImpact, hread]; exact hfee)
  have hreadFee := interface.read_claimableFeePool _ _ cache.claimableFee hwriteFee
  refine ⟨writeFee cache.claimableFee, ?_, ?_⟩
  · simp only [writePools, hwrite, expectWrite, hwriteImpact, hwriteFee,
      Option.bind_eq_bind, Option.bind_some]
  · rw [hreadFee, hreadImpact, hread, Cache.toBaseMarket, hmarket]

/-- A swap never stops the program.  If it fails, the market is the one before
it; if it succeeds, the market after it passes the pool-amount limit of the input
side, the reserve limit of the output side and both max-pnl limits. -/
theorem swap_atomic (interface : SwapMarketMut M P) (market : M)
    (params : SwapParams) :
    (∃ error, swap interface market params = some (market, .error error)) ∨
      ∃ after report, swap interface market params = some (after, .ok report) ∧
        Validated (interface.read after).toBaseMarket params := by
  rw [swap]
  cases hnew : Swap.tryNew params with
  | error error => exact .inl ⟨error, rfl⟩
  | ok done =>
      obtain rfl : done = () := rfl
      simp only [execute]
      have hreturns := returns_tryExecute (interface.answers market) hnew
      cases htry : tryExecute (interface.read market) params with
      | error error =>
          left
          cases error with
          | panic message => exact absurd rfl (hreturns _ htry message)
          | _ => exact ⟨_, rfl⟩
      | ok result =>
          right
          obtain ⟨cache, report⟩ := result
          obtain ⟨hmarket, hliquidity, hswapImpact, hclaimable, hvalidated⟩ :=
            tryExecute_eq_ok htry
          obtain ⟨after, hwrite, hread⟩ :=
            writePools_eq_some interface hmarket hliquidity hswapImpact hclaimable
          refine ⟨after, report, ?_, hread ▸ hvalidated⟩
          simp only [hwrite, Option.map_some]

end Swap

end Gmsol.Traits
