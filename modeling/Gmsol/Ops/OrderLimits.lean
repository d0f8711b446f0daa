import Gmsol.Ops.OrderRefinement

/-!
# The limits of an order

Whoever creates an order says under which conditions it may be executed.  An order that
was executed was executed within all of them: in its time, at its trigger price, at a
price that is acceptable, and with an output that is large enough.
-/

namespace Gmsol.Model

open Gmsol.Fallible

/-- A price that is not worse than the acceptable one: a long position is bought and a
short one is closed not above it, the others not below it. -/
def Acceptable (isBuy : Bool) (acceptable price : ℕ) : Prop :=
  if isBuy then price ≤ acceptable else acceptable ≤ price

variable [MarketNum] {isPure : Bool}

namespace IncreasePosition

omit [MarketNum] in
theorem getExecutionPrice_acceptable {sizeDeltaUsd sizeDeltaInTokens acceptable price : ℕ}
    {isLong : Bool}
    (hprice : getExecutionPriceForIncrease sizeDeltaUsd sizeDeltaInTokens (some acceptable)
      isLong = .ok price) :
    price = sizeDeltaUsd / sizeDeltaInTokens ∧ Acceptable isLong acceptable price := by
  simp only [getExecutionPriceForIncrease, bind_eq_ok, ensure_eq_ok, okOr_eq_ok,
    pure_eq_ok] at hprice
  obtain ⟨_, -, executionPrice, hdiv, _, hacceptable, rfl⟩ := hprice
  refine ⟨(checkedDiv_eq_some.mp hdiv).2.symm, ?_⟩
  unfold Acceptable
  cases isLong <;> simpa using hacceptable

/-- What an increase does to the sizes, and the price that it pays for the tokens. -/
theorem execute_sizes {before after : Market isPure} {position next : Position}
    {params : IncreasePositionParams} {report : IncreasePositionReport} {acceptable : ℕ}
    (hparams : params.acceptablePrice = some acceptable)
    (hexecute : execute before position params = .ok (after, next, report)) :
    next.sizeInUsd = position.sizeInUsd + params.sizeDeltaUsd ∧
      ∃ tokens, next.sizeInTokens =
          (if position.sizeInUsd = 0 then 0 else position.sizeInTokens) + tokens ∧
        (params.sizeDeltaUsd ≠ 0 →
          Acceptable position.isLong acceptable (params.sizeDeltaUsd / tokens)) := by
  simp only [execute, bind_eq_ok, okOr_eq_ok, pure_eq_ok, checkedAdd_eq_some] at hexecute
  obtain ⟨_, -, execution, hexecution, _, -, _, -, _, -, _, -, _, ⟨_, rfl⟩, _, -, _,
    ⟨_, rfl⟩, _, -, _, -, _, -, _, -, _, -, final, hfinal, hresult⟩ := hexecute
  obtain ⟨_, _, _, _, rfl⟩ := onIncreased_eq_ok hfinal
  simp only [Prod.mk.injEq] at hresult
  obtain ⟨-, rfl, -⟩ := hresult
  refine ⟨by simp, execution.sizeDeltaInTokens, ?_, fun hsize => ?_⟩
  · unfold initializePositionIfEmpty
    split_ifs <;> rfl
  · unfold getExecutionParams at hexecution
    rw [if_neg hsize, hparams] at hexecution
    simp only [bind_eq_ok, pure_eq_ok] at hexecution
    obtain ⟨_, -, _, -, _, -, _, -, _, -, price, hprice, rfl⟩ := hexecution
    obtain ⟨rfl, hacceptable⟩ := getExecutionPrice_acceptable hprice
    simpa using hacceptable

end IncreasePosition

namespace DecreasePosition

theorem getExecutionPrice_acceptable {indexPrice : Price}
    {sizeInUsd sizeInTokens sizeDeltaUsd acceptable price : ℕ} {impact : ℤ} {isLong : Bool}
    (hprice : getExecutionPriceForDecrease indexPrice sizeInUsd sizeInTokens sizeDeltaUsd
      impact (some acceptable) isLong = .ok price) : Acceptable (!isLong) acceptable price := by
  simp only [getExecutionPriceForDecrease, bind_eq_ok, ensure_eq_ok, pure_eq_ok] at hprice
  obtain ⟨_, -, _, hacceptable, rfl⟩ := hprice
  unfold Acceptable
  cases isLong <;> simpa using hacceptable

/-- No check changes the acceptable price. -/
theorem checkedOrder_acceptablePrice {market : Market isPure} {position : Position}
    {params : DecreasePositionParams} {order : DecreaseOrder}
    (hcheck : checkedOrder market position params = .ok order) :
    order.params.acceptablePrice = params.acceptablePrice := by
  simp only [checkedOrder, tryNew, bind_eq_ok, pure_eq_ok] at hcheck
  obtain ⟨_, ⟨_, -, _, -, capped, -, rfl⟩, partialClose, hpartial, _, -, rfl⟩ := hcheck
  have hkept : partialClose.params.acceptablePrice = params.acceptablePrice := by
    unfold checkPartialClose at hpartial
    split_ifs at hpartial
    · simp only [bind_eq_ok, pure_eq_ok] at hpartial
      obtain ⟨_, -, _, -, _, -, _, -, _, -, _, -, _, -, _, -, _, -, _, -, rfl⟩ := hpartial
      rfl
    · obtain rfl := Except.ok.inj hpartial
      rfl
  unfold checkSwap checkClose
  split_ifs <;> exact hkept

/-- The price that a decrease reports. -/
theorem execute_price {before after : Market isPure} {position next : Position}
    {params : DecreasePositionParams} {report : DecreasePositionReport} {acceptable : ℕ}
    (hparams : params.acceptablePrice = some acceptable)
    (hexecute : execute before position params = .ok (after, next, report))
    (hsize : report.sizeDeltaUsd ≠ 0) :
    Acceptable (!position.isLong) acceptable report.executionPrice := by
  simp only [execute, bind_eq_ok, pure_eq_ok] at hexecute
  obtain ⟨order, horder, processed, hprocessed, _, -, _, -, _, -, _, -, _, -, hresult⟩ :=
    hexecute
  simp only [Prod.mk.injEq] at hresult
  obtain ⟨-, -, rfl⟩ := hresult
  have hchecked := checkedOrder_acceptablePrice horder
  simp only [processCollateral, bind_eq_ok, pure_eq_ok] at hprocessed
  obtain ⟨prepared, hprepare, _, -, _, -, _, -, rfl⟩ := hprocessed
  simp only [prepare, bind_eq_ok, pure_eq_ok] at hprepare
  obtain ⟨execution, hexecution, _, -, _, -, rfl⟩ := hprepare
  unfold getExecutionParams at hexecution
  rw [if_neg (show order.sizeDeltaUsd ≠ 0 from hsize)] at hexecution
  simp only [bind_eq_ok, pure_eq_ok] at hexecution
  obtain ⟨_, -, _, -, price, hprice, rfl⟩ := hexecution
  rw [hchecked, hparams] at hprice
  exact getExecutionPrice_acceptable hprice

end DecreasePosition

end Gmsol.Model

namespace Gmsol.Ops

open Fallible Container Store SwapPath

/-! ## When an order may be executed -/

/-- The index price has reached the trigger price from the right side. -/
def OrderAccount.TriggerReached (order : OrderAccount) (price : Model.Price) : Prop :=
  match order.kind, order.params.isLong with
  | .limitIncrease, true | .limitDecrease, false => price.max ≤ order.triggerPrice
  | .limitIncrease, false | .limitDecrease, true => order.triggerPrice ≤ price.min
  | .stopLossDecrease, true => price.min ≤ order.triggerPrice
  | .stopLossDecrease, false => order.triggerPrice ≤ price.max
  | _, _ => True

theorem validateTriggerPrice_eq_ok {order : OrderAccount} {price : Model.Price}
    (hvalid : order.validateTriggerPrice price = .ok ()) : order.TriggerReached price := by
  unfold OrderAccount.validateTriggerPrice OrderAccount.validateNotAbove
    OrderAccount.validateNotBelow at hvalid
  unfold OrderAccount.TriggerReached
  cases hkind : order.kind <;> cases hside : order.params.isLong <;>
    simp_all [ensure_eq_ok, Model.Price.pickPrice]

/-- The prices were made after the order, and not too late for it. -/
structure PricedInTime (oracle : TimedOracle) (before : Accounts) : Prop where
  notBefore : before.order.kind ≠ .liquidation → before.order.kind ≠ .autoDeleveraging →
    before.order.updatedAt ≤ oracle.minOracleTs
  notBeforeValid : before.order.kind.isMarket = false →
    before.order.kind ≠ .liquidation → before.order.kind ≠ .autoDeleveraging →
      before.order.validFromTs ≤ oracle.minOracleTs
  notBeforeIncrease : before.order.kind.isDecreasePosition = true →
    before.order.kind ≠ .autoDeleveraging →
      ∃ position, before.position = some position ∧
        position.state.increasedAt ≤ oracle.minOracleTs
  notExpired : before.order.kind.isMarket = true →
    oracle.maxOracleTs ≤ before.order.updatedAt + before.store.requestExpiration

/-- The time after which the prices have to be made is that of the order, the time from
which it is valid, and that of the last increase of the position, as its kind has them. -/
theorem oracleUpdatedAfter_eq_ok {before : Accounts} {updatedAfter : Option ℤ} {minTs : ℤ}
    (hafter : before.oracleUpdatedAfter = .ok updatedAfter)
    (hmin : ∀ after ∈ updatedAfter, after ≤ minTs) :
    (before.order.kind ≠ .liquidation → before.order.kind ≠ .autoDeleveraging →
      before.order.updatedAt ≤ minTs ∧
        (before.order.kind.isMarket = false → before.order.validFromTs ≤ minTs)) ∧
    (before.order.kind.isDecreasePosition = true → before.order.kind ≠ .autoDeleveraging →
      ∃ position, before.position = some position ∧ position.state.increasedAt ≤ minTs) := by
  unfold Accounts.oracleUpdatedAfter at hafter
  cases hkind : before.order.kind
  case liquidation | marketDecrease | limitDecrease | stopLossDecrease =>
    simp only [hkind, bind_eq_ok, okOr_eq_ok, pure_eq_ok] at hafter
    obtain ⟨position, hposition, rfl⟩ := hafter
    have hbound := hmin _ rfl
    simp [OrderKind.isMarket, OrderKind.isDecreasePosition, hposition]
    omega
  case autoDeleveraging => simp
  case marketSwap | marketIncrease | limitSwap | limitIncrease =>
    simp only [hkind] at hafter
    obtain rfl := Except.ok.inj hafter
    have hbound := hmin _ rfl
    simp [OrderKind.isMarket, OrderKind.isDecreasePosition]
    omega

theorem validateOracleAndAdl_eq_ok {op : ExecuteOrderOperation} {oracle : TimedOracle}
    {before : Accounts} (hvalid : before.validateOracleAndAdl op oracle = .ok ()) :
    PricedInTime oracle before := by
  obtain ⟨_, htime, -⟩ := bind_eq_ok.mp hvalid
  simp only [Accounts.validateTime, bind_eq_ok] at htime
  obtain ⟨_, -, _, -, updatedAfter, hafter, _, hmin, updatedBefore, hbefore, hmax⟩ := htime
  rw [TimedOracle.validateMinOracleTs, ensure_eq_ok] at hmin
  rw [TimedOracle.validateMaxOracleTs, ensure_eq_ok] at hmax
  obtain ⟨hnew, hincreased⟩ := oracleUpdatedAfter_eq_ok hafter hmin
  refine ⟨fun hliquidation hadl => (hnew hliquidation hadl).1,
    fun hmarket hliquidation hadl => (hnew hliquidation hadl).2 hmarket, hincreased,
    fun hmarket => ?_⟩
  unfold Accounts.oracleUpdatedBefore at hbefore
  rw [if_pos hmarket, map_eq_ok] at hbefore
  obtain ⟨expiration, hexpiration, rfl⟩ := hbefore
  simp only [StoreAccount.requestExpirationAt, bind_eq_ok, pure_eq_ok] at hexpiration
  obtain ⟨_, -, rfl⟩ := hexpiration
  exact hmax _ rfl

/-! ## What an order has to bring -/

/-- What a decrease is besides; an ordinary one is nothing else. -/
def OrderKind.secondaryOrderType : OrderKind → Option SecondaryOrderType
  | liquidation => some .liquidation
  | autoDeleveraging => some .autoDeleveraging
  | _ => none

section Filled

variable [Model.MarketNum] (oracle : TimedOracle) (before : Accounts)
  (opened : RevertibleMarket × SwapMarkets)

/-- An increase takes in enough collateral and buys at an acceptable price. -/
def IncreasedWithin (after : Accounts) : Prop :=
  ∃ old new collateral tokens, before.position = some old ∧ after.position = some new ∧
    swapCollateral oracle.toOracle opened.1 opened.2 before.order old.collateralToken =
      .ok collateral ∧
    before.order.params.minOutput ≤ collateral.value ∧
    new.state.sizeInUsd = old.state.sizeInUsd + before.order.params.sizeDeltaValue ∧
    new.state.sizeInTokens =
      (if old.state.sizeInUsd = 0 then 0 else old.state.sizeInTokens) + tokens ∧
    (before.order.params.sizeDeltaValue ≠ 0 →
      Model.Acceptable (old.kind = .long) before.order.params.acceptablePrice
        (before.order.params.sizeDeltaValue / tokens))

/-- The outputs of a decrease are worth enough. -/
def OutputsWorth (transferOut : TransferOut) : Prop :=
  ∃ token secondaryToken price secondaryPrice,
    before.order.tokens.finalOutputToken = some token ∧
    before.order.secondaryOutputToken = .ok secondaryToken ∧
    oracle.getPrimaryPrice token false = .ok price ∧
    oracle.getPrimaryPrice secondaryToken false = .ok secondaryPrice ∧
    before.order.params.minOutput ≤
      Order.saturatingAdd (Order.saturatingMul transferOut.finalOutputToken price.min)
        (Order.saturatingMul transferOut.secondaryOutputToken secondaryPrice.min)

/-- A decrease sells at an acceptable price, and only one that its owner has not asked for
may leave a loss to the pool. -/
def DecreasedWithin (op : ExecuteOrderOperation) (prices : Model.Prices) (after : Accounts)
    (outcome : ExecuteOutcome) : Prop :=
  ∃ old copied decreased, before.position = some old ∧
    old.revertible (before.markets op.market) = .ok copied ∧
    decrease prices opened.1 copied before.order.toOrder
      before.order.kind.secondaryOrderType.isSome before.order.kind.secondaryOrderType =
        .ok decreased ∧
    outcome.removePosition = decreased.report.shouldRemove ∧
    after.position = (if decreased.report.shouldRemove then none
      else some { old with state := .ofPosition decreased.position }) ∧
    (decreased.report.sizeDeltaUsd ≠ 0 →
      Model.Acceptable (!copied.isLong) before.order.params.acceptablePrice
        decreased.report.executionPrice)

/-- The order was executed within the limits of its owner. -/
structure RespectsLimits (clock : Model.SysvarClock) (op : ExecuteOrderOperation)
    (prices : Model.Prices) (after : Accounts) (outcome : ExecuteOutcome) : Prop where
  validFrom : before.order.kind.isMarket = false →
    before.order.validFromTs ≤ clock.unixTimestamp
  pricedInTime : PricedInTime oracle before
  trigger : before.order.TriggerReached prices.indexTokenPrice
  swap : before.order.kind.isSwap = true →
    before.order.params.minOutput ≤ outcome.transferOut.finalOutputToken
  increase : before.order.kind.isIncreasePosition = true →
    IncreasedWithin oracle before opened after
  outputs : before.order.kind.isDecreasePosition = true →
    OutputsWorth oracle before outcome.transferOut
  decrease : before.order.kind.isDecreasePosition = true →
    DecreasedWithin before opened op prices after outcome

end Filled

section Transaction

variable [Model.MarketNum] {oracle : TimedOracle} {clock : Model.SysvarClock}
  {op : ExecuteOrderOperation} {prices : Model.Prices} {before : Accounts}
  {market : RevertibleMarket} {swapMarkets : SwapMarkets} {transacted : Transacted}

theorem swapTransaction_output
    (hswap : swapTransaction oracle before market swapMarkets = .ok transacted) :
    before.order.params.minOutput ≤ transacted.outcome.transferOut.finalOutputToken := by
  simp only [swapTransaction, bind_eq_ok, pure_eq_ok] at hswap
  obtain ⟨_, -, stage, -, _, houtput, transferOut, htransfer, rfl⟩ := hswap
  rw [TransferOut.transferOut_eq_ok htransfer]
  simpa [TransferOut.onSide] using ensure_eq_ok.mp houtput

omit [Model.MarketNum] in
theorem revertible_eq_ok {position : PositionAccount} {account : MarketAccount}
    {copied : Model.Position} (hcopy : position.revertible account = .ok copied) :
    ∃ isCollateralTokenLong,
      copied = position.state.toPosition (position.kind = .long) isCollateralTokenLong := by
  simp only [PositionAccount.revertible, PositionAccount.tryIsLong, bind_eq_ok,
    pure_eq_ok] at hcopy
  obtain ⟨_, -, _, ⟨_, -, rfl⟩, side, -, rfl⟩ := hcopy
  exact ⟨side, rfl⟩

/-- The position of an order, its copy, and what the order makes of it. -/
theorem positionTransaction_eq_ok {account : MarketAccount}
    (hposition : positionTransaction oracle clock before account prices market swapMarkets =
      .ok transacted) :
    ∃ position copied stage, before.position = some position ∧
      position.revertible account = .ok copied ∧
      changePosition oracle.toOracle prices market copied position.collateralToken
        swapMarkets {} before.order = .ok stage ∧
      transacted.market = stage.market ∧
      transacted.position = some (.ofPosition stage.value.position) ∧
      transacted.outcome =
        ⟨stage.value.shouldRemovePosition, stage.value.transferOut, true⟩ := by
  simp only [positionTransaction, bind_eq_ok, okOr_eq_ok, pure_eq_ok] at hposition
  obtain ⟨position, hfound, _, -, _, -, copied, hcopied, _, -, stage, hstage, _, -, _, -,
    rfl⟩ := hposition
  exact ⟨position, copied, stage, hfound, hcopied, hstage, rfl, rfl, rfl⟩

/-- What an increase order makes of its position. -/
theorem executeIncreasePosition_eq_ok {position : Model.Position}
    {collateralToken : Pubkey} {transferOut : TransferOut} {order : OrderAccount}
    {stage : Stage Changed}
    (hincrease : executeIncreasePosition oracle.toOracle prices market position
      collateralToken swapMarkets transferOut order = .ok stage) :
    stage.value.shouldRemovePosition = false ∧ ∃ collateral tokens,
      swapCollateral oracle.toOracle market swapMarkets order collateralToken =
        .ok collateral ∧
      order.params.minOutput ≤ collateral.value ∧
      stage.value.position.sizeInUsd = position.sizeInUsd + order.params.sizeDeltaValue ∧
      stage.value.position.sizeInTokens =
        (if position.sizeInUsd = 0 then 0 else position.sizeInTokens) + tokens ∧
      (order.params.sizeDeltaValue ≠ 0 →
        Model.Acceptable position.isLong order.params.acceptablePrice
          (order.params.sizeDeltaValue / tokens)) := by
  simp only [executeIncreasePosition, bind_eq_ok, pure_eq_ok] at hincrease
  obtain ⟨collateral, hcollateral, _, houtput, increased, hincreased, _, -, _, -, _, -, _, -,
    rfl⟩ := hincrease
  simp only [increasePosition, map_eq_ok, mapError_eq_ok] at hincreased
  obtain ⟨⟨state, next, report⟩, hexecute, rfl⟩ := hincreased
  obtain ⟨hsize, tokens, htokens, hacceptable⟩ :=
    Model.IncreasePosition.execute_sizes rfl hexecute
  exact ⟨rfl, collateral, tokens, hcollateral, ensure_eq_ok.mp houtput, hsize, htokens,
    hacceptable⟩

theorem decrease_acceptable {position : Model.Position} {order : Order}
    {isInsolventCloseAllowed : Bool} {secondaryOrderType : Option SecondaryOrderType}
    {decreased : Decreased}
    (hdecrease : decrease prices market position order isInsolventCloseAllowed
      secondaryOrderType = .ok decreased) (hsize : decreased.report.sizeDeltaUsd ≠ 0) :
    Model.Acceptable (!position.isLong) order.params.acceptablePrice
      decreased.report.executionPrice := by
  have hexecuted (hdone : decreasePosition market position
      (decreaseParams prices order isInsolventCloseAllowed secondaryOrderType) =
        .ok decreased) :
      Model.Acceptable (!position.isLong) order.params.acceptablePrice
        decreased.report.executionPrice := by
    simp only [decreasePosition, map_eq_ok, mapError_eq_ok] at hdone
    obtain ⟨⟨state, next, report⟩, hexecute, rfl⟩ := hdone
    exact Model.DecreasePosition.execute_price rfl hexecute hsize
  unfold decrease at hdecrease
  split at hdecrease
  · exact hexecuted hdecrease
  · obtain ⟨_, -, hdone⟩ := bind_eq_ok.mp hdecrease
    exact hexecuted hdone
  · simp only [bind_eq_ok, pure_eq_ok] at hdecrease
    obtain ⟨_, -, _, hdone, _, -, rfl⟩ := hdecrease
    exact hexecuted hdone

/-- What a decrease order makes of its position, and the value of its outputs. -/
theorem decreaseStage_eq_ok {position : Model.Position} {isInsolventCloseAllowed : Bool}
    {secondaryOrderType : Option SecondaryOrderType} {stage : Stage Changed}
    (hdecrease : decreaseStage oracle.toOracle prices market position swapMarkets {}
      before.order isInsolventCloseAllowed secondaryOrderType = .ok stage) :
    OutputsWorth oracle before stage.value.transferOut ∧
      ∃ decreased, decrease prices market position before.order.toOrder
          isInsolventCloseAllowed secondaryOrderType = .ok decreased ∧
        stage.value.position = decreased.position ∧
        stage.value.shouldRemovePosition = decreased.report.shouldRemove := by
  simp only [decreaseStage, executeDecreasePosition, bind_eq_ok, pure_eq_ok] at hdecrease
  obtain ⟨_, ⟨decreased, hdecreased, swapped, hswapped, gathered, hgathered, _, -, _, -,
    rfl⟩, rfl⟩ := hdecrease
  refine ⟨?_, decreased, hdecreased, rfl, rfl⟩
  simp only [swapOutputs, bind_eq_ok, okOr_eq_ok, pure_eq_ok] at hswapped
  obtain ⟨_, -, _, -, _, -, token, htoken, secondaryToken, hsecondaryToken, swap, -, _,
    hvalid, rfl⟩ := hswapped
  simp only [gatherTransfers, bind_eq_ok] at hgathered
  obtain ⟨withFinal, hfinal, withSecondary, hsecondary, withFunding, hfunding, hlast⟩ :=
    hgathered
  obtain ⟨-, hclaimable⟩ := TransferOut.processClaimableCollateralForDecrease_eq_ok hlast
  simp only [Order.validateDecreaseOutputAmounts, bind_eq_ok] at hvalid
  obtain ⟨price, hprice, secondaryPrice, hsecondaryPrice, houtput⟩ := hvalid
  refine ⟨token, secondaryToken, price, secondaryPrice, htoken, hsecondaryToken, hprice,
    hsecondaryPrice, ?_⟩
  rw [hclaimable, TransferOut.transferOutFundingAmounts_eq_ok hfunding,
    TransferOut.transferOut_eq_ok hsecondary, TransferOut.transferOut_eq_ok hfinal]
  simpa [TransferOut.onSide] using ensure_eq_ok.mp houtput

/-- Each kind of order that changes a position goes its own way. -/
theorem changePosition_cases {position : Model.Position} {collateralToken : Pubkey}
    {order : OrderAccount} {stage : Stage Changed}
    (hchange : changePosition oracle.toOracle prices market position collateralToken
      swapMarkets {} order = .ok stage) :
    (order.kind.isIncreasePosition = true →
      executeIncreasePosition oracle.toOracle prices market position collateralToken
        swapMarkets {} order = .ok stage) ∧
    (order.kind.isDecreasePosition = true →
      decreaseStage oracle.toOracle prices market position swapMarkets {} order
        order.kind.secondaryOrderType.isSome order.kind.secondaryOrderType = .ok stage) := by
  unfold changePosition at hchange
  cases hkind : order.kind <;> simp only [hkind] at hchange
  case marketIncrease | limitIncrease =>
    exact ⟨fun _ => hchange, fun hdecrease => absurd hdecrease (by decide)⟩
  case marketSwap | limitSwap => exact absurd hchange (by simp)
  all_goals
    exact ⟨fun hincrease => absurd hincrease (by decide), fun _ => hchange⟩

/-- An order that was executed was executed within the limits of its owner. -/
theorem executed_respectsLimits (leftover : Pubkey → List Access) (op : ExecuteOrderOperation)
    {before after : Accounts} {outcome : ExecuteOutcome}
    (hexecute : op.execute oracle clock leftover before = .ok outcome after)
    (hexecuted : outcome.transferOut.executed = true) :
    ∃ prices discount opened,
      oracle.marketPrices (before.markets op.market).marketMeta = .ok prices ∧
      before.validateAndGetOrderFeeDiscount = .ok discount ∧
      op.openedMarkets clock before prices discount = .ok opened ∧
      RespectsLimits oracle before opened clock op prices after outcome := by
  obtain ⟨hvalidFrom, _, _, attempted, hattempted⟩ := execute_attempted hexecute hexecuted
  obtain ⟨prices, discount, transacted, htransaction⟩ :=
    hattempted.isTransaction hvalidFrom hexecuted
  obtain ⟨stored, hstored, hafter⟩ := htransaction.stored
  have hparts := htransaction.transaction
  simp only [ExecuteOrderOperation.transaction, bind_eq_ok] at hparts
  obtain ⟨_, -, _, -, _, htrigger, opened, hopened, hrest⟩ := hparts
  refine ⟨prices, discount, opened, htransaction.marketPrices, htransaction.orderFeeDiscount,
    hopened, ?_⟩
  have htransferOut : outcome.transferOut.finalOutputToken =
        transacted.outcome.transferOut.finalOutputToken ∧
      outcome.transferOut.secondaryOutputToken =
        transacted.outcome.transferOut.secondaryOutputToken := by
    rw [htransaction.outcome_eq]
    exact ⟨rfl, rfl⟩
  have hchanged (hkind : before.order.kind.isSwap = false) := by
    rw [if_neg (by simp [hkind])] at hrest
    exact positionTransaction_eq_ok hrest
  refine ⟨fun hmarket => ?_, validateOracleAndAdl_eq_ok htransaction.inTime,
    validateTriggerPrice_eq_ok htrigger, fun hswap => ?_, fun hincrease => ?_,
    fun hdecrease => ?_, fun hdecrease => ?_⟩
  · have hvalidFrom := htransaction.validFrom
    unfold OrderAccount.validateValidFromTs at hvalidFrom
    rw [if_neg (by simp [hmarket])] at hvalidFrom
    exact ensure_eq_ok.mp hvalidFrom
  · rw [if_pos hswap] at hrest
    rw [htransferOut.1]
    exact swapTransaction_output hrest
  · obtain ⟨position, copied, stage, hfound, hcopied, hstage, -, hstate, houtcome⟩ :=
      hchanged (by revert hincrease; cases before.order.kind <;> decide)
    obtain ⟨hkept, collateral, tokens, hcollateral, houtput, hsize, htokens, hacceptable⟩ :=
      executeIncreasePosition_eq_ok ((changePosition_cases hstage).1 hincrease)
    obtain ⟨side, rfl⟩ := revertible_eq_ok hcopied
    refine ⟨position, { position with state := .ofPosition stage.value.position }, collateral,
      tokens, hfound, ?_, hcollateral, houtput, hsize, htokens, hacceptable⟩
    rw [hafter, htransaction.outcome_eq, houtcome]
    simp only [ExecuteOutcome.markExecuted, hkept, Bool.false_eq_true, if_false,
      hstored.position, hstate, hfound, Option.elim_some, Option.map_some]
  · obtain ⟨position, copied, stage, -, -, hstage, -, -, houtcome⟩ :=
      hchanged (by revert hdecrease; cases before.order.kind <;> decide)
    have hworth := (decreaseStage_eq_ok ((changePosition_cases hstage).2 hdecrease)).1
    unfold OutputsWorth
    rw [htransferOut.1, htransferOut.2, houtcome]
    exact hworth
  · obtain ⟨position, copied, stage, hfound, hcopied, hstage, -, hstate, houtcome⟩ :=
      hchanged (by revert hdecrease; cases before.order.kind <;> decide)
    obtain ⟨-, decreased, hdone, hposition, hremove⟩ :=
      decreaseStage_eq_ok ((changePosition_cases hstage).2 hdecrease)
    have hremoved : outcome.removePosition = decreased.report.shouldRemove := by
      rw [htransaction.outcome_eq, houtcome]
      exact hremove
    refine ⟨position, copied, decreased, hfound, hcopied, hdone, hremoved, ?_,
      decrease_acceptable hdone⟩
    have hkept : stored.position =
        some { position with state := .ofPosition decreased.position } := by
      rw [hstored.position, hstate, hposition, hfound]
      rfl
    rw [hafter, hremoved, ← hkept]

end Transaction

section Store

attribute [local instance] Model.storeNumbers

/-- A market of the tokens 2 and 3, with a long position of 48 tokens that were bought at a
price of 10, and a collateral of 10.  A position must keep a collateral of a tenth of its
size. -/
def longMarket : MarketAccount where
  store := 0
  marketMeta := ⟨100, 9, 2, 3⟩
  config := { Model.MarketConfig.unrestricted with
    positionParams := ⟨0, 0, 10 ^ 19, 0, 0, 0⟩
    pnlFactorConfig := fun kind _ =>
      if kind = .forAdl ∨ kind = .minAfterAdl then 0 else 10 ^ 20 }
  isEnabled := true
  isGtMintingEnabled := false
  isAdlEnabled := fun _ => true
  totalSupply := 0
  market :=
    { state :=
        { pools := fun kind =>
            ⟨0, match kind with
              | .primary => ⟨false, 1000, 1000⟩
              | .openInterestForLong => ⟨false, 480, 0⟩
              | .openInterestInTokensForLong => ⟨false, 48, 0⟩
              | .collateralSumForLong => ⟨false, 10, 0⟩
              | _ => ⟨false, 0, 0⟩⟩
          clocks := ⟨0, ⟨0, 0, 0, 0, 0⟩⟩
          other := ⟨0, ⟨1, 1010, 1000, 0⟩⟩ }
      buffer := .init }
  tagged := RevertibleBuffer.tagged_init

/-- An order to sell half of the position from a price of 11 on. -/
def sellingAccounts : Accounts :=
  { gtAccounts with
    markets := fun _ => longMarket
    position := some ⟨0, .long, 100, 2, ⟨1, 0, 0, 0, 48, 10, 480, 0, 0, 0, 0⟩⟩
    order := { gtAccounts.order with
      params := ⟨.limitDecrease, true, .noSwap, 0, 240, 40, 11⟩
      swap := ⟨0, 0, 0, 100, Vector.replicate _ 0, Vector.replicate _ 0⟩
      tokens := ⟨some 2, some 2, some 3⟩
      triggerPrice := 11
      validFromTs := 3 } }

/-- An oracle with one price for all tokens. -/
def flatOracle (price : ℕ) : TimedOracle :=
  { gtOracle with primary := fun _ => some ⟨⟨price, price⟩, false⟩ }

/-- An increase with a swap of its collateral, and a decrease at a price of 12 that pays out
4 tokens of profit. -/
theorem executed_respectsLimits_sample :
    (∃ outcome after prices discount opened,
      ExecuteOrderOperation.execute gtOracle ⟨5, 5⟩ (fun _ => []) ⟨100, [some 200], false⟩
        mintingAccounts = .ok outcome after ∧
      ExecuteOrderOperation.openedMarkets ⟨5, 5⟩ mintingAccounts ⟨100, [some 200], false⟩
        prices discount = .ok opened ∧
      RespectsLimits gtOracle mintingAccounts opened ⟨5, 5⟩ ⟨100, [some 200], false⟩ prices
        after outcome) ∧
    ∃ outcome after prices discount opened,
      ExecuteOrderOperation.execute (flatOracle 12) ⟨5, 5⟩ (fun _ => []) ⟨100, [], false⟩
        sellingAccounts = .ok outcome after ∧ outcome.transferOut.finalOutputToken = 4 ∧
      ExecuteOrderOperation.openedMarkets ⟨5, 5⟩ sellingAccounts ⟨100, [], false⟩
        prices discount = .ok opened ∧
      RespectsLimits (flatOracle 12) sellingAccounts opened ⟨5, 5⟩ ⟨100, [], false⟩ prices
        after outcome := by
  constructor
  · have houtcome : Mutation.outcomeOf (ExecuteOrderOperation.execute gtOracle ⟨5, 5⟩
        (fun _ => []) ⟨100, [some 200], false⟩ mintingAccounts) =
          .ok ⟨false, { executed := true }, true⟩ := by decide +kernel
    obtain ⟨after, hexecute⟩ := Mutation.exists_ok_of_outcomeOf houtcome
    obtain ⟨prices, discount, opened, -, -, hopened, hlimits⟩ :=
      executed_respectsLimits (fun _ => []) ⟨100, [some 200], false⟩ hexecute rfl
    exact ⟨_, after, prices, discount, opened, hexecute, hopened, hlimits⟩
  · have houtcome : Mutation.outcomeOf (ExecuteOrderOperation.execute (flatOracle 12) ⟨5, 5⟩
        (fun _ => []) ⟨100, [], false⟩ sellingAccounts) =
          .ok ⟨false, { executed := true, finalOutputToken := 4 }, true⟩ := by decide +kernel
    obtain ⟨after, hexecute⟩ := Mutation.exists_ok_of_outcomeOf houtcome
    obtain ⟨prices, discount, opened, -, -, hopened, hlimits⟩ :=
      executed_respectsLimits (fun _ => []) ⟨100, [], false⟩ hexecute rfl
    exact ⟨_, after, prices, discount, opened, hexecute, rfl, hopened, hlimits⟩

end Store

end Gmsol.Ops
