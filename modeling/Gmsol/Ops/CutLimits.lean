import Gmsol.Ops.PositionCut
import Gmsol.Ops.Records

/-!
# What protects the owner of a position

Anyone's position may be cut, and its owner has not asked for it.  What protects the owner
is what the execution checks: that a position which is liquidated could be liquidated, that
the profits of its side were too large, and that all of what is left is paid out.
-/

namespace Gmsol.Model.DecreasePosition

open Gmsol.Fallible

variable [MarketNum] {isPure : Bool} {market after : Market isPure}
  {position next : Position} {params : DecreasePositionParams}
  {report : DecreasePositionReport}

/-- What the checks leave of a size that was not too large: it is decreased by, or all of
the position is. -/
structure SizeKept (position : Position) (params : DecreasePositionParams)
    (order : DecreaseOrder) : Prop where
  flag : order.params.flags.isLiquidationOrder = params.flags.isLiquidationOrder
  size : order.sizeDeltaUsd = params.initialSizeDeltaUsd ∨
    order.sizeDeltaUsd = position.sizeInUsd

omit [MarketNum] in
theorem init_size {flags : DecreasePositionFlags} {sizeInUsd sizeDeltaUsd : ℕ}
    {capped : DecreasePositionFlags × ℕ}
    (hinit : flags.init sizeInUsd sizeDeltaUsd = .ok capped) :
    capped.1.isLiquidationOrder = flags.isLiquidationOrder ∧
      (capped.2 = sizeDeltaUsd ∨ capped.2 = sizeInUsd) := by
  simp only [DecreasePositionFlags.init, bind_eq_ok, ite_eq_ok, pure_eq_ok,
    reduceCtorEq, and_false, or_false, Except.ok.injEq] at hinit
  obtain ⟨size, hsize, rfl⟩ := hinit
  refine ⟨rfl, ?_⟩
  dsimp only
  omega

theorem closeAllIfTooSmall_size {remainingValue : ℤ} {sizeDeltaUsd result : ℕ}
    (hclose : closeAllIfTooSmall position market remainingValue sizeDeltaUsd =
      .ok result) : result = sizeDeltaUsd ∨ result = position.sizeInUsd := by
  simp only [closeAllIfTooSmall, bind_eq_ok, pure_eq_ok] at hclose
  obtain ⟨_, -, rfl⟩ := hclose
  split_ifs <;> simp

theorem checkPartialClose_size {order checked : DecreaseOrder}
    (hkept : SizeKept position params order)
    (hcheck : checkPartialClose position market order = .ok checked) :
    SizeKept position params checked := by
  unfold checkPartialClose at hcheck
  split_ifs at hcheck
  · simp only [bind_eq_ok, pure_eq_ok] at hcheck
    obtain ⟨_, -, _, -, _, -, _, -, _, -, _, -, _, -, _, -, _, -, size, hsize, rfl⟩ := hcheck
    refine ⟨hkept.flag, ?_⟩
    rcases closeAllIfTooSmall_size hsize with rfl | rfl
    · exact hkept.size
    · exact .inr rfl
  · obtain rfl := Except.ok.inj hcheck
    exact hkept

theorem checkedOrder_size {order : DecreaseOrder}
    (hcheck : checkedOrder market position params = .ok order) :
    SizeKept position params order ∧ checkLiquidation position market order = .ok () := by
  simp only [checkedOrder, tryNew, bind_eq_ok, pure_eq_ok] at hcheck
  obtain ⟨_, ⟨_, -, _, -, capped, hcapped, rfl⟩, _, hpartial, _, hliquidation, rfl⟩ := hcheck
  obtain ⟨hflag, hsize⟩ := init_size hcapped
  have hkept := checkPartialClose_size ⟨hflag, hsize⟩ hpartial
  refine ⟨?_, hliquidation⟩
  unfold checkSwap checkClose
  split_ifs <;> exact { hkept with }

/-- A liquidation order is only executed on a position that can be liquidated. -/
theorem execute_liquidatable (hflag : params.flags.isLiquidationOrder = true)
    (hexecute : execute market position params = .ok (after, next, report)) :
    ∃ reason, position.checkLiquidatable market params.prices true = .ok (some reason) := by
  simp only [execute, bind_eq_ok] at hexecute
  obtain ⟨order, horder, -⟩ := hexecute
  obtain ⟨hkept, hliquidation⟩ := checkedOrder_size horder
  unfold checkLiquidation at hliquidation
  rw [if_pos (hkept.flag.trans hflag)] at hliquidation
  simp only [bind_eq_ok, ensure_eq_ok, Option.isSome_iff_exists] at hliquidation
  obtain ⟨_, hreason, reason, rfl⟩ := hliquidation
  rw [(checkedOrder_eq_ok horder).prices_eq] at hreason
  exact ⟨reason, hreason⟩

/-- What is decreased by, and what is left of the position. -/
theorem execute_sizeDelta
    (hexecute : execute market position params = .ok (after, next, report)) :
    (report.sizeDeltaUsd = params.initialSizeDeltaUsd ∨
      report.sizeDeltaUsd = position.sizeInUsd) ∧
    report.sizeDeltaUsd ≤ position.sizeInUsd ∧
    (report.sizeDeltaUsd = position.sizeInUsd → report.shouldRemove = true) ∧
    (report.shouldRemove = false →
      next.sizeInUsd = position.sizeInUsd - report.sizeDeltaUsd) := by
  simp only [execute, bind_eq_ok, pure_eq_ok] at hexecute
  obtain ⟨order, horder, processed, hprocessed, updated, hupdated, _, -, final, hfinal, _, -,
    _, -, hresult⟩ := hexecute
  simp only [Prod.mk.injEq] at hresult
  obtain ⟨-, rfl, rfl⟩ := hresult
  have hchecked := checkedOrder_eq_ok horder
  have hprices : order.params.prices.isValid = true :=
    hchecked.prices_eq ▸ hchecked.prices_valid
  obtain ⟨hprepare, -⟩ := processCollateral_eq_ok hprices hprocessed
  have hnext := (updateSizes_eq_ok (prepare_eq_ok hprepare).1 hupdated).next
  obtain ⟨_, _, _, _, rfl⟩ := onDecreased_eq_ok hfinal
  refine ⟨(checkedOrder_size horder).1.size, hchecked.sizeDeltaUsd_le, fun hall => ?_,
    fun hkept => ?_⟩
  · exact hnext.shouldRemove_iff.mpr (.inl (Nat.sub_eq_zero_of_le (le_of_eq hall.symm)))
  · have hsize := hnext.sizeInUsd_eq
    rwa [show updated.shouldRemove = false from hkept, if_neg Bool.false_ne_true] at hsize

end Gmsol.Model.DecreasePosition

namespace Gmsol.Ops

open Fallible Container Store SwapPath
open Model.Market (excludedOf)

section Limits

variable [Model.MarketNum]

/-! ## Without a swap -/

section Unswapped

variable {oracle : SwapPath.Oracle} {swapMarkets : SwapMarkets} {direction : SwapDirection}

theorem swapSide_nil {token expected : Pubkey} {amount : ℕ} {outcome : SideOutcome}
    (hswap : swapSide oracle [] expected (some token) amount swapMarkets direction =
      .ok outcome) :
    outcome.markets = swapMarkets ∧ outcome.direction = direction ∧
      outcome.amount = amount := by
  unfold swapSide at hswap
  split at hswap
  · rename_i hnone
    obtain rfl := Except.ok.inj hswap
    refine ⟨rfl, rfl, ?_⟩
    have hzero : amount = 0 := by simpa [Option.filter] using hnone
    exact hzero.symm
  · rename_i found hfound
    obtain ⟨route, hroute, rfl⟩ := map_eq_ok.mp hswap
    simp only [revertibleSwapForOneSide, bind_eq_ok] at hroute
    obtain ⟨_, -, entered, hentered, finished, hfinished, _, -, hdone⟩ := hroute
    obtain rfl := Except.ok.inj hentered
    obtain rfl := Except.ok.inj hfinished
    obtain rfl := Except.ok.inj hdone
    exact ⟨rfl, rfl, rfl⟩

/-- Along empty paths nothing is swapped. -/
theorem revertibleSwap_nil {params : SwapActionParams}
    (hprimary : params.primarySwapPath = []) (hsecondary : params.secondarySwapPath = [])
    {expected : Pubkey × Pubkey} {longToken shortToken : Pubkey} {amounts : ℕ × ℕ}
    {swapped : Swapped}
    (hswap : revertibleSwap oracle swapMarkets direction params expected
      (some longToken, some shortToken) amounts = .ok swapped) :
    swapped.markets = swapMarkets ∧ swapped.direction = direction ∧
      amountOf swapped.long = amounts.1 ∧ amountOf swapped.short = amounts.2 := by
  obtain ⟨long, short, hlong, hshort, -, rfl⟩ := revertibleSwap_sides hswap
  rw [hprimary] at hlong
  rw [hsecondary] at hshort
  obtain ⟨hmarkets, hdirection, hlongAmount⟩ := swapSide_nil hlong
  obtain ⟨hmarkets', hdirection', hshortAmount⟩ := swapSide_nil hshort
  exact ⟨hmarkets'.trans hmarkets, hdirection'.trans hdirection, hlongAmount, hshortAmount⟩

end Unswapped

/-! ## What a cut does -/

/-- What a cut makes of a position: its order, the market that was opened for it, and the
decreased position with its market. -/
structure CutDecrease where
  position : PositionAccount
  copied : Model.Position
  order : OrderAccount
  prices : Model.Prices
  opened : RevertibleMarket × SwapMarkets
  decreased : Decreased

/-- A whole cut, with the market after the transfers. -/
structure PositionCut extends CutDecrease where
  paid : RevertibleMarket

/-- What is to be paid out after a decrease without swaps: the outputs, the claimable funding
amounts, and the claimable collateral of the user and of the holding. -/
def CutDecrease.outputs (cut : CutDecrease) : List Output :=
  let marketMeta := cut.decreased.market.marketMeta
  let report := cut.decreased.report
  [⟨cut.position.collateralToken, report.outputAmount⟩,
    ⟨marketMeta.pnlToken (cut.position.kind = .long), report.secondaryOutputAmount⟩,
    ⟨marketMeta.longTokenMint, report.fees.funding.claimableLongTokenAmount⟩,
    ⟨marketMeta.shortTokenMint, report.fees.funding.claimableShortTokenAmount⟩,
    ⟨marketMeta.pnlToken report.isOutputTokenLong, report.forUser.outputTokenAmount⟩,
    ⟨marketMeta.pnlToken report.isSecondaryOutputTokenLong,
      report.forUser.secondaryOutputTokenAmount⟩,
    ⟨marketMeta.pnlToken report.isOutputTokenLong, report.forHolding.outputTokenAmount⟩,
    ⟨marketMeta.pnlToken report.isSecondaryOutputTokenLong,
      report.forHolding.secondaryOutputTokenAmount⟩]

section Cut

variable {oracle : TimedOracle} {clock : Model.SysvarClock} {leftover : Pubkey → List Access}
  {addresses : Addresses} {op : PositionCutOperation} {before after : Accounts}
  {outcome : CutOutcome}

/-- The position was decreased in the opened market, at prices that are in time. -/
structure CutDecrease.IsExecuted (oracle : TimedOracle) (clock : Model.SysvarClock)
    (addresses : Addresses) (op : PositionCutOperation) (before : Accounts)
    (cut : CutDecrease) : Prop where
  position : before.position = some cut.position
  copied : cut.position.revertible (before.markets op.market) = .ok cut.copied
  order : ∃ isCollateralLong,
    (before.markets op.market).marketMeta.toTokenSide cut.position.collateralToken =
      .ok isCollateralLong ∧
    op.createOrder clock addresses before cut.position (cut.position.kind = .long)
      isCollateralLong = .ok cut.order
  inTime : ({ before with order := cut.order } : Accounts).validateOracleAndAdl
    op.executeOrderOperation oracle = .ok ()
  prices : oracle.marketPrices (before.markets op.market).marketMeta = .ok cut.prices
  opened : ∃ discount, op.executeOrderOperation.openedMarkets clock
    { before with order := cut.order } cut.prices discount = .ok cut.opened
  decreased : decrease cut.prices cut.opened.1 cut.copied cut.order.toOrder true
    (some op.kind.secondaryOrderType) = .ok cut.decreased

/-- All that the decrease reports was sent, and the market is stored with its balances
lowered by it; every other market is as it was. -/
structure PositionCut.IsExecuted (oracle : TimedOracle) (clock : Model.SysvarClock)
    (addresses : Addresses) (op : PositionCutOperation) (before after : Accounts)
    (outcome : CutOutcome) (cut : PositionCut) : Prop extends
    cut.toCutDecrease.IsExecuted oracle clock addresses op before where
  sent : ∀ token, sentIn outcome.sent token = outputsIn cut.outputs token
  finalOutput : sentTo .finalOutput outcome.sent = cut.decreased.report.outputAmount
  paid : cut.decreased.market.Paid cut.paid (outputsIn cut.outputs)
  covered : cut.paid.validateMarketBalances 0 0 = .ok ()
  market : (after.markets op.market).market.state.contents = MarketAccount.contentsOf
    (before.markets op.market).market.state.contents cut.paid.state
  others : ∀ address, address ≠ op.market →
    (after.markets address).market.state = (before.markets address).market.state
  after_position : after.position = if cut.decreased.report.shouldRemove then none
    else some { cut.position with state := .ofPosition cut.decreased.position }
  completed : after.order.actionState = .completed
  rentReceiver : after.order.rentReceiver =
    if cut.decreased.report.shouldRemove then op.owner else op.executor

/-! ## The decrease -/

/-- A decrease order whose outputs were not swapped, and what its execution has left. -/
structure Unswapped (market : RevertibleMarket) (order : Order) (decreased : Decreased)
    (executed : DecreaseOutcome) (swapped : Swapped) (excluded : ℕ × ℕ)
    (finalOutputToken : Pubkey) : Prop where
  isExecuted : Executed market order executed swapped decreased.report excluded
    finalOutputToken
  market_eq : executed.market = decreased.market
  marketMeta_eq : decreased.market.marketMeta = market.marketMeta
  long : amountOf swapped.long = decreased.report.outputAmount
  short : amountOf swapped.short = decreased.report.secondaryOutputAmount

/-- What a decrease order without a swap path makes of the market, of its position and of
the outputs. -/
theorem decreaseStage_nil {market : RevertibleMarket} {swapMarkets : SwapMarkets}
    {position : Model.Position} {prices : Model.Prices} {order : OrderAccount}
    {isInsolventCloseAllowed : Bool} {secondaryOrderType : Option SecondaryOrderType}
    {stage : Stage Changed} (hprimary : order.swap.primarySwapPath = [])
    (hsecondary : order.swap.secondarySwapPath = [])
    (hfor : order.toOrder.IsFor market.marketMeta)
    (hstage : decreaseStage oracle.toOracle prices market position swapMarkets {} order
      isInsolventCloseAllowed secondaryOrderType = .ok stage) :
    ∃ decreased executed swapped excluded finalOutputToken,
      decrease prices market position order.toOrder isInsolventCloseAllowed
        secondaryOrderType = .ok decreased ∧
      Unswapped market order.toOrder decreased executed swapped excluded finalOutputToken ∧
      stage.market = decreased.market ∧ stage.value.position = decreased.position ∧
      stage.value.shouldRemovePosition = decreased.report.shouldRemove ∧
      stage.value.transferOut = executed.transferOut := by
  simp only [decreaseStage, bind_eq_ok, pure_eq_ok] at hstage
  obtain ⟨executed, hexecute, rfl⟩ := hstage
  obtain ⟨decreased, swapped, excluded, finalOutputToken, hdecrease, hswapped, hexecuted⟩ :=
    executeDecreasePosition_eq_ok hsecondary hfor hexecute
  simp only [executeDecreasePosition, bind_eq_ok, pure_eq_ok] at hexecute
  obtain ⟨found, hfound, output, houtput, _, -, _, -, _, -, rfl⟩ := hexecute
  obtain rfl : found = decreased := Except.ok.inj (hfound.symm.trans hdecrease)
  obtain rfl : output = swapped := Except.ok.inj (houtput.symm.trans hswapped)
  simp only [swapOutputs, bind_eq_ok, okOr_eq_ok, pure_eq_ok] at hswapped
  obtain ⟨_, -, _, hamount, _, hsecondaryAmount, _, -, _, -, swap, hswap, _, -, rfl⟩ :=
    hswapped
  obtain ⟨-, hdirection, hlong, hshort⟩ := revertibleSwap_nil hprimary hsecondary hswap
  have hmarket : swap.direction.currentMarket = found.market :=
    congrArg SwapDirection.currentMarket hdirection
  refine ⟨found, _, swap, excluded, finalOutputToken, hdecrease,
    ⟨hexecuted, hmarket, decrease_marketMeta hdecrease, ?_, ?_⟩, hmarket, rfl, rfl, rfl⟩
  · exact hlong.trans (TransferOut.toAmount_eq_ok hamount)
  · exact hshort.trans (TransferOut.toAmount_eq_ok hsecondaryAmount)

/-- Both kinds of cuts are executed as decrease orders that may leave a loss to the pool. -/
theorem changePosition_cut {market : RevertibleMarket} {swapMarkets : SwapMarkets}
    {position : Model.Position} {collateralToken : Pubkey} {prices : Model.Prices}
    {order : OrderAccount} {stage : Stage Changed}
    (hkind : order.kind = op.kind.toOrderKind)
    (hchange : changePosition oracle.toOracle prices market position collateralToken
      swapMarkets {} order = .ok stage) :
    decreaseStage oracle.toOracle prices market position swapMarkets {} order true
      (some op.kind.secondaryOrderType) = .ok stage := by
  have hstage := (changePosition_cases hchange).2
    (hkind ▸ op.kind.isDecreasePosition_toOrderKind)
  rw [hkind, PositionCutKind.secondaryOrderType_toOrderKind] at hstage
  exact hstage

/-! ## The transfers -/

section Stored

variable {account : MarketAccount} {market paid : RevertibleMarket} {contents : Contents}
  {amount : Pubkey → ℕ}

/-- Contents with other balances. -/
def withBalances (contents : Contents) (longTokenBalance shortTokenBalance : ℕ) : Contents :=
  { contents with other := { contents.other with longTokenBalance, shortTokenBalance } }

omit [Model.MarketNum] in
theorem contentsOf_balances {isPure : Bool} (state : Model.Market isPure)
    (longTokenBalance shortTokenBalance : ℕ) :
    MarketAccount.contentsOf contents { state with longTokenBalance, shortTokenBalance } =
      withBalances (MarketAccount.contentsOf contents state) longTokenBalance
        shortTokenBalance := by
  unfold MarketAccount.contentsOf withBalances
  congr

omit [Model.MarketNum] in
/-- A stored market has the contents of its account. -/
theorem contentsOf_stored (account : MarketAccount) (clock : Model.SysvarClock) :
    MarketAccount.contentsOf account.market.state.contents (account.stored clock).state =
      account.market.state.contents := by
  unfold MarketAccount.contentsOf
  congr
  funext kind
  cases kind <;> rfl

omit [Model.MarketNum] in
/-- What was paid out of a stored market was paid by the market that is stored there. -/
theorem stored_paid (hmeta : market.marketMeta = account.marketMeta)
    (hcontents : account.market.state.contents =
      MarketAccount.contentsOf contents market.state)
    (hpaid : (account.stored clock).Paid paid amount) :
    ∃ kept, market.Paid kept amount ∧
      MarketAccount.contentsOf account.market.state.contents paid.state =
        MarketAccount.contentsOf contents kept.state := by
  obtain ⟨state, rfl, hpools, hbalance⟩ := hpaid
  obtain ⟨longTokenBalance, shortTokenBalance, rfl⟩ := hpools.others
  have hbefore : (account.stored clock).balanceOf = market.balanceOf :=
    RevertibleMarket.balanceOf_congr hmeta.symm
      (congrArg (fun contents => contents.other.longTokenBalance) hcontents)
      (congrArg (fun contents => contents.other.shortTokenBalance) hcontents)
  let kept : RevertibleMarket :=
    { market with state := { market.state with longTokenBalance, shortTokenBalance } }
  refine ⟨kept, ⟨_, rfl, ⟨rfl, rfl, rfl, rfl, _, _, rfl⟩, fun token => ?_⟩, ?_⟩
  · rw [← hbefore, ← hbalance token]
    refine congrArg (· + amount token) (congrFun ?_ token)
    exact RevertibleMarket.balanceOf_congr hmeta rfl rfl
  · rw [contentsOf_balances (account.stored clock).state, contentsOf_stored,
      contentsOf_balances market.state, ← hcontents]

end Stored

section Sent

variable {market : RevertibleMarket} {executed : DecreaseOutcome} {swapped : Swapped}
  {excluded : ℕ × ℕ} {finalOutputToken store : Pubkey} {cut : CutDecrease}
  {isCollateralLong : Bool} {accounts : MarketAccounts} {sending : Sending}

/-- Without a swap, what is owed after the decrease is what the decrease reports. -/
theorem owed_outputs (htoken : finalOutputToken = cut.position.collateralToken)
    (hisLong : cut.order.params.isLong = decide (cut.position.kind = .long))
    (hunswapped : Unswapped market cut.order.toOrder cut.decreased executed swapped excluded
      finalOutputToken) (token : Pubkey) :
    outputsIn (owed market.marketMeta swapped cut.decreased.report) token =
      outputsIn cut.outputs token := by
  rw [owed, outputsIn_append, outputsIn_append,
    outputsIn_toList hunswapped.isExecuted.long_token,
    outputsIn_toList hunswapped.isExecuted.short_token, hunswapped.long, hunswapped.short,
    htoken, hisLong]
  simp only [CutDecrease.outputs, hunswapped.marketMeta_eq, outputsIn, List.map_cons,
    List.sum_cons, Nat.add_assoc]

/-- The transfers after a cut are what its decrease reports, out of its market. -/
structure CutDecrease.Sent (cut : CutDecrease) (market : RevertibleMarket)
    (excluded : ℕ × ℕ) (sent : List Transfer) : Prop where
  outputs : ∀ token, sentIn sent token = outputsIn cut.outputs token
  fromMarket : sentFrom market.key sent = outputsIn cut.outputs
  finalOutput : sentTo .finalOutput sent = cut.decreased.report.outputAmount
  reserved : ∀ side, outputsIn cut.outputs (market.marketMeta.pnlToken side) =
    excludedOf market.marketMeta.isPure excluded side

theorem processTransferOut_sent
    (hasks : op.Asks market.marketMeta cut.position isCollateralLong cut.order)
    (hcollateral : market.marketMeta.toTokenSide cut.position.collateralToken =
      .ok isCollateralLong)
    (hunswapped : Unswapped market cut.order.toOrder cut.decreased executed swapped excluded
      finalOutputToken)
    (hsend : (op.processTransferOutOperation store market.key
      { executed.transferOut with executed := true } (cut.position.kind = .long)
      isCollateralLong).execute accounts = .ok sending) :
    cut.Sent market excluded sending.sent := by
  have hexecuted := hunswapped.isExecuted
  rw [hasks.processTransferOut_eq] at hsend
  obtain ⟨amounts, hamounts, hsent, -⟩ := ProcessTransferOutOperation.execute_eq_ok hsend
  have htoken : finalOutputToken = cut.position.collateralToken :=
    Option.some.inj (hexecuted.finalOutput.symm.trans (hasks.finalOutputToken hcollateral))
  have houtputs (token : Pubkey) : sentIn sending.sent token = outputsIn cut.outputs token := by
    rw [hsent, ← owed_outputs htoken hasks.isLong hunswapped]
    exact hexecuted.total hamounts token
  have hfrom : sentFrom market.key sending.sent = sentIn sending.sent := by
    funext token
    rw [hsent, sentFrom_transfers hexecuted.isFor hexecuted.finalOutput,
      sentIn_transfers hexecuted.isFor hexecuted.finalOutput, hasks.outputMarket_eq]
    simp only [true_and]
  refine ⟨houtputs, hfrom.trans (funext houtputs), ?_, fun side => ?_⟩
  · rw [hsent, sentTo_transfers hexecuted.isFor hexecuted.finalOutput, ← hunswapped.long]
    exact congrArg TransferOut.finalOutputToken (gatherTransfers_eq_ok hexecuted.gathered).2
  · rw [← houtputs, ← hfrom, hsent]
    exact hexecuted.reserved hamounts side

end Sent

/-! ## The whole cut -/

theorem openedMarkets_marketMeta {cutOp : ExecuteOrderOperation} {accounts : Accounts}
    {prices : Model.Prices} {discount : ℕ} {opened : RevertibleMarket × SwapMarkets}
    (hopened : cutOp.openedMarkets clock accounts prices discount = .ok opened) :
    opened.1.marketMeta = (accounts.markets cutOp.market).marketMeta := by
  simp only [ExecuteOrderOperation.openedMarkets, bind_eq_ok, pure_eq_ok] at hopened
  obtain ⟨_, -, _, -, _, hprepare, rfl⟩ := hopened
  exact (preExecuted_keepsBalances hprepare).marketMeta_eq

omit [Model.MarketNum] in
theorem completeOrder_eq_ok {isPositionRemoved : Bool} {order completed : OrderAccount}
    (hcomplete : op.completeOrder isPositionRemoved order = .ok completed) :
    completed.actionState = .completed ∧ completed.rentReceiver =
      if isPositionRemoved then order.rentReceiver else op.executor := by
  simp only [PositionCutOperation.completeOrder, OrderAccount.completed, bind_eq_ok,
    pure_eq_ok] at hcomplete
  obtain ⟨_, ⟨state, hstate, rfl⟩, rfl⟩ := hcomplete
  have hcompleted : state = .completed := by
    cases hpending : order.actionState <;> rw [hpending] at hstate <;> cases hstate
    rfl
  cases isPositionRemoved with
  | true => exact ⟨hcompleted, rfl⟩
  | false => exact ⟨hcompleted, rfl⟩

omit [Model.MarketNum] in
/-- The market of a cut is stored with what its transfers have left of it. -/
theorem processTransferOut_eq_ok {accounts : Accounts} {transferOut : TransferOut}
    {isLong isCollateralLong : Bool} {stored : MarketAccount × List Transfer}
    (hprocess : op.processTransferOut clock accounts transferOut isLong isCollateralLong =
      .ok stored) :
    ∃ markets sending paid, (op.processTransferOutOperation accounts.store.key
        (accounts.markets op.market).key transferOut isLong isCollateralLong).execute
          markets = .ok sending ∧
      stored.2 = sending.sent ∧
      ((accounts.markets op.market).stored clock).Paid paid
        (sentFrom (accounts.markets op.market).key sending.sent) ∧
      stored.1.market.state.contents = MarketAccount.contentsOf
        (accounts.markets op.market).market.state.contents paid.state := by
  simp only [PositionCutOperation.processTransferOut, bind_eq_ok, okOr_eq_ok,
    pure_eq_ok] at hprocess
  obtain ⟨sending, hsend, paid, hpaid, account, hpersist, rfl⟩ := hprocess
  obtain ⟨_, -, -, hpaidOut⟩ := ProcessTransferOutOperation.execute_eq_ok hsend
  obtain ⟨found, hfound, hpays⟩ :=
    hpaidOut _ _ ((IndexMap.get_insert _ _ _ _).trans (if_pos rfl))
  obtain rfl : found = paid := Option.some.inj (hfound.symm.trans hpaid)
  exact ⟨_, sending, found, hsend, rfl, hpays, (MarketAccount.persist_contents hpersist).1⟩

/-- What the execution of its order leaves to a cut. -/
structure CutDecrease.Leaves (cut : CutDecrease) (op : PositionCutOperation)
    (before executed : Accounts) (ran : ExecuteOutcome) (transferOut : TransferOut) :
    Prop where
  transferOut_eq : ran.transferOut = { transferOut with executed := true }
  removePosition_eq : ran.removePosition = cut.decreased.report.shouldRemove
  marketMeta_eq : (executed.markets op.market).marketMeta = cut.opened.1.marketMeta
  contents_eq : (executed.markets op.market).market.state.contents =
    MarketAccount.contentsOf (before.markets op.market).market.state.contents
      cut.decreased.market.state
  others : ∀ address, address ≠ op.market →
    (executed.markets address).market.state = (before.markets address).market.state
  position_eq : executed.position = if cut.decreased.report.shouldRemove then none
    else some { cut.position with state := .ofPosition cut.decreased.position }
  rentReceiver_eq : executed.order.rentReceiver = op.owner

section Ran

variable {executed : Accounts} {position : PositionAccount} {isCollateralLong : Bool}
  {order : OrderAccount} {ran : ExecuteOutcome}

/-- The order of a cut decreases the position, and nothing is swapped. -/
theorem PositionCutOperation.Ran.decreases
    (hran : op.Ran oracle clock leftover addresses before executed after position
      isCollateralLong order ran outcome) :
    ∃ (cut : CutDecrease) (decreasing : DecreaseOutcome) (swapped : Swapped)
      (excluded : ℕ × ℕ) (finalOutputToken : Pubkey),
      cut.position = position ∧ cut.order = order ∧
      cut.IsExecuted oracle clock addresses op before ∧
      op.Asks cut.opened.1.marketMeta position isCollateralLong order ∧
      cut.opened.1.marketMeta = (before.markets op.market).marketMeta ∧
      Unswapped cut.opened.1 order.toOrder cut.decreased decreasing swapped excluded
        finalOutputToken ∧
      cut.Leaves op before executed ran decreasing.transferOut := by
  have hasks := createOrder_asks hran.created
  obtain ⟨hvalidFrom, _, _, attempted, hattempted⟩ :=
    execute_attempted hran.performed hran.isExecuted
  obtain ⟨prices, discount, transacted, htransaction⟩ :=
    hattempted.isTransaction hvalidFrom hran.isExecuted
  obtain ⟨stored, hstored, hafter⟩ := htransaction.stored
  have hparts := htransaction.transaction
  simp only [ExecuteOrderOperation.transaction, bind_eq_ok] at hparts
  obtain ⟨_, -, _, -, _, -, opened, hopened, hrest⟩ := hparts
  have hkind : order.kind.isSwap = false := by
    rw [hasks.kind]
    cases op.kind <;> rfl
  rw [if_neg (by simp [hkind])] at hrest
  obtain ⟨found, copied, stage, hfoundPosition, hcopied, hstage, hstaged, hstate, houtcome⟩ :=
    positionTransaction_eq_ok hrest
  obtain rfl : position = found :=
    Option.some.inj (hran.found.symm.trans hfoundPosition)
  have hmeta : opened.1.marketMeta = (before.markets op.market).marketMeta :=
    openedMarkets_marketMeta hopened
  rw [← hmeta] at hasks
  obtain ⟨decreased, decreasing, swapped, excluded, finalOutputToken, hdecreased, hunswapped,
    hmarket, hposition', hremove, htransferOut⟩ :=
    decreaseStage_nil hasks.primarySwapPath hasks.secondarySwapPath hasks.isFor
      (changePosition_cut hasks.kind hstage)
  have hremoved : ran.removePosition = decreased.report.shouldRemove := by
    rw [htransaction.outcome_eq, houtcome]
    exact hremove
  refine ⟨⟨position, copied, order, prices, opened, decreased⟩, decreasing, swapped, excluded,
    finalOutputToken, rfl, rfl,
    { position := hran.found
      copied := hcopied
      order := ⟨isCollateralLong, hran.collateral, hran.created⟩
      inTime := htransaction.inTime
      prices := htransaction.marketPrices
      opened := ⟨discount, hopened⟩
      decreased := hdecreased }, hasks, hmeta, hunswapped,
    { transferOut_eq := ?_
      removePosition_eq := hremoved
      marketMeta_eq := ?_
      contents_eq := ?_
      others := fun address hother => ?_
      position_eq := ?_
      rentReceiver_eq := ?_ }⟩
  · rw [htransaction.outcome_eq, houtcome, ← htransferOut]
    rfl
  · rw [hafter, hmeta]
    exact congrArg MarketInfo.marketMeta (hstored.info op.market)
  · rw [hafter, ← hmarket, ← hstaged]
    exact hstored.current
  · rw [hafter]
    exact hstored.others address hother (by simp [PositionCutOperation.executeOrderOperation])
  · have hkept : stored.position =
        some { position with state := .ofPosition decreased.position } := by
      rw [hstored.position, hstate, hposition']
      simp [hran.found]
    rw [hafter, ← hkept, ← hremoved]
  · rw [hafter]
    exact (congrArg OrderAccount.rentReceiver hstored.order).trans hasks.rentReceiver

end Ran

theorem execute_cuts
    (hexecute : op.execute oracle clock leftover addresses before = .ok outcome after) :
    ∃ (cut : PositionCut) (isCollateralLong : Bool),
      cut.IsExecuted oracle clock addresses op before after outcome ∧
        op.Asks (before.markets op.market).marketMeta cut.position isCollateralLong
          cut.order := by
  obtain ⟨position, isCollateralLong, order, ran, executed, hran⟩ :=
    PositionCutOperation.execute_eq_ok hexecute
  obtain ⟨cut, decreasing, swapped, excluded, finalOutputToken, rfl, rfl, hcut, hasks, hmeta,
    hunswapped, hleaves⟩ := hran.decreases
  obtain ⟨markets, sending, paid, hsend, hsending, hpays, hpaidContents⟩ :=
    processTransferOut_eq_ok hran.paid
  have houtcome : outcome.sent = sending.sent := hsending
  have hkey : (executed.markets op.market).key = cut.opened.1.key :=
    congrArg MarketMeta.marketTokenMint hleaves.marketMeta_eq
  rw [hleaves.transferOut_eq, hkey] at hsend
  have hsent : cut.Sent cut.opened.1 excluded sending.sent :=
    processTransferOut_sent hasks (hmeta ▸ hran.collateral) hunswapped hsend
  obtain ⟨kept, hkept, hkeptContents⟩ :=
    stored_paid (hunswapped.marketMeta_eq.trans hleaves.marketMeta_eq.symm)
      hleaves.contents_eq hpays
  rw [hkey, hsent.fromMarket] at hkept
  obtain ⟨hcompleted, hrent⟩ := completeOrder_eq_ok hran.completed
  refine ⟨⟨cut, kept⟩, isCollateralLong,
    { toIsExecuted := hcut
      sent := houtcome ▸ hsent.outputs
      finalOutput := houtcome ▸ hsent.finalOutput
      paid := hkept
      covered := hkept.validateMarketBalances (hunswapped.marketMeta_eq ▸ hsent.reserved)
        (hunswapped.market_eq ▸ hunswapped.isExecuted.valid)
      market := hpaidContents.trans hkeptContents
      others := fun address hother => ?_
      after_position := hran.position_eq.trans hleaves.position_eq
      completed := hcompleted
      rentReceiver := ?_ }, hmeta ▸ hasks⟩
  · rw [hran.others address hother]
    exact hleaves.others address hother
  · rw [hrent, hleaves.rentReceiver_eq, hleaves.removePosition_eq]

/-! ## Limits -/

omit [Model.MarketNum] in
/-- The prices of a liquidation are newer than the last change of the position. -/
theorem liquidation_inTime {cutOp : ExecuteOrderOperation} {accounts : Accounts}
    {position : PositionAccount}
    (hvalid : accounts.validateOracleAndAdl cutOp oracle = .ok ())
    (hkind : accounts.order.kind = .liquidation) (hposition : accounts.position = some position) :
    position.state.increasedAt ≤ oracle.minOracleTs ∧
      position.state.decreasedAt ≤ oracle.minOracleTs := by
  obtain ⟨_, htime, -⟩ := bind_eq_ok.mp hvalid
  simp only [Accounts.validateTime, bind_eq_ok] at htime
  obtain ⟨_, -, _, -, updatedAfter, hafter, _, hmin, -⟩ := htime
  rw [TimedOracle.validateMinOracleTs, ensure_eq_ok] at hmin
  unfold Accounts.oracleUpdatedAfter at hafter
  simp only [hkind, hposition, okOr, bind_eq_ok, pure_eq_ok] at hafter
  obtain ⟨_, hfound, rfl⟩ := hafter
  obtain rfl := Except.ok.inj hfound
  exact max_le_iff.mp (hmin _ rfl)

/-- A liquidation order is decreased by its size delta only if the position could be
liquidated. -/
theorem decrease_liquidation {market : RevertibleMarket} {position : Model.Position}
    {prices : Model.Prices} {order : Order} {isInsolventCloseAllowed : Bool}
    {decreased : Decreased}
    (hdecrease : decrease prices market position order isInsolventCloseAllowed
      (some .liquidation) = .ok decreased) :
    ∃ reason, position.checkLiquidatable market.state prices true = .ok (some reason) := by
  simp only [decrease, bind_eq_ok] at hdecrease
  obtain ⟨_, -, hdecreased⟩ := hdecrease
  simp only [decreasePosition, map_eq_ok, mapError_eq_ok] at hdecreased
  obtain ⟨⟨state, next, report⟩, hexecute, rfl⟩ := hdecreased
  have hflag : (decreaseParams prices order isInsolventCloseAllowed
      (some .liquidation)).flags.isLiquidationOrder = true := by simp [decreaseParams]
  have hliquidatable := Model.DecreasePosition.execute_liquidatable hflag hexecute
  simpa only [decreaseParams] using hliquidatable

/-- What is left of the size of a position. -/
theorem decrease_sizeDelta {market : RevertibleMarket} {position : Model.Position}
    {prices : Model.Prices} {order : Order} {isInsolventCloseAllowed : Bool}
    {secondaryOrderType : Option SecondaryOrderType} {decreased : Decreased}
    (hdecrease : decrease prices market position order isInsolventCloseAllowed
      secondaryOrderType = .ok decreased) :
    (decreased.report.sizeDeltaUsd = order.params.sizeDeltaValue ∨
      decreased.report.sizeDeltaUsd = position.sizeInUsd) ∧
    (decreased.report.sizeDeltaUsd = position.sizeInUsd →
      decreased.report.shouldRemove = true) ∧
    (decreased.report.shouldRemove = false →
      decreased.position.sizeInUsd = position.sizeInUsd - decreased.report.sizeDeltaUsd) := by
  obtain ⟨params, hparams, hdecreased⟩ : ∃ params,
      params.initialSizeDeltaUsd = order.params.sizeDeltaValue ∧
        decreasePosition market position params = .ok decreased := by
    unfold decrease at hdecrease
    split at hdecrease
    · exact ⟨_, rfl, hdecrease⟩
    · obtain ⟨_, -, hdone⟩ := bind_eq_ok.mp hdecrease
      exact ⟨_, rfl, hdone⟩
    · simp only [bind_eq_ok, pure_eq_ok] at hdecrease
      obtain ⟨_, -, _, hdone, _, -, rfl⟩ := hdecrease
      exact ⟨_, rfl, hdone⟩
  simp only [decreasePosition, map_eq_ok, mapError_eq_ok] at hdecreased
  obtain ⟨⟨state, next, report⟩, hexecute, rfl⟩ := hdecreased
  obtain ⟨hsize, -, hall, hkept⟩ := Model.DecreasePosition.execute_sizeDelta hexecute
  exact ⟨hparams ▸ hsize, hall, hkept⟩

/-- Whoever liquidates a position, it could be liquidated at prices that are newer than its
last change.  All of it is closed, and its account with it, and what is left of it is sent to
its owner. -/
theorem liquidate_onlyLiquidatable (hkind : op.kind = .liquidate)
    (hexecute : op.execute oracle clock leftover addresses before = .ok outcome after) :
    ∃ (cut : PositionCut) (reason : Model.LiquidatableReason),
      cut.IsExecuted oracle clock addresses op before after outcome ∧
      cut.copied.checkLiquidatable cut.opened.1.state cut.prices true = .ok (some reason) ∧
      cut.position.state.increasedAt ≤ oracle.minOracleTs ∧
      cut.position.state.decreasedAt ≤ oracle.minOracleTs ∧
      cut.decreased.report.sizeDeltaUsd = cut.position.state.sizeInUsd ∧
      after.position = none := by
  obtain ⟨cut, _, hcut, hasks⟩ := execute_cuts hexecute
  have hdecreased := hcut.decreased
  obtain ⟨hsize, hall, -⟩ := decrease_sizeDelta hdecreased
  rw [hkind] at hdecreased
  obtain ⟨reason, hreason⟩ := decrease_liquidation hdecreased
  obtain ⟨side, hcopied⟩ := revertible_eq_ok hcut.copied
  have hclosed : cut.decreased.report.sizeDeltaUsd = cut.position.state.sizeInUsd := by
    have hasked := hasks.size
    rw [hkind] at hasked
    rw [hcopied] at hsize
    rcases hsize with hsize | hsize
    · exact hsize.trans hasked
    · exact hsize
  have hremoved := hall (hclosed.trans (by rw [hcopied]; rfl))
  obtain ⟨hincreased, hdecreasedAt⟩ := liquidation_inTime hcut.inTime
    (hasks.kind.trans (by rw [hkind]; rfl)) hcut.position
  refine ⟨cut, reason, hcut, hreason, hincreased, hdecreasedAt, hclosed, ?_⟩
  rw [hcut.after_position, if_pos hremoved]

/-- The pnl factor of a side of the market in which an auto-deleveraging takes place: it is
too high before, and lower but not too low after. -/
structure LowersPnlFactor (prices : Model.Prices) (isLong : Bool)
    (before after : RevertibleMarket) (factorBefore factorAfter : ℤ) : Prop where
  factorBefore_eq : pnlFactor prices before isLong = .ok factorBefore
  factorAfter_eq : pnlFactor prices after isLong = .ok factorAfter
  exceeded : (before.state.config.pnlFactorConfig .forAdl isLong : ℤ) < factorBefore
  lower : factorAfter < factorBefore
  kept : (after.state.config.pnlFactorConfig .minAfterAdl isLong : ℤ) ≤ factorAfter

/-- The transfers do not change the pnl factor. -/
theorem LowersPnlFactor.paid {prices : Model.Prices} {isLong : Bool}
    {market after paid : RevertibleMarket} {factorBefore factorAfter : ℤ}
    {amount : Pubkey → ℕ}
    (hlower : LowersPnlFactor prices isLong market after factorBefore factorAfter)
    (hpaid : after.Paid paid amount) :
    LowersPnlFactor prices isLong market paid factorBefore factorAfter := by
  obtain ⟨state, rfl, hpools, -⟩ := hpaid
  obtain ⟨_, _, rfl⟩ := hpools.others
  exact { hlower with }

theorem validateAdlRequired_eq_ok {market : RevertibleMarket} {prices : Model.Prices}
    {order : Order} {factor : ℤ}
    (hrequired : validateAdlRequired prices market order = .ok factor) :
    pnlFactor prices market order.params.isLong = .ok factor ∧
      (market.state.config.pnlFactorConfig .forAdl order.params.isLong : ℤ) < factor := by
  simp only [validateAdlRequired, bind_eq_ok, ensure_eq_ok, mapError_eq_ok] at hrequired
  obtain ⟨exceeded, hexceeded, _, rfl, hfactor⟩ := hrequired
  refine ⟨hfactor, ?_⟩
  simp only [pnlFactor, map_eq_ok, mapError_eq_ok] at hfactor
  obtain ⟨factorAndValue, hvalue, rfl⟩ := hfactor
  simp only [Model.Market.pnlFactorExceeded, hvalue, bind_eq_ok, pure_eq_ok] at hexceeded
  obtain ⟨found, hfound, hlarge⟩ := hexceeded
  obtain rfl := Except.ok.inj hfound
  have hboth := of_decide_eq_true hlarge
  omega

theorem decrease_autoDeleveraging {market : RevertibleMarket} {position : Model.Position}
    {prices : Model.Prices} {order : Order} {isInsolventCloseAllowed : Bool}
    {decreased : Decreased}
    (hdecrease : decrease prices market position order isInsolventCloseAllowed
      (some .autoDeleveraging) = .ok decreased) :
    ∃ factorBefore factorAfter, LowersPnlFactor prices order.params.isLong market
      decreased.market factorBefore factorAfter := by
  simp only [decrease, bind_eq_ok, pure_eq_ok] at hdecrease
  obtain ⟨factorBefore, hrequired, done, -, _, hvalid, rfl⟩ := hdecrease
  obtain ⟨hbefore, hexceeded⟩ := validateAdlRequired_eq_ok hrequired
  simp only [validateAdl, bind_eq_ok, ensure_eq_ok, mapError_eq_ok,
    Model.toSigned_eq_ok] at hvalid
  obtain ⟨factorAfter, hafter, _, hlower, _, ⟨-, rfl⟩, hkept⟩ := hvalid
  exact ⟨factorBefore, factorAfter, hbefore, hafter, hexceeded, hlower, hkept⟩

omit [Model.MarketNum] in
theorem autoDeleveraging_enabled {cutOp : ExecuteOrderOperation} {accounts : Accounts}
    (hvalid : accounts.validateOracleAndAdl cutOp oracle = .ok ())
    (hkind : accounts.order.kind = .autoDeleveraging) :
    (accounts.markets cutOp.market).isAdlEnabled accounts.order.params.isLong = true ∧
      (accounts.markets cutOp.market).latestAdlTime accounts.order.params.isLong ≤
        oracle.maxOracleTs + accounts.store.adlPricesMaxStaleness := by
  obtain ⟨_, -, hadl⟩ := bind_eq_ok.mp hvalid
  rw [if_pos hkind] at hadl
  simp only [Accounts.validateAdl, bind_eq_ok, ensure_eq_ok] at hadl
  obtain ⟨_, henabled, htime⟩ := hadl
  exact ⟨henabled, htime.trans (min_le_left _ _)⟩

/-- Whoever deleverages a position, this was enabled for its side at prices that are not too
old, and the pnl factor of the side was too high.  It is lower now, but not too low: the
position has lost no more than what was asked for, unless all of it was closed. -/
theorem autoDeleverage_lowersPnlFactor {delta : ℕ} (hkind : op.kind = .autoDeleverage delta)
    (hexecute : op.execute oracle clock leftover addresses before = .ok outcome after) :
    ∃ (cut : PositionCut) (factorBefore factorAfter : ℤ),
      cut.IsExecuted oracle clock addresses op before after outcome ∧
      LowersPnlFactor cut.prices (cut.position.kind = .long) cut.opened.1 cut.paid
        factorBefore factorAfter ∧
      (before.markets op.market).isAdlEnabled (cut.position.kind = .long) = true ∧
      (before.markets op.market).latestAdlTime (cut.position.kind = .long) ≤
        oracle.maxOracleTs + before.store.adlPricesMaxStaleness ∧
      (after.position = none ∨ ∃ kept, after.position = some kept ∧
        kept.state.sizeInUsd =
          cut.position.state.sizeInUsd - min cut.position.state.sizeInUsd delta) := by
  obtain ⟨cut, _, hcut, hasks⟩ := execute_cuts hexecute
  have hdecreased := hcut.decreased
  obtain ⟨hsize, hall, hkept⟩ := decrease_sizeDelta hdecreased
  rw [hkind] at hdecreased
  obtain ⟨factorBefore, factorAfter, hlower⟩ := decrease_autoDeleveraging hdecreased
  obtain ⟨henabled, htime⟩ := autoDeleveraging_enabled hcut.inTime
    (hasks.kind.trans (by rw [hkind]; rfl))
  rw [hasks.isLong] at hlower henabled htime
  refine ⟨cut, factorBefore, factorAfter, hcut, hlower.paid hcut.paid, henabled, htime, ?_⟩
  rw [hcut.after_position]
  cases hremove : cut.decreased.report.shouldRemove with
  | true => exact .inl rfl
  | false =>
      refine .inr ⟨_, rfl, (hkept hremove).trans ?_⟩
      obtain ⟨side, hcopied⟩ := revertible_eq_ok hcut.copied
      have hpartial : cut.decreased.report.sizeDeltaUsd ≠ cut.copied.sizeInUsd :=
        fun hclosed => Bool.false_ne_true (hremove.symm.trans (hall hclosed))
      have hasked := hsize.resolve_right hpartial
      rw [hasked, hcopied]
      have hdelta := hasks.size
      rw [hkind] at hdelta
      exact congrArg (_ - ·) hdelta

end Cut

end Limits

section Store

attribute [local instance] Model.storeNumbers

/-- The accounts with the position before it is cut. -/
def cutAccounts : Accounts := { sellingAccounts with order := gtAccounts.order }

def cutAddresses : Addresses := ⟨fun _ market => market⟩

/-- A cut of the position of the owner 7 by the executor 8. -/
def cutOperation (kind : PositionCutKind) : PositionCutOperation where
  kind := kind
  executor := 8
  owner := 7
  market := 100
  longToken := 2
  shortToken := 3
  longTokenAccount := 12
  shortTokenAccount := 13
  longTokenVault := 22
  shortTokenVault := 23
  claimableLongTokenAccountForUser := 32
  claimableShortTokenAccountForUser := 33
  claimablePnlTokenAccountForHolding := 40

/-- At a price of 9 the collateral that is left is less than a tenth of the size; 4 of it are
sent to the owner. -/
theorem liquidate_onlyLiquidatable_sample :
    ∃ outcome after, (cutOperation .liquidate).execute (flatOracle 9) ⟨5, 5⟩ (fun _ => [])
        cutAddresses cutAccounts = .ok outcome after ∧
      outcome.sent = [⟨.finalOutput, 100, 2, 22, 12, 4⟩] ∧ after.position = none ∧
      ∃ (cut : PositionCut) (reason : Model.LiquidatableReason),
        cut.IsExecuted (flatOracle 9) ⟨5, 5⟩ cutAddresses (cutOperation .liquidate)
          cutAccounts after outcome ∧
        cut.copied.checkLiquidatable cut.opened.1.state cut.prices true =
          .ok (some reason) := by
  have houtcome : Mutation.outcomeOf ((cutOperation .liquidate).execute (flatOracle 9) ⟨5, 5⟩
      (fun _ => []) cutAddresses cutAccounts) =
        .ok ⟨true, [⟨.finalOutput, 100, 2, 22, 12, 4⟩]⟩ := by decide +kernel
  obtain ⟨after, hexecute⟩ := Mutation.exists_ok_of_outcomeOf houtcome
  obtain ⟨cut, reason, hcut, hreason, -, -, -, hclosed⟩ :=
    liquidate_onlyLiquidatable rfl hexecute
  exact ⟨_, after, hexecute, rfl, hclosed, cut, reason, hcut, hreason⟩

/-- At a price of 100 there is a profit, of which a part is paid out. -/
theorem autoDeleverage_lowersPnlFactor_sample :
    ∃ outcome after, (cutOperation (.autoDeleverage 200)).execute (flatOracle 100) ⟨5, 5⟩
        (fun _ => []) cutAddresses cutAccounts = .ok outcome after ∧
      outcome.sent = [⟨.finalOutput, 100, 2, 22, 12, 18⟩] ∧
      ∃ (cut : PositionCut) (factorBefore factorAfter : ℤ),
        cut.IsExecuted (flatOracle 100) ⟨5, 5⟩ cutAddresses
          (cutOperation (.autoDeleverage 200)) cutAccounts after outcome ∧
        LowersPnlFactor cut.prices (cut.position.kind = .long) cut.opened.1 cut.paid
          factorBefore factorAfter := by
  have houtcome : Mutation.outcomeOf ((cutOperation (.autoDeleverage 200)).execute
      (flatOracle 100) ⟨5, 5⟩ (fun _ => []) cutAddresses cutAccounts) =
        .ok ⟨true, [⟨.finalOutput, 100, 2, 22, 12, 18⟩]⟩ := by decide +kernel
  obtain ⟨after, hexecute⟩ := Mutation.exists_ok_of_outcomeOf houtcome
  obtain ⟨cut, factorBefore, factorAfter, hcut, hlower, -⟩ :=
    autoDeleverage_lowersPnlFactor rfl hexecute
  exact ⟨_, after, hexecute, rfl, cut, factorBefore, factorAfter, hcut, hlower⟩

end Store

end Gmsol.Ops
