import Gmsol.Ops.Payout

/-!
# Settling a decrease order

A decrease order that was executed is settled by its transfers: they take from the
market of the order what its balance check has excluded, and from the market of the
final output what the swap has left there.  All receivers together get the outputs
of the swap and what the report lets them claim.
-/

namespace Gmsol.Ops

open Fallible Container Store SwapPath
open Model.Market (excludedOf)

/-! ## What is owed -/

/-- The amounts of a token among outputs. -/
def outputsIn (outputs : List Output) (token : Pubkey) : ℕ :=
  (outputs.map fun output => if output.token = token then output.amount else 0).sum

/-- The outputs of the swap, the claimable funding amounts, and the claimable
collateral of the user and of the holding. -/
def owed (marketMeta : MarketMeta) (swapped : Swapped)
    (report : Model.DecreasePositionReport) : List Output :=
  swapped.long.toList ++ swapped.short.toList ++
    [⟨marketMeta.longTokenMint, report.fees.funding.claimableLongTokenAmount⟩,
      ⟨marketMeta.shortTokenMint, report.fees.funding.claimableShortTokenAmount⟩,
      ⟨marketMeta.pnlToken report.isOutputTokenLong, report.forUser.outputTokenAmount⟩,
      ⟨marketMeta.pnlToken report.isSecondaryOutputTokenLong,
        report.forUser.secondaryOutputTokenAmount⟩,
      ⟨marketMeta.pnlToken report.isOutputTokenLong,
        report.forHolding.outputTokenAmount⟩,
      ⟨marketMeta.pnlToken report.isSecondaryOutputTokenLong,
        report.forHolding.secondaryOutputTokenAmount⟩]

theorem outputsIn_append (first second : List Output) (token : Pubkey) :
    outputsIn (first ++ second) token = outputsIn first token + outputsIn second token := by
  simp [outputsIn]

theorem outputsIn_toList {output : Option Output} {expected : Pubkey}
    (htoken : ∀ found, output = some found → found.token = expected) (token : Pubkey) :
    outputsIn output.toList token = if expected = token then amountOf output else 0 := by
  cases output with
  | none => simp [outputsIn, amountOf]
  | some found =>
      rw [← htoken found rfl]
      simp [outputsIn, amountOf]

/-! ## The record -/

variable {swapped : Swapped} {report : Model.DecreasePositionReport}

theorem gatherTransfers_eq_ok {gathered : TransferOut}
    (hgather : gatherTransfers {} swapped report = .ok gathered) :
    report.forHolding.outputTokenAmount = 0 ∧ gathered =
      { finalOutputToken := amountOf swapped.long
        secondaryOutputToken := amountOf swapped.short
        longToken := report.fees.funding.claimableLongTokenAmount
        shortToken := report.fees.funding.claimableShortTokenAmount
        longTokenForClaimableAccountOfUser :=
          TransferOut.onSide report.isOutputTokenLong report.forUser.outputTokenAmount +
            TransferOut.onSide report.isSecondaryOutputTokenLong
              report.forUser.secondaryOutputTokenAmount
        shortTokenForClaimableAccountOfUser :=
          TransferOut.onSide (!report.isOutputTokenLong)
              report.forUser.outputTokenAmount +
            TransferOut.onSide (!report.isSecondaryOutputTokenLong)
              report.forUser.secondaryOutputTokenAmount
        longTokenForClaimableAccountOfHolding :=
          TransferOut.onSide report.isSecondaryOutputTokenLong
            report.forHolding.secondaryOutputTokenAmount
        shortTokenForClaimableAccountOfHolding :=
          TransferOut.onSide (!report.isSecondaryOutputTokenLong)
            report.forHolding.secondaryOutputTokenAmount } := by
  simp only [gatherTransfers, bind_eq_ok] at hgather
  obtain ⟨withFinal, hfinal, withSecondary, hsecondary, withFunding, hfunding,
    hclaimable⟩ := hgather
  obtain ⟨hnone, hgathered⟩ :=
    TransferOut.processClaimableCollateralForDecrease_eq_ok hclaimable
  refine ⟨hnone, ?_⟩
  rw [hgathered, TransferOut.transferOutFundingAmounts_eq_ok hfunding,
    TransferOut.transferOut_eq_ok hsecondary, TransferOut.transferOut_eq_ok hfinal]
  simp [TransferOut.onSide]

/-! ## The swap -/

section Swap

variable [Model.MarketNum] {oracle : SwapPath.Oracle} {markets : SwapMarkets}
  {direction : SwapDirection} {params : SwapActionParams}
  {expectedTokenOuts : Pubkey × Pubkey} {tokenIns : Option Pubkey × Option Pubkey}
  {tokenInAmounts : ℕ × ℕ}

/-- A swap keeps the current market and validates the markets of its outputs. -/
theorem revertibleSwap_eq_ok
    (hswap : revertibleSwap oracle markets direction params expectedTokenOuts tokenIns
      tokenInAmounts = .ok swapped) :
    swapped.direction.isInto = direction.isInto ∧
      swapped.direction.currentMarket.marketMeta = direction.currentMarket.marketMeta ∧
      validateOutputs swapped.markets swapped.direction
        (outputMarketToken direction params.primarySwapPath)
        (outputMarketToken direction params.secondarySwapPath)
        ⟨expectedTokenOuts.1, amountOf swapped.long⟩
        ⟨expectedTokenOuts.2, amountOf swapped.short⟩ = .ok () := by
  obtain ⟨long, short, hlong, hshort, hvalid, rfl⟩ := revertibleSwap_sides hswap
  have hlongKept := swapSide_kept hlong 0 0
  have hshortKept := swapSide_kept hshort 0 0
  have hkept := hlongKept.trans hshortKept
  refine ⟨hkept.isInto_eq, hkept.current_eq, ?_⟩
  rw [outputMarketToken_congr hkept.isInto_eq hkept.current,
    outputMarketToken_congr hkept.isInto_eq hkept.current] at hvalid
  exact hvalid

omit [Model.MarketNum] in
/-- What is excluded of a market for one output. -/
theorem exclude_eq_ok {market : RevertibleMarket} {token : Pubkey} {amount : ℕ}
    {excluded : ℕ × ℕ} (hexclude : market.exclude token amount (0, 0) = .ok excluded)
    (side : Bool) :
    excludedOf market.marketMeta.isPure excluded side =
      if token = market.marketMeta.pnlToken side then amount else 0 := by
  unfold RevertibleMarket.exclude at hexclude
  by_cases hzero : amount = 0
  · rw [if_pos hzero] at hexclude
    cases hexclude
    rw [excludedOf_pair, ite_self, ite_self, hzero, ite_self]
  · rw [if_neg hzero, bind_eq_ok] at hexclude
    obtain ⟨isLong, hside, hexclude⟩ := hexclude
    rw [(MarketMeta.toTokenSide_eq_ok hside).1]
    cases isLong with
    | true =>
        simp only [if_true, bind_eq_ok, ensure_eq_ok, pure_eq_ok, Nat.zero_add]
          at hexclude
        obtain ⟨_, _, rfl⟩ := hexclude
        rw [excludedOf_pair, ite_self, add_zero]
        rfl
    | false =>
        simp only [Bool.false_eq_true, if_false, bind_eq_ok, ensure_eq_ok, pure_eq_ok,
          Nat.zero_add] at hexclude
        obtain ⟨_, _, rfl⟩ := hexclude
        rw [excludedOf_pair, ite_self, zero_add]
        rfl

/-- The market of an output that is not the current one was validated with the output
excluded. -/
theorem validateOutputs_other {longMarket : Pubkey} {long short : Output}
    (hother : longMarket ≠ direction.current)
    (hvalid : validateOutputs markets direction longMarket direction.current long short =
      .ok ()) :
    ∃ market excluded, markets.get longMarket = some market ∧
      market.validateMarketBalances excluded.1 excluded.2 = .ok () ∧
      ∀ side, excludedOf market.marketMeta.isPure excluded side =
        if long.token = market.marketMeta.pnlToken side then long.amount else 0 := by
  simp only [validateOutputs, validateOutputMarkets, if_neg hother,
    validateOutputMarket, marketAt,
    RevertibleMarket.validateMarketBalancesExcludingTheGivenTokenAmounts, bind_eq_ok,
    okOr_eq_ok] at hvalid
  obtain ⟨_, ⟨_, ⟨market, hmarket, first, hfirst, excluded, hexcluded, hvalid⟩, _⟩, _⟩ :=
    hvalid
  obtain rfl : first = excluded := Except.ok.inj hexcluded
  exact ⟨market, first, hmarket, hvalid, exclude_eq_ok hfirst⟩

end Swap

/-! ## Settling -/

section Settle

variable [Model.MarketNum] {oracle : SwapPath.Oracle} {prices : Model.Prices}
  {market : RevertibleMarket} {position : Model.Position} {swapMarkets : SwapMarkets}
  {order : Order} {isInsolventCloseAllowed : Bool}
  {secondaryOrderType : Option SecondaryOrderType} {decreased : Decreased}

theorem decreasePosition_marketMeta {params : Model.DecreasePositionParams}
    (hdecrease : decreasePosition market position params = .ok decreased) :
    decreased.market.marketMeta = market.marketMeta := by
  simp only [decreasePosition, map_eq_ok] at hdecrease
  obtain ⟨_, _, rfl⟩ := hdecrease
  rfl

theorem decrease_marketMeta
    (hdecrease : decrease prices market position order isInsolventCloseAllowed
      secondaryOrderType = .ok decreased) :
    decreased.market.marketMeta = market.marketMeta := by
  cases secondaryOrderType with
  | none => exact decreasePosition_marketMeta hdecrease
  | some kind =>
      cases kind with
      | liquidation =>
          simp only [decrease, bind_eq_ok] at hdecrease
          obtain ⟨_, _, hdecrease⟩ := hdecrease
          exact decreasePosition_marketMeta hdecrease
      | autoDeleveraging =>
          simp only [decrease, bind_eq_ok, pure_eq_ok] at hdecrease
          obtain ⟨_, _, found, hdecrease, _, _, rfl⟩ := hdecrease
          exact decreasePosition_marketMeta hdecrease

/-- The outputs are swapped to the tokens of the order. -/
theorem swapOutputs_eq_ok (hfor : order.IsFor decreased.market.marketMeta)
    (hswap : swapOutputs oracle decreased swapMarkets order = .ok swapped) :
    ∃ finalOutputToken, order.tokens.finalOutputToken = some finalOutputToken ∧
      revertibleSwap oracle swapMarkets ⟨false, decreased.market⟩ order.swap
        (finalOutputToken, decreased.market.marketMeta.pnlToken order.params.isLong)
        (outputTokens decreased.market.marketMeta decreased.report)
        (decreased.report.outputAmount, decreased.report.secondaryOutputAmount) =
          .ok swapped := by
  simp only [swapOutputs, Order.secondaryOutputToken, bind_eq_ok, okOr_eq_ok,
    pure_eq_ok] at hswap
  obtain ⟨_, _, outputAmount, houtput, secondaryAmount, hsecondary, finalOutputToken,
    hfinal, secondaryOutputToken, hpnl, found, hswapped, _, _, rfl⟩ := hswap
  have htoken : secondaryOutputToken =
      decreased.market.marketMeta.pnlToken order.params.isLong := by
    rw [hfor.longToken, hfor.shortToken] at hpnl
    cases hisLong : order.params.isLong <;> simp_all [MarketMeta.pnlToken]
  rw [TransferOut.toAmount_eq_ok houtput, TransferOut.toAmount_eq_ok hsecondary,
    htoken] at hswapped
  exact ⟨finalOutputToken, hfinal, hswapped⟩

/-- What the transfers of a decrease order have to do with its execution. -/
structure Settled (order : Order) (marketMeta : MarketMeta) (swapped : Swapped)
    (report : Model.DecreasePositionReport) (excluded : ℕ × ℕ) (sending : Sending) :
    Prop where
  /-- The market of the order pays what its balance check has excluded. -/
  reserved : ∀ side, sentFrom marketMeta.marketTokenMint sending.sent
    (marketMeta.pnlToken side) = excludedOf marketMeta.isPure excluded side
  /-- The market of the final output pays the swapped amount. -/
  finalOutput : sentTo .finalOutput sending.sent = amountOf swapped.long ∧
    ∀ transfer ∈ sending.sent, transfer.receiver = .finalOutput →
      transfer.market = outputMarket order marketMeta.marketTokenMint true ∧
        order.tokens.finalOutputToken = some transfer.token
  otherMarket : outputMarket order marketMeta.marketTokenMint true ≠
      marketMeta.marketTokenMint →
    ∀ token, sentFrom (outputMarket order marketMeta.marketTokenMint true)
      sending.sent token = outputsIn swapped.long.toList token
  /-- All receivers together get what is owed. -/
  total : ∀ token, sentIn sending.sent token =
    outputsIn (owed marketMeta swapped report) token
  /-- The recorded balances still cover the pools. -/
  covered : ∀ place, place = marketMeta.marketTokenMint ∨
      place = outputMarket order marketMeta.marketTokenMint true →
    ∃ paid, sending.accounts.get place = some paid ∧
      paid.validateMarketBalances 0 0 = .ok ()

/-- What an order without a secondary swap path went through when it was executed. -/
structure Executed (market : RevertibleMarket) (order : Order) (outcome : DecreaseOutcome)
    (swapped : Swapped) (report : Model.DecreasePositionReport) (excluded : ℕ × ℕ)
    (finalOutputToken : Pubkey) : Prop where
  secondary : order.swap.secondarySwapPath = []
  isFor : order.IsFor market.marketMeta
  finalOutput : order.tokens.finalOutputToken = some finalOutputToken
  market_eq : outcome.market.marketMeta = market.marketMeta
  gathered : gatherTransfers {} swapped report = .ok outcome.transferOut
  excludes : excludedAmounts outcome.transferOut order market.marketMeta = .ok excluded
  valid : outcome.market.validateMarketBalances excluded.1 excluded.2 = .ok ()
  long_token : ∀ output, swapped.long = some output → output.token = finalOutputToken
  short_token : ∀ output, swapped.short = some output →
    output.token = market.marketMeta.pnlToken order.params.isLong
  otherMarket : outputMarket order market.key true ≠ market.key →
    ∃ output excludedOutput,
      outcome.swapMarkets.get (outputMarket order market.key true) = some output ∧
      output.validateMarketBalances excludedOutput.1 excludedOutput.2 = .ok () ∧
      ∀ side, excludedOf output.marketMeta.isPure excludedOutput side =
        if finalOutputToken = output.marketMeta.pnlToken side then
          amountOf swapped.long else 0

theorem executeDecreasePosition_eq_ok {outcome : DecreaseOutcome}
    (hsecondary : order.swap.secondarySwapPath = [])
    (hfor : order.IsFor market.marketMeta)
    (hexecute : executeDecreasePosition oracle prices market position swapMarkets {}
      order isInsolventCloseAllowed secondaryOrderType = .ok outcome) :
    ∃ decreased swapped excluded finalOutputToken,
      decrease prices market position order isInsolventCloseAllowed
        secondaryOrderType = .ok decreased ∧
      swapOutputs oracle decreased swapMarkets order = .ok swapped ∧
      Executed market order outcome swapped decreased.report excluded
        finalOutputToken := by
  simp only [executeDecreasePosition, bind_eq_ok, pure_eq_ok] at hexecute
  obtain ⟨decreased, hdecrease, swapped, hswap, gathered, hgather, excluded, hexclude, _,
    hvalid, rfl⟩ := hexecute
  have hdecreased := decrease_marketMeta hdecrease
  obtain ⟨finalOutputToken, hfinal, hrevertible⟩ :=
    swapOutputs_eq_ok (hdecreased ▸ hfor) hswap
  obtain ⟨_, hcurrent, houtputs⟩ := revertibleSwap_eq_ok hrevertible
  obtain ⟨hlongToken, hshortToken⟩ := revertibleSwap_token hrevertible
  have hmeta : swapped.direction.currentMarket.marketMeta = market.marketMeta :=
    hcurrent.trans hdecreased
  have hkey : swapped.direction.current = market.key :=
    congrArg MarketMeta.marketTokenMint hmeta
  refine ⟨decreased, swapped, excluded, finalOutputToken, hdecrease, hswap, hsecondary,
    hfor, hfinal, hmeta, hgather, hmeta ▸ hexclude, hvalid, hlongToken,
    hdecreased ▸ hshortToken, fun hother => ?_⟩
  have hprimary : outputMarketToken ⟨false, decreased.market⟩ order.swap.primarySwapPath =
      outputMarket order market.key true := by
    rw [RevertibleMarket.key, ← hdecreased]
    rfl
  have hsame : outputMarketToken ⟨false, decreased.market⟩ order.swap.secondarySwapPath =
      swapped.direction.current := by
    rw [hsecondary]
    exact congrArg MarketMeta.marketTokenMint hcurrent.symm
  rw [hprimary, hsame] at houtputs
  exact validateOutputs_other (fun heq => hother (heq.trans hkey)) houtputs

namespace Executed

variable {outcome : DecreaseOutcome} {excluded amounts : ℕ × ℕ}
  {finalOutputToken : Pubkey} {accounts : DecreaseOrderAccounts} {sent : List Transfer}

/-- What leaves a market by the transfers after the execution. -/
theorem sentFrom_eq
    (hexecuted : Executed market order outcome swapped report excluded finalOutputToken)
    (hamounts : (accounts.processTransferOut order market.key
      outcome.transferOut).poolTokenAmounts = .ok amounts) (place token : Pubkey) :
    sentFrom place ((accounts.processTransferOut order market.key
        outcome.transferOut).transfers amounts) token =
      (if outputMarket order market.key true = place ∧ finalOutputToken = token then
        outcome.transferOut.finalOutputToken else 0) +
      (if market.key = place ∧ market.marketMeta.longTokenMint = token then
        outcome.transferOut.longToken +
          TransferOut.onSide order.params.isLong outcome.transferOut.secondaryOutputToken +
          outcome.transferOut.longTokenForClaimableAccountOfUser +
          outcome.transferOut.longTokenForClaimableAccountOfHolding else 0) +
      if market.key = place ∧ market.marketMeta.shortTokenMint = token then
        outcome.transferOut.shortToken +
          TransferOut.onSide (!order.params.isLong)
            outcome.transferOut.secondaryOutputToken +
          outcome.transferOut.shortTokenForClaimableAccountOfUser +
          outcome.transferOut.shortTokenForClaimableAccountOfHolding else 0 := by
  obtain ⟨hlong, hshort⟩ := poolTokenAmounts_eq_ok hamounts
  rw [sentFrom_transfers hexecuted.isFor hexecuted.finalOutput, hlong, hshort]

/-- The market of the order pays what was excluded. -/
theorem reserved
    (hexecuted : Executed market order outcome swapped report excluded finalOutputToken)
    (hamounts : (accounts.processTransferOut order market.key
      outcome.transferOut).poolTokenAmounts = .ok amounts) (side : Bool) :
    sentFrom market.key ((accounts.processTransferOut order market.key
        outcome.transferOut).transfers amounts) (market.marketMeta.pnlToken side) =
      excludedOf market.marketMeta.isPure excluded side := by
  rw [hexecuted.sentFrom_eq hamounts, excludedAmounts_eq_ok hexecuted.finalOutput
    hexecuted.secondary hexecuted.excludes side, ite_pnlToken]
  simp only [RevertibleMarket.key, true_and]
  generalize market.marketMeta.pnlToken side = token
  by_cases hlongToken : market.marketMeta.longTokenMint = token <;>
    by_cases hshortToken : market.marketMeta.shortTokenMint = token <;>
    by_cases hthere : outputMarket order market.marketMeta.marketTokenMint true =
      market.marketMeta.marketTokenMint ∧ finalOutputToken = token <;>
    simp only [hlongToken, hshortToken, hthere, and_self, if_true, if_false] <;>
    omega

/-- Another market pays the final output only. -/
theorem sentFrom_other
    (hexecuted : Executed market order outcome swapped report excluded finalOutputToken)
    (hamounts : (accounts.processTransferOut order market.key
      outcome.transferOut).poolTokenAmounts = .ok amounts)
    (hother : outputMarket order market.key true ≠ market.key) (token : Pubkey) :
    sentFrom (outputMarket order market.key true)
        ((accounts.processTransferOut order market.key
          outcome.transferOut).transfers amounts) token =
      if finalOutputToken = token then amountOf swapped.long else 0 := by
  rw [hexecuted.sentFrom_eq hamounts, (gatherTransfers_eq_ok hexecuted.gathered).2]
  simp only [Ne.symm hother, false_and, if_false, true_and, add_zero]

/-- All receivers together get what is owed. -/
theorem total
    (hexecuted : Executed market order outcome swapped report excluded finalOutputToken)
    (hamounts : (accounts.processTransferOut order market.key
      outcome.transferOut).poolTokenAmounts = .ok amounts) (token : Pubkey) :
    sentIn ((accounts.processTransferOut order market.key
        outcome.transferOut).transfers amounts) token =
      outputsIn (owed market.marketMeta swapped report) token := by
  obtain ⟨hlong, hshort⟩ := poolTokenAmounts_eq_ok hamounts
  obtain ⟨hnoHolding, hgathered⟩ := gatherTransfers_eq_ok hexecuted.gathered
  rw [sentIn_transfers hexecuted.isFor hexecuted.finalOutput, hlong, hshort, owed,
    outputsIn_append, outputsIn_append, outputsIn_toList hexecuted.long_token,
    outputsIn_toList hexecuted.short_token, hgathered]
  simp only [outputsIn, List.map_cons, List.map_nil, List.sum_cons, List.sum_nil,
    hnoHolding, ite_self, ite_pnlToken]
  split_ifs <;> omega

/-- The recorded balances cover the pools when the transfers were made. -/
theorem covered {committed : MarketAccounts}
    (hexecuted : Executed market order outcome swapped report excluded finalOutputToken)
    (hamounts : (accounts.processTransferOut order market.key
      outcome.transferOut).poolTokenAmounts = .ok amounts)
    (hpaid : PaidOut outcome.committed committed ((accounts.processTransferOut order
      market.key outcome.transferOut).transfers amounts)) {place : Pubkey}
    (hplace : place = market.key ∨ place = outputMarket order market.key true) :
    ∃ paid, committed.get place = some paid ∧
      paid.validateMarketBalances 0 0 = .ok () := by
  have hkey : outcome.market.key = market.key :=
    congrArg MarketMeta.marketTokenMint hexecuted.market_eq
  by_cases hother : place = market.key
  · subst hother
    obtain ⟨paid, hget, hpays⟩ := hpaid market.key outcome.market
      ((IndexMap.get_insert _ _ _ _).trans (if_pos hkey.symm))
    refine ⟨paid, hget, hpays.validateMarketBalances ?_ hexecuted.valid⟩
    rw [hexecuted.market_eq]
    exact hexecuted.reserved hamounts
  · obtain rfl := hplace.resolve_left hother
    obtain ⟨output, excludedOutput, houtput, hvalid, hamount⟩ :=
      hexecuted.otherMarket hother
    obtain ⟨paid, hget, hpays⟩ := hpaid _ output ((IndexMap.get_insert _ _ _ _).trans
      ((if_neg fun heq => hother (heq.trans hkey)).trans houtput))
    refine ⟨paid, hget, hpays.validateMarketBalances (fun side => ?_) hvalid⟩
    rw [hexecuted.sentFrom_other hamounts hother, hamount side]

end Executed

/-- A decrease order without a secondary swap path that was executed is settled by its
transfers. -/
theorem executeDecreasePosition_settled {outcome : DecreaseOutcome}
    {accounts : DecreaseOrderAccounts} {sending : Sending}
    (hsecondary : order.swap.secondarySwapPath = [])
    (hfor : order.IsFor market.marketMeta)
    (hexecute : executeDecreasePosition oracle prices market position swapMarkets {}
      order isInsolventCloseAllowed secondaryOrderType = .ok outcome)
    (hprocess : (accounts.processTransferOut order market.key
      outcome.transferOut).execute outcome.committed = .ok sending) :
    ∃ decreased swapped excluded,
      decrease prices market position order isInsolventCloseAllowed
        secondaryOrderType = .ok decreased ∧
      swapOutputs oracle decreased swapMarkets order = .ok swapped ∧
      excludedAmounts outcome.transferOut order market.marketMeta = .ok excluded ∧
      outcome.market.validateMarketBalances excluded.1 excluded.2 = .ok () ∧
      Settled order market.marketMeta swapped decreased.report excluded sending := by
  obtain ⟨decreased, swapped, excluded, finalOutputToken, hdecrease, hswap, hexecuted⟩ :=
    executeDecreasePosition_eq_ok hsecondary hfor hexecute
  obtain ⟨amounts, hamounts, hsent, hpaid⟩ :=
    ProcessTransferOutOperation.execute_eq_ok hprocess
  rw [hsent] at hpaid
  refine ⟨decreased, swapped, excluded, hdecrease, hswap, hexecuted.excludes,
    hexecuted.valid, ?_⟩
  constructor
  case reserved =>
    rw [hsent]
    exact hexecuted.reserved hamounts
  case finalOutput =>
    rw [hsent]
    constructor
    · rw [sentTo_transfers hexecuted.isFor hexecuted.finalOutput,
        (gatherTransfers_eq_ok hexecuted.gathered).2]
    · intro transfer hmem hreceiver
      obtain ⟨hplace, htoken⟩ :=
        mem_transfers_finalOutput hexecuted.isFor hexecuted.finalOutput hmem hreceiver
      exact ⟨hplace, htoken ▸ hexecuted.finalOutput⟩
  case otherMarket =>
    intro hother token
    rw [hsent, outputsIn_toList hexecuted.long_token]
    exact hexecuted.sentFrom_other hamounts hother token
  case total =>
    rw [hsent]
    exact hexecuted.total hamounts
  case covered =>
    intro place hplace
    exact hexecuted.covered hamounts hpaid hplace

end Settle

/-! ## Closing half of a long -/

section Sample

/-- Prices of 10 for the pool tokens. -/
def samplePrices (indexPrice : ℕ) : Model.Prices :=
  ⟨⟨indexPrice, indexPrice⟩, ⟨10, 10⟩, ⟨10, 10⟩⟩

/-- The market of the order, whose long token is 2 and short token is 3. -/
def sampleOrderMarket : RevertibleMarket := sampleMarket ⟨100, 9, 2, 3⟩ 1000 1100

/-- A long of 480 usd with 100 short tokens of collateral. -/
def sampleOpened : Model.Result
    (Model.Market sampleOrderMarket.marketMeta.isPure × Model.Position ×
      Model.IncreasePositionReport) :=
  @Model.IncreasePosition.execute Model.storeNumbers _ sampleOrderMarket.state
    (.empty true false) ⟨100, 480, none, samplePrices 10⟩

/-- Half of the long is closed with a profit, and 40 short tokens are swapped to the
token 2. -/
def sampleOrder : Order where
  params := ⟨.marketDecrease, true, .noSwap, 40, 240, 0, 0⟩
  swap := ⟨1, 0, 0, 100, Vector.replicate _ 200, Vector.replicate _ 0⟩
  tokens := ⟨some 2, some 2, some 3⟩

def sampleSwapMarkets : SwapMarkets :=
  IndexMap.empty.insertVacant 200 (sampleMarket ⟨200, 9, 2, 3⟩ 1000 1000) sampleKey_vacant

def sampleExecution
    (opened : Model.Market sampleOrderMarket.marketMeta.isPure × Model.Position ×
      Model.IncreasePositionReport) : Store.Result DecreaseOutcome :=
  @executeDecreasePosition Model.storeNumbers sampleOracle (samplePrices 12)
    { sampleOrderMarket with state := opened.1 } opened.2.1 sampleSwapMarkets {}
    sampleOrder false none

def sampleAccounts : DecreaseOrderAccounts := ⟨0, 11, 12, 13, 21, 22, 23, 31, 32, 33⟩

def sampleSending (outcome : DecreaseOutcome) : Store.Result Sending :=
  (sampleAccounts.processTransferOut sampleOrder sampleOrderMarket.key
    outcome.transferOut).execute outcome.committed

theorem executeDecreasePosition_settled_sample :
    ∃ opened outcome sending decreased swapped excluded,
      sampleOpened = .ok opened ∧ sampleExecution opened = .ok outcome ∧
      sampleSending outcome = .ok sending ∧
      @decrease Model.storeNumbers (samplePrices 12)
        { sampleOrderMarket with state := opened.1 } opened.2.1 sampleOrder false none =
          .ok decreased ∧
      @swapOutputs Model.storeNumbers sampleOracle decreased sampleSwapMarkets
        sampleOrder = .ok swapped ∧
      @Settled Model.storeNumbers sampleOrder sampleOrderMarket.marketMeta swapped
        decreased.report excluded sending := by
  obtain ⟨opened, hopened, hoks⟩ : ∃ opened, sampleOpened = .ok opened ∧
      (sampleExecution opened).toOption.any
        (fun outcome => decide ((sampleSending outcome).isOk = true)) = true :=
    exists_ok_iff_any.mpr (by decide +kernel)
  obtain ⟨outcome, houtcome, hsends⟩ := exists_ok_iff_any.mpr hoks
  obtain ⟨sending, hsending⟩ := exists_of_isOk hsends
  obtain ⟨decreased, swapped, excluded, hdecrease, hswap, _, _, hsettled⟩ :=
    @executeDecreasePosition_settled Model.storeNumbers sampleOracle (samplePrices 12)
      { sampleOrderMarket with state := opened.1 } opened.2.1 sampleSwapMarkets
      sampleOrder false none outcome sampleAccounts sending rfl ⟨rfl, rfl⟩ houtcome
      hsending
  exact ⟨opened, outcome, sending, decreased, swapped, excluded, hopened, houtcome,
    hsending, hdecrease, hswap, hsettled⟩

end Sample

end Gmsol.Ops
