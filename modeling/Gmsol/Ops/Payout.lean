import Gmsol.Ops.Decrease
import Gmsol.Ops.Transfers
import Gmsol.SwapPath.Acceptance

/-!
# What a decrease order pays out

The balance check of a decrease order and the transfers after it read the same
record, but they tell its amounts apart by different tests.  They agree: what is
sent out of the market of the order is what the check has excluded.
-/

namespace Gmsol.Ops

open Fallible Container Store SwapPath
open Model.Market (excludedOf)

/-- The token of one side, by the two tokens of the market. -/
theorem ite_pnlToken (marketMeta : MarketMeta) (isLong : Bool) (amount : ℕ)
    (token : Pubkey) :
    (if marketMeta.pnlToken isLong = token then amount else 0) =
      (if marketMeta.longTokenMint = token then TransferOut.onSide isLong amount else 0) +
        if marketMeta.shortTokenMint = token then TransferOut.onSide (!isLong) amount
        else 0 := by
  cases isLong <;> simp [MarketMeta.pnlToken, TransferOut.onSide]

/-! ## Excluded amounts -/

theorem excludedOf_add (isPure : Bool) (left right : ℕ × ℕ) (side : Bool) :
    excludedOf isPure (left + right) side =
      excludedOf isPure left side + excludedOf isPure right side := by
  unfold excludedOf
  split_ifs
  · rw [Prod.fst_add, Prod.snd_add]
    omega
  · rfl
  · rfl

section Excluded

variable {marketMeta : MarketMeta} {transferOut : TransferOut} {order : Order}
  {excluded : ℕ × ℕ}

/-- Whether two sides have the same token. -/
theorem pnlToken_eq_iff (marketMeta : MarketMeta) (left right : Bool) :
    marketMeta.pnlToken left = marketMeta.pnlToken right ↔
      (marketMeta.isPure || left == right) = true := by
  rw [Bool.or_eq_true, MarketMeta.isPure_iff, beq_iff_eq]
  cases left <;> cases right <;> simp [MarketMeta.pnlToken, eq_comm]

/-- An amount of one side is excluded where the token is that of the side. -/
theorem excludedOf_pair (marketMeta : MarketMeta) (long short : ℕ) (side : Bool) :
    excludedOf marketMeta.isPure (long, short) side =
      (if marketMeta.longTokenMint = marketMeta.pnlToken side then long else 0) +
        if marketMeta.shortTokenMint = marketMeta.pnlToken side then short else 0 := by
  have hlong := pnlToken_eq_iff marketMeta true side
  have hshort := pnlToken_eq_iff marketMeta false side
  simp only [show marketMeta.longTokenMint = marketMeta.pnlToken true from rfl,
    show marketMeta.shortTokenMint = marketMeta.pnlToken false from rfl, hlong, hshort]
  cases hpure : marketMeta.isPure <;> cases side <;> simp [excludedOf]

theorem addToAmount_eq_ok {isLongToken : Bool} {amount : ℕ} {after : ℕ × ℕ}
    (hadd : addToAmount isLongToken amount excluded = .ok after) :
    ∃ added, after = excluded + added ∧ ∀ side,
      excludedOf marketMeta.isPure added side =
        if marketMeta.pnlToken isLongToken = marketMeta.pnlToken side then amount
        else 0 := by
  cases isLongToken with
  | true =>
      simp only [addToAmount, if_true, bind_eq_ok, pure_eq_ok] at hadd
      obtain ⟨sum, hsum, rfl⟩ := hadd
      refine ⟨(amount, 0), ?_, fun side => ?_⟩
      · rw [TransferOut.addAmount_eq_ok hsum]
        rfl
      · rw [excludedOf_pair, ite_self, add_zero]
        rfl
  | false =>
      simp only [addToAmount, Bool.false_eq_true, if_false, bind_eq_ok,
        pure_eq_ok] at hadd
      obtain ⟨sum, hsum, rfl⟩ := hadd
      refine ⟨(0, amount), ?_, fun side => ?_⟩
      · rw [TransferOut.addAmount_eq_ok hsum]
        rfl
      · rw [excludedOf_pair, ite_self, zero_add]
        rfl

/-- The final output is excluded in its token when it is in the market. -/
theorem excludeFinalOutput_eq_ok {after : ℕ × ℕ} {finalOutputToken : Pubkey}
    (htoken : order.tokens.finalOutputToken = some finalOutputToken)
    (hexclude : excludeFinalOutput transferOut order marketMeta excluded = .ok after) :
    ∃ added, after = excluded + added ∧ ∀ side,
      excludedOf marketMeta.isPure added side =
        if outputMarket order marketMeta.marketTokenMint true =
            marketMeta.marketTokenMint ∧ finalOutputToken = marketMeta.pnlToken side then
          transferOut.finalOutputToken
        else 0 := by
  unfold excludeFinalOutput at hexclude
  split_ifs at hexclude with hin
  · simp only [htoken, bind_eq_ok, okOr_eq_ok, Option.some.injEq] at hexclude
    obtain ⟨_, rfl, isLongToken, hside, hadd⟩ := hexclude
    obtain ⟨added, hafter, hadded⟩ := addToAmount_eq_ok hadd
    refine ⟨added, hafter, fun side => ?_⟩
    rw [hadded side, (MarketMeta.toTokenSide_eq_ok hside).1]
    simp only [hin.2, true_and]
  · cases hexclude
    refine ⟨0, (add_zero _).symm, fun side => ?_⟩
    have hnone : excludedOf marketMeta.isPure 0 side = 0 := by
      unfold excludedOf
      split_ifs <;> rfl
    rw [hnone]
    split_ifs with hthere
    · by_contra hamount
      exact hin ⟨Ne.symm hamount, hthere.1⟩
    · rfl

/-- Without a secondary path the secondary output is in the market, in the pnl token. -/
theorem excludeSecondaryOutput_eq_ok {after : ℕ × ℕ}
    (hsecondary : order.swap.secondarySwapPath = [])
    (hexclude :
      excludeSecondaryOutput transferOut order marketMeta excluded = .ok after) :
    ∃ added, after = excluded + added ∧ ∀ side,
      excludedOf marketMeta.isPure added side =
        if marketMeta.pnlToken order.params.isLong = marketMeta.pnlToken side then
          transferOut.secondaryOutputToken
        else 0 := by
  have hmarket : outputMarket order marketMeta.marketTokenMint false =
      marketMeta.marketTokenMint := by
    simp only [outputMarket, SwapActionParams.lastMarketToken, Bool.false_eq_true,
      if_false, hsecondary, List.getLast?_nil, Option.getD_none]
  unfold excludeSecondaryOutput at hexclude
  split_ifs at hexclude with hin
  · exact addToAmount_eq_ok hexclude
  · cases hexclude
    have hzero : transferOut.secondaryOutputToken = 0 := by
      by_contra hamount
      exact hin ⟨hamount, hmarket⟩
    refine ⟨0, (add_zero _).symm, fun side => ?_⟩
    rw [hzero, ite_self]
    unfold excludedOf
    split_ifs <;> rfl

/-- What the balance check excludes, by the token of a side. -/
theorem excludedAmounts_eq_ok {finalOutputToken : Pubkey}
    (htoken : order.tokens.finalOutputToken = some finalOutputToken)
    (hsecondary : order.swap.secondarySwapPath = [])
    (hexclude : excludedAmounts transferOut order marketMeta = .ok excluded)
    (side : Bool) :
    excludedOf marketMeta.isPure excluded side =
      (if marketMeta.longTokenMint = marketMeta.pnlToken side then
        transferOut.longToken + transferOut.longTokenForClaimableAccountOfUser +
          transferOut.longTokenForClaimableAccountOfHolding else 0) +
      (if marketMeta.shortTokenMint = marketMeta.pnlToken side then
        transferOut.shortToken + transferOut.shortTokenForClaimableAccountOfUser +
          transferOut.shortTokenForClaimableAccountOfHolding else 0) +
      (if outputMarket order marketMeta.marketTokenMint true =
          marketMeta.marketTokenMint ∧ finalOutputToken = marketMeta.pnlToken side then
        transferOut.finalOutputToken else 0) +
      if marketMeta.pnlToken order.params.isLong = marketMeta.pnlToken side then
        transferOut.secondaryOutputToken else 0 := by
  simp only [excludedAmounts, bind_eq_ok] at hexclude
  obtain ⟨long, hlong, short, hshort, withFinal, hfinal, hafter⟩ := hexclude
  obtain ⟨final, rfl, hfinalSide⟩ := excludeFinalOutput_eq_ok htoken hfinal
  obtain ⟨secondary, rfl, hsecondarySide⟩ :=
    excludeSecondaryOutput_eq_ok hsecondary hafter
  rw [excludedOf_add, excludedOf_add, excludedOf_pair, hfinalSide, hsecondarySide,
    TransferOut.totalLongTokenAmount_eq_ok hlong,
    TransferOut.totalShortTokenAmount_eq_ok hshort]

end Excluded

/-! ## Transfers of the order -/

/-- The accounts of the instruction: the vaults, and the accounts of the receivers. -/
structure DecreaseOrderAccounts where
  store : Pubkey
  finalOutputTokenVault : Pubkey
  longTokenVault : Pubkey
  shortTokenVault : Pubkey
  finalOutputTokenEscrow : Pubkey
  longTokenEscrow : Pubkey
  shortTokenEscrow : Pubkey
  claimableLongTokenAccountForUser : Pubkey
  claimableShortTokenAccountForUser : Pubkey
  claimablePnlTokenAccountForHolding : Pubkey

/-- The transfers after a decrease order.  The escrow accounts are those of the order,
which determines their tokens. -/
def DecreaseOrderAccounts.processTransferOut (accounts : DecreaseOrderAccounts)
    (order : Order) (market : Pubkey) (transferOut : TransferOut) :
    ProcessTransferOutOperation where
  store := accounts.store
  market := market
  isPnlTokenLongToken := order.params.isLong
  finalOutputMarket := some (outputMarket order market true)
  finalOutputToken := order.tokens.finalOutputToken
  finalOutputTokenVault := some accounts.finalOutputTokenVault
  finalOutputTokenAccount := some accounts.finalOutputTokenEscrow
  longToken := order.tokens.longToken
  longTokenVault := some accounts.longTokenVault
  longTokenAccount := some accounts.longTokenEscrow
  shortToken := order.tokens.shortToken
  shortTokenVault := some accounts.shortTokenVault
  shortTokenAccount := some accounts.shortTokenEscrow
  claimableLongTokenAccountForUser := some accounts.claimableLongTokenAccountForUser
  claimableShortTokenAccountForUser := some accounts.claimableShortTokenAccountForUser
  claimablePnlTokenAccountForHolding := some accounts.claimablePnlTokenAccountForHolding
  transferOut := transferOut

/-- The market accounts after everything was committed. -/
def DecreaseOutcome.committed (outcome : DecreaseOutcome) : MarketAccounts :=
  outcome.swapMarkets.insert outcome.market.key outcome.market

/-- The order was created for a market with these pool tokens. -/
structure Order.IsFor (order : Order) (marketMeta : MarketMeta) : Prop where
  longToken : order.tokens.longToken = some marketMeta.longTokenMint
  shortToken : order.tokens.shortToken = some marketMeta.shortTokenMint

/-- What is sent to a receiver. -/
def sentTo (receiver : Receiver) (sent : List Transfer) : ℕ :=
  (sent.map fun transfer =>
    if transfer.receiver = receiver then transfer.amount else 0).sum

theorem sentTo_append (receiver : Receiver) (first second : List Transfer) :
    sentTo receiver (first ++ second) = sentTo receiver first + sentTo receiver second := by
  simp [sentTo]

/-- A payee whose accounts are all there. -/
structure Payee.Complete (payee : Payee) (market token : Pubkey) : Prop where
  market_eq : payee.market = some market
  token_eq : payee.token = some token
  vault_isSome : payee.vault.isSome = true
  account_isSome : payee.account.isSome = true

section Complete

variable {payee : Payee} {market token : Pubkey}

theorem Payee.Complete.transfers_eq (hcomplete : payee.Complete market token)
    (amount : ℕ) : ∃ vault account, payee.transfers amount =
      if amount = 0 then [] else
        [⟨payee.receiver, market, token, vault, account, amount⟩] := by
  obtain ⟨vault, hvault⟩ := Option.isSome_iff_exists.mp hcomplete.vault_isSome
  obtain ⟨account, haccount⟩ := Option.isSome_iff_exists.mp hcomplete.account_isSome
  refine ⟨vault, account, ?_⟩
  rw [Payee.transfers, hcomplete.market_eq, hcomplete.token_eq, hvault, haccount]

theorem Payee.Complete.sentFrom (hcomplete : payee.Complete market token)
    (amount : ℕ) (place other : Pubkey) :
    sentFrom place (payee.transfers amount) other =
      if market = place ∧ token = other then amount else 0 := by
  obtain ⟨vault, account, htransfers⟩ := hcomplete.transfers_eq amount
  rw [htransfers]
  by_cases hzero : amount = 0 <;> simp [Ops.sentFrom, hzero]

theorem Payee.Complete.sentIn (hcomplete : payee.Complete market token)
    (amount : ℕ) (other : Pubkey) :
    sentIn (payee.transfers amount) other = if token = other then amount else 0 := by
  obtain ⟨vault, account, htransfers⟩ := hcomplete.transfers_eq amount
  rw [htransfers]
  by_cases hzero : amount = 0 <;> simp [Ops.sentIn, hzero]

theorem Payee.Complete.sentTo (hcomplete : payee.Complete market token)
    (amount : ℕ) (receiver : Receiver) :
    sentTo receiver (payee.transfers amount) =
      if payee.receiver = receiver then amount else 0 := by
  obtain ⟨vault, account, htransfers⟩ := hcomplete.transfers_eq amount
  rw [htransfers]
  by_cases hzero : amount = 0 <;> simp [Ops.sentTo, hzero]

end Complete

section Sums

variable {accounts : DecreaseOrderAccounts} {order : Order} {marketMeta : MarketMeta}
  {market finalOutputToken : Pubkey} {transferOut : TransferOut} {amounts : ℕ × ℕ}

theorem finalOutput_complete
    (htoken : order.tokens.finalOutputToken = some finalOutputToken) :
    (accounts.processTransferOut order market transferOut).finalOutput.Complete
      (outputMarket order market true) finalOutputToken :=
  ⟨rfl, htoken, rfl, rfl⟩

theorem inLongToken_complete (hfor : order.IsFor marketMeta) (receiver : Receiver)
    (account : Pubkey) :
    ((accounts.processTransferOut order market transferOut).inLongToken receiver
      (some account)).Complete market marketMeta.longTokenMint :=
  ⟨rfl, hfor.longToken, rfl, rfl⟩

theorem inShortToken_complete (hfor : order.IsFor marketMeta) (receiver : Receiver)
    (account : Pubkey) :
    ((accounts.processTransferOut order market transferOut).inShortToken receiver
      (some account)).Complete market marketMeta.shortTokenMint :=
  ⟨rfl, hfor.shortToken, rfl, rfl⟩

/-- The amounts of the pool tokens contain the secondary output. -/
theorem poolTokenAmounts_eq_ok
    (hamounts : (accounts.processTransferOut order market transferOut).poolTokenAmounts =
      .ok amounts) :
    amounts.1 = transferOut.longToken +
        TransferOut.onSide order.params.isLong transferOut.secondaryOutputToken ∧
      amounts.2 = transferOut.shortToken +
        TransferOut.onSide (!order.params.isLong) transferOut.secondaryOutputToken := by
  unfold ProcessTransferOutOperation.poolTokenAmounts at hamounts
  simp only [DecreaseOrderAccounts.processTransferOut] at hamounts
  cases hisLong : order.params.isLong with
  | true =>
      simp only [hisLong, if_true, bind_eq_ok, pure_eq_ok] at hamounts
      obtain ⟨long, hlong, rfl⟩ := hamounts
      exact ⟨(TransferOut.addAmount_eq_ok hlong).trans (Nat.add_comm _ _), rfl⟩
  | false =>
      simp only [hisLong, Bool.false_eq_true, if_false, bind_eq_ok, pure_eq_ok]
        at hamounts
      obtain ⟨short, hshort, rfl⟩ := hamounts
      exact ⟨rfl, (TransferOut.addAmount_eq_ok hshort).trans (Nat.add_comm _ _)⟩

/-- The transfers of the order, with the accounts they go to. -/
theorem transfers_eq (amounts : ℕ × ℕ) :
    (accounts.processTransferOut order market transferOut).transfers amounts =
      (accounts.processTransferOut order market transferOut).finalOutput.transfers
        transferOut.finalOutputToken ++
      ((accounts.processTransferOut order market transferOut).inLongToken .long
        (some accounts.longTokenEscrow)).transfers amounts.1 ++
      ((accounts.processTransferOut order market transferOut).inShortToken .short
        (some accounts.shortTokenEscrow)).transfers amounts.2 ++
      ((accounts.processTransferOut order market transferOut).inLongToken
        .claimableLongForUser (some accounts.claimableLongTokenAccountForUser)).transfers
          transferOut.longTokenForClaimableAccountOfUser ++
      ((accounts.processTransferOut order market transferOut).inShortToken
        .claimableShortForUser
        (some accounts.claimableShortTokenAccountForUser)).transfers
          transferOut.shortTokenForClaimableAccountOfUser ++
      ((accounts.processTransferOut order market transferOut).inLongToken
        .claimableForHolding
        (some accounts.claimablePnlTokenAccountForHolding)).transfers
          transferOut.longTokenForClaimableAccountOfHolding ++
      ((accounts.processTransferOut order market transferOut).inShortToken
        .claimableForHolding
        (some accounts.claimablePnlTokenAccountForHolding)).transfers
          transferOut.shortTokenForClaimableAccountOfHolding := rfl

variable (hfor : order.IsFor marketMeta)
  (htoken : order.tokens.finalOutputToken = some finalOutputToken)

include hfor htoken

/-- What leaves a market, by the tokens of the record. -/
theorem sentFrom_transfers (amounts : ℕ × ℕ) (place other : Pubkey) :
    sentFrom place ((accounts.processTransferOut order market transferOut).transfers
        amounts) other =
      (if outputMarket order market true = place ∧ finalOutputToken = other then
        transferOut.finalOutputToken else 0) +
      (if market = place ∧ marketMeta.longTokenMint = other then
        amounts.1 + transferOut.longTokenForClaimableAccountOfUser +
          transferOut.longTokenForClaimableAccountOfHolding else 0) +
      if market = place ∧ marketMeta.shortTokenMint = other then
        amounts.2 + transferOut.shortTokenForClaimableAccountOfUser +
          transferOut.shortTokenForClaimableAccountOfHolding else 0 := by
  simp only [transfers_eq, sentFrom_append, (finalOutput_complete htoken).sentFrom,
    (inLongToken_complete hfor _ _).sentFrom, (inShortToken_complete hfor _ _).sentFrom]
  split_ifs <;> omega

theorem sentIn_transfers (amounts : ℕ × ℕ) (other : Pubkey) :
    sentIn ((accounts.processTransferOut order market transferOut).transfers amounts)
        other =
      (if finalOutputToken = other then transferOut.finalOutputToken else 0) +
      (if marketMeta.longTokenMint = other then
        amounts.1 + transferOut.longTokenForClaimableAccountOfUser +
          transferOut.longTokenForClaimableAccountOfHolding else 0) +
      if marketMeta.shortTokenMint = other then
        amounts.2 + transferOut.shortTokenForClaimableAccountOfUser +
          transferOut.shortTokenForClaimableAccountOfHolding else 0 := by
  simp only [transfers_eq, sentIn_append, (finalOutput_complete htoken).sentIn,
    (inLongToken_complete hfor _ _).sentIn, (inShortToken_complete hfor _ _).sentIn]
  split_ifs <;> omega

/-- Only the final output goes to its receiver. -/
theorem sentTo_transfers (amounts : ℕ × ℕ) :
    sentTo .finalOutput
        ((accounts.processTransferOut order market transferOut).transfers amounts) =
      transferOut.finalOutputToken := by
  simp only [transfers_eq, sentTo_append, (finalOutput_complete htoken).sentTo,
    (inLongToken_complete hfor _ _).sentTo, (inShortToken_complete hfor _ _).sentTo]
  simp [ProcessTransferOutOperation.finalOutput,
    ProcessTransferOutOperation.inLongToken, ProcessTransferOutOperation.inShortToken]

theorem mem_transfers_finalOutput {amounts : ℕ × ℕ} {transfer : Transfer}
    (hmem : transfer ∈
      (accounts.processTransferOut order market transferOut).transfers amounts)
    (hreceiver : transfer.receiver = .finalOutput) :
    transfer.market = outputMarket order market true ∧
      transfer.token = finalOutputToken := by
  have hsame : ∀ {payee : Payee} {place token : Pubkey} {amount : ℕ},
      payee.Complete place token → transfer ∈ payee.transfers amount →
      payee.receiver = .finalOutput ∧ transfer.market = place ∧
        transfer.token = token := by
    intro payee place token amount hcomplete hin
    obtain ⟨vault, account, htransfers⟩ := hcomplete.transfers_eq amount
    rw [htransfers] at hin
    split_ifs at hin
    · exact absurd hin List.not_mem_nil
    · rw [List.mem_singleton.mp hin] at hreceiver ⊢
      exact ⟨hreceiver, rfl, rfl⟩
  have hlong : ∀ {receiver account amount}, receiver ≠ .finalOutput →
      transfer ∉ ((accounts.processTransferOut order market transferOut).inLongToken
        receiver (some account)).transfers amount :=
    fun hother hin => hother (hsame (inLongToken_complete hfor _ _) hin).1
  have hshort : ∀ {receiver account amount}, receiver ≠ .finalOutput →
      transfer ∉ ((accounts.processTransferOut order market transferOut).inShortToken
        receiver (some account)).transfers amount :=
    fun hother hin => hother (hsame (inShortToken_complete hfor _ _) hin).1
  simp only [transfers_eq, List.mem_append, hlong, hshort, ne_eq, reduceCtorEq,
    not_false_eq_true, or_false] at hmem
  exact (hsame (finalOutput_complete htoken) hmem).2

end Sums

end Gmsol.Ops
