import Gmsol.Ops.ProcessTransferOut

/-!
# What the transfers take from the markets

A transfer lowers the recorded balance of its token in its market and touches no
pool.  So a market whose balances were checked with the sent amounts excluded
passes the check without an exclusion afterwards.
-/

namespace Gmsol.Model.Market

open Fallible

variable {isPure : Bool}

/-- Only the recorded balances differ, so these have to cover the same pools. -/
structure SamePools (before after : Market isPure) : Prop where
  primary : after.primary = before.primary
  swapImpact : after.swapImpact = before.swapImpact
  claimableFee : after.claimableFee = before.claimableFee
  collateralSum : after.collateralSum = before.collateralSum
  others : ∃ longTokenBalance shortTokenBalance,
    after = { before with longTokenBalance, shortTokenBalance }

theorem SamePools.refl (market : Market isPure) : market.SamePools market :=
  ⟨rfl, rfl, rfl, rfl, _, _, rfl⟩

theorem SamePools.trans {first second third : Market isPure}
    (hleft : first.SamePools second) (hright : second.SamePools third) :
    first.SamePools third where
  primary := hright.primary.trans hleft.primary
  swapImpact := hright.swapImpact.trans hleft.swapImpact
  claimableFee := hright.claimableFee.trans hleft.claimableFee
  collateralSum := hright.collateralSum.trans hleft.collateralSum
  others := by
    obtain ⟨_, _, rfl⟩ := hleft.others
    obtain ⟨long, short, rfl⟩ := hright.others
    exact ⟨long, short, rfl⟩

theorem samePools_setBalance (market : Market isPure) (side : Bool) (balance : ℕ) :
    market.SamePools (market.setBalanceForToken side balance) := by
  unfold setBalanceForToken
  split_ifs
  · exact ⟨rfl, rfl, rfl, rfl, _, _, rfl⟩
  · exact ⟨rfl, rfl, rfl, rfl, _, _, rfl⟩

variable [MarketNum] {market paid : Market isPure}

theorem SamePools.expectedMin_eq (hpools : market.SamePools paid) (side : Bool) :
    paid.expectedMinTokenBalanceExcludingCollateralAmountForOneTokenSide side =
      market.expectedMinTokenBalanceExcludingCollateralAmountForOneTokenSide side := by
  simp only [expectedMinTokenBalanceExcludingCollateralAmountForOneTokenSide,
    hpools.primary, hpools.swapImpact, hpools.claimableFee]

theorem SamePools.totalCollateral_eq (hpools : market.SamePools paid) (side : Bool) :
    paid.totalCollateralAmountForOneTokenSide side =
      market.totalCollateralAmountForOneTokenSide side := by
  simp only [totalCollateralAmountForOneTokenSide, hpools.collateralSum]

omit [MarketNum] in
theorem balanceExcluding_paid {side : Bool} {excluded : ℕ}
    (hpaid : paid.balanceForToken side + excluded = market.balanceForToken side) :
    market.balanceExcluding side excluded = paid.balanceExcluding side 0 := by
  rw [balanceExcluding, balanceExcluding, if_pos rfl]
  split_ifs with hzero
  · rw [← hpaid, hzero, add_zero]
  · rw [checkedSub, if_pos (by omega), okOr, ← hpaid, Nat.add_sub_cancel]

/-- Excluding an amount is as good as having paid it. -/
theorem validateForTheGivenToken_paid (hpools : market.SamePools paid) {side : Bool}
    {excluded : ℕ}
    (hpaid : paid.balanceForToken side + excluded = market.balanceForToken side) :
    paid.validateMarketBalanceForTheGivenToken side 0 =
      market.validateMarketBalanceForTheGivenToken side excluded := by
  simp only [validateMarketBalanceForTheGivenToken, balanceExcluding_paid hpaid,
    hpools.expectedMin_eq, hpools.totalCollateral_eq]

/-- What is excluded of the balance of a side; in a pure market both amounts are
excluded of the one balance. -/
def excludedOf (isPure : Bool) (excluded : ℕ × ℕ) (side : Bool) : ℕ :=
  if isPure then excluded.1 + excluded.2 else if side then excluded.1 else excluded.2

theorem validateMarketBalances_paid (hpools : market.SamePools paid)
    {excluded : ℕ × ℕ}
    (hpaid : ∀ side, paid.balanceForToken side + excludedOf isPure excluded side =
      market.balanceForToken side)
    (hvalid : market.validateMarketBalances excluded.1 excluded.2 = .ok ()) :
    paid.validateMarketBalances 0 0 = .ok () := by
  unfold validateMarketBalances at hvalid ⊢
  cases isPure with
  | true =>
      simp only [if_true, bind_eq_ok, ensure_eq_ok] at hvalid ⊢
      obtain ⟨_, _, hvalid⟩ := hvalid
      refine ⟨(), Nat.zero_le _, ?_⟩
      rw [add_zero, validateForTheGivenToken_paid hpools (hpaid true)]
      exact hvalid
  | false =>
      simp only [Bool.false_eq_true, if_false, bind_eq_ok] at hvalid ⊢
      obtain ⟨_, hlong, hshort⟩ := hvalid
      refine ⟨(), ?_, ?_⟩
      · rw [validateForTheGivenToken_paid hpools (hpaid true)]
        exact hlong
      · rw [validateForTheGivenToken_paid hpools (hpaid false)]
        exact hshort

end Gmsol.Model.Market

namespace Gmsol.SwapPath.RevertibleMarket

open Fallible Container Store

variable {market paid : RevertibleMarket}

/-- The balance of the token of a side is the one that is checked for the side. -/
theorem balanceOf_pnlToken (market : RevertibleMarket) (side : Bool) :
    market.balanceOf (market.marketMeta.pnlToken side) =
      market.state.balanceForToken side := by
  obtain ⟨found, hfound, hsame⟩ := market.marketMeta.toTokenSide_pnlToken side
  unfold balanceOf measure
  rw [hfound]
  rcases Bool.or_eq_true _ _ ▸ hsame with hpure | heq
  · simp only [Model.Market.balanceForToken, hpure, Bool.or_true]
  · rw [beq_iff_eq.mp heq]

/-- The market in another state with the same pools. -/
def Paid (market paid : RevertibleMarket) (amount : Pubkey → ℕ) : Prop :=
  ∃ state : Model.Market market.marketMeta.isPure, paid = { market with state } ∧
    market.state.SamePools state ∧
    ∀ token, paid.balanceOf token + amount token = market.balanceOf token

theorem Paid.refl (market : RevertibleMarket) : market.Paid market fun _ => 0 :=
  ⟨market.state, rfl, .refl _, fun _ => rfl⟩

theorem Paid.trans {first second third : RevertibleMarket} {left right : Pubkey → ℕ}
    (hleft : first.Paid second left) (hright : second.Paid third right) :
    first.Paid third fun token => left token + right token := by
  obtain ⟨middle, rfl, hmiddle, hleftPaid⟩ := hleft
  obtain ⟨last, rfl, hlast, hrightPaid⟩ := hright
  refine ⟨last, rfl, hmiddle.trans hlast, fun token => ?_⟩
  rw [← hleftPaid token, ← hrightPaid token]
  dsimp only
  rw [add_assoc, Nat.add_comm (right token)]

theorem recordTransferredOut_paid {token : Pubkey} {amount : ℕ}
    (hrecord : market.recordTransferredOutByToken token amount = .ok paid) :
    market.Paid paid fun other => if other = token then amount else 0 := by
  have hchanges := recordTransferredOut_changes hrecord
  simp only [recordTransferredOutByToken, bind_eq_ok] at hrecord
  obtain ⟨side, _, hupdate⟩ := hrecord
  obtain ⟨state, hstate, rfl⟩ := update_eq_ok hupdate
  simp only [Model.Market.recordTransferredOut, bind_eq_ok, ensure_eq_ok,
    pure_eq_ok] at hstate
  obtain ⟨_, _, rfl⟩ := hstate
  refine ⟨_, rfl, Model.Market.samePools_setBalance _ _ _, fun other => ?_⟩
  have hbalance := hchanges.balance_eq other
  simp only [amountIn] at hbalance
  dsimp only
  split_ifs at hbalance ⊢ with hsame
  · omega
  · omega

/-- A market that has paid what was excluded from the check passes the check. -/
theorem Paid.validateMarketBalances [Model.MarketNum] {amount : Pubkey → ℕ}
    (hpaid : market.Paid paid amount) {excluded : ℕ × ℕ}
    (hamount : ∀ side, amount (market.marketMeta.pnlToken side) =
      Model.Market.excludedOf market.marketMeta.isPure excluded side)
    (hvalid : market.validateMarketBalances excluded.1 excluded.2 = .ok ()) :
    paid.validateMarketBalances 0 0 = .ok () := by
  obtain ⟨state, rfl, hpools, hbalance⟩ := hpaid
  simp only [RevertibleMarket.validateMarketBalances, mapError_eq_ok] at hvalid ⊢
  apply Model.Market.validateMarketBalances_paid hpools _ hvalid
  intro side
  have hside := hbalance (market.marketMeta.pnlToken side)
  rw [hamount, balanceOf_pnlToken market side] at hside
  rw [← hside]
  exact congrArg (· + _) (balanceOf_pnlToken { market with state } side).symm

end Gmsol.SwapPath.RevertibleMarket

namespace Gmsol.Ops

open Fallible Container Store SwapPath

/-! ## Transfers -/

/-- What the transfers send of a token for a market. -/
def sentFrom (market : Pubkey) (sent : List Transfer) (token : Pubkey) : ℕ :=
  (sent.map fun transfer =>
    if transfer.market = market ∧ transfer.token = token then transfer.amount else 0).sum

/-- What the transfers send of a token to all receivers. -/
def sentIn (sent : List Transfer) (token : Pubkey) : ℕ :=
  (sent.map fun transfer => if transfer.token = token then transfer.amount else 0).sum

theorem sentFrom_append (market : Pubkey) (first second : List Transfer)
    (token : Pubkey) :
    sentFrom market (first ++ second) token =
      sentFrom market first token + sentFrom market second token := by
  simp [sentFrom]

theorem sentIn_append (first second : List Transfer) (token : Pubkey) :
    sentIn (first ++ second) token = sentIn first token + sentIn second token := by
  simp [sentIn]

/-- Every market has paid what was sent for it. -/
def PaidOut (before after : MarketAccounts) (sent : List Transfer) : Prop :=
  ∀ key market, before.get key = some market →
    ∃ paid, after.get key = some paid ∧ market.Paid paid (sentFrom key sent)

theorem PaidOut.refl (accounts : MarketAccounts) : PaidOut accounts accounts [] :=
  fun _ market hget => ⟨market, hget, .refl market⟩

theorem PaidOut.trans {first second third : MarketAccounts}
    {sent more : List Transfer} (hleft : PaidOut first second sent)
    (hright : PaidOut second third more) : PaidOut first third (sent ++ more) := by
  intro key market hget
  obtain ⟨middle, hmiddle, hmiddlePaid⟩ := hleft key market hget
  obtain ⟨paid, hpaid, hrestPaid⟩ := hright key middle hmiddle
  refine ⟨paid, hpaid, ?_⟩
  have hboth := hmiddlePaid.trans hrestPaid
  rwa [← funext (sentFrom_append key sent more)] at hboth

theorem marketTransferOut_paidOut {store : Pubkey} {before after : Sending}
    {transfer : Transfer} (hamount : transfer.amount ≠ 0)
    (hsend : marketTransferOut store before transfer = .ok after) :
    after.sent = before.sent ++ [transfer] ∧
      PaidOut before.accounts after.accounts [transfer] := by
  simp only [marketTransferOut, bind_eq_ok, okOr_eq_ok, if_neg hamount,
    pure_eq_ok] at hsend
  obtain ⟨market, hmarket, _, _, _, _, recorded, hrecord, rfl⟩ := hsend
  refine ⟨rfl, ?_⟩
  intro key found hget
  by_cases hkey : key = transfer.market
  · subst hkey
    rw [hmarket] at hget
    obtain rfl := Option.some.inj hget
    refine ⟨recorded, ?_, ?_⟩
    · exact (IndexMap.get_set (IndexMap.mem_keys_of_get hmarket) _ _).trans (if_pos rfl)
    · have hpaid := RevertibleMarket.recordTransferredOut_paid hrecord
      have hsent : sentFrom transfer.market [transfer] =
          fun other => if other = transfer.token then transfer.amount else 0 := by
        funext other
        simp [sentFrom, eq_comm]
      rwa [hsent]
  · refine ⟨found, ?_, ?_⟩
    · exact (IndexMap.get_set_of_ne _ hkey _).trans hget
    · have hnone : sentFrom key [transfer] = fun _ => 0 := by
        funext other
        simp [sentFrom, Ne.symm hkey]
      rw [hnone]
      exact .refl found

namespace Payee

/-- What is sent to a payee. -/
def transfers (payee : Payee) (amount : ℕ) : List Transfer :=
  if amount = 0 then []
  else match payee.market, payee.token, payee.vault, payee.account with
    | some market, some token, some vault, some account =>
      [⟨payee.receiver, market, token, vault, account, amount⟩]
    | _, _, _, _ => []

theorem send_eq_ok {payee : Payee} {store : Pubkey} {amount : ℕ}
    {before after : Sending} (hsend : payee.send store amount before = .ok after) :
    after.sent = before.sent ++ payee.transfers amount ∧
      PaidOut before.accounts after.accounts (payee.transfers amount) := by
  rw [send] at hsend
  rw [transfers]
  split_ifs at hsend ⊢ with hzero
  · cases hsend
    exact ⟨(List.append_nil _).symm, .refl _⟩
  · simp only [bind_eq_ok, okOr_eq_ok] at hsend
    obtain ⟨token, htoken, market, hmarket, vault, hvault, account, haccount, hsend⟩ :=
      hsend
    rw [htoken, hmarket, hvault, haccount]
    exact marketTransferOut_paidOut hzero hsend

end Payee

namespace ProcessTransferOutOperation

variable {self : ProcessTransferOutOperation} {accounts : MarketAccounts}
  {after : Sending}

/-- The transfers to all payees in order. -/
def transfers (self : ProcessTransferOutOperation) (amounts : ℕ × ℕ) : List Transfer :=
  self.finalOutput.transfers self.transferOut.finalOutputToken ++
    (self.inLongToken .long self.longTokenAccount).transfers amounts.1 ++
    (self.inShortToken .short self.shortTokenAccount).transfers amounts.2 ++
    (self.inLongToken .claimableLongForUser
      self.claimableLongTokenAccountForUser).transfers
        self.transferOut.longTokenForClaimableAccountOfUser ++
    (self.inShortToken .claimableShortForUser
      self.claimableShortTokenAccountForUser).transfers
        self.transferOut.shortTokenForClaimableAccountOfUser ++
    (self.inLongToken .claimableForHolding
      self.claimablePnlTokenAccountForHolding).transfers
        self.transferOut.longTokenForClaimableAccountOfHolding ++
    (self.inShortToken .claimableForHolding
      self.claimablePnlTokenAccountForHolding).transfers
        self.transferOut.shortTokenForClaimableAccountOfHolding

theorem execute_eq_ok (hexecute : self.execute accounts = .ok after) :
    ∃ amounts, self.poolTokenAmounts = .ok amounts ∧
      after.sent = self.transfers amounts ∧ PaidOut accounts after.accounts after.sent := by
  simp only [execute, bind_eq_ok] at hexecute
  obtain ⟨afterFinal, hfinal, amounts, hamounts, afterLong, hlong, afterShort, hshort,
    afterLongUser, hlongUser, afterShortUser, hshortUser, afterLongHolding, hlongHolding,
    hshortHolding⟩ := hexecute
  obtain ⟨hsentFinal, hpaidFinal⟩ := Payee.send_eq_ok hfinal
  obtain ⟨hsentLong, hpaidLong⟩ := Payee.send_eq_ok hlong
  obtain ⟨hsentShort, hpaidShort⟩ := Payee.send_eq_ok hshort
  obtain ⟨hsentLongUser, hpaidLongUser⟩ := Payee.send_eq_ok hlongUser
  obtain ⟨hsentShortUser, hpaidShortUser⟩ := Payee.send_eq_ok hshortUser
  obtain ⟨hsentLongHolding, hpaidLongHolding⟩ := Payee.send_eq_ok hlongHolding
  obtain ⟨hsentShortHolding, hpaidShortHolding⟩ := Payee.send_eq_ok hshortHolding
  have hsent : after.sent = self.transfers amounts := by
    rw [hsentShortHolding, hsentLongHolding, hsentShortUser, hsentLongUser, hsentShort,
      hsentLong, hsentFinal, List.nil_append, transfers]
  refine ⟨amounts, hamounts, hsent, ?_⟩
  rw [hsent]
  exact (((((hpaidFinal.trans hpaidLong).trans hpaidShort).trans hpaidLongUser).trans
    hpaidShortUser).trans hpaidLongHolding).trans hpaidShortHolding

end ProcessTransferOutOperation

end Gmsol.Ops
