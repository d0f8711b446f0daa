import Gmsol.Ops.GlvShares

/-!
# Vault operations do not dilute

Deposits and withdrawals never lower the value of a token of the vault, whatever the
markets are and whatever is rounded.  Every recorded balance moves with the token account
that it is about.
-/

namespace Gmsol.Ops

open Fallible Container Store SwapPath Basket Dilution

theorem Glv.updateMarketTokenBalance_eq_ok {glv next : Glv} {marketToken : Pubkey}
    {newBalance : ℕ} (hupdate : glv.updateMarketTokenBalance marketToken newBalance = .ok next) :
    marketToken ∈ glv.markets.keys ∧ next.markets.keys = glv.markets.keys ∧
      next.balance = Function.update glv.balance marketToken newBalance := by
  simp only [updateMarketTokenBalance, marketConfig, bind_eq_ok, okOr_eq_ok,
    pure_eq_ok] at hupdate
  obtain ⟨config, hconfig, rfl⟩ := hupdate
  have hpresent := IndexMap.mem_keys_of_get hconfig
  refine ⟨hpresent, IndexMap.keys_set _ _ _, ?_⟩
  funext token
  rw [balance, IndexMap.get_set hpresent, Function.update_apply]
  split_ifs
  · rfl
  · rfl

section Values

variable [Model.MarketNum] {oracle : SwapPath.Oracle} {state : GlvState} {op : Execute}
  {glvMarkets : List RevertibleMarket}

/-- The current market as a fund. -/
theorem fundOf_current {stored : RevertibleMarket} (hkey : stored.key = op.market.base.key)
    {maximize : Bool} {fund : Fund Pubkey} (hfund : fundOf oracle op maximize stored = .ok fund) :
    ∃ prices, oracle.marketPrices op.marketMeta = .ok prices ∧
      op.market.base.state.poolValue prices .maxAfterDeposit maximize = .ok fund.value ∧
      fund.supply = op.market.base.state.totalSupply ∧ fund.key = op.market.base.key := by
  have hcurrent : op.marketFor stored = op.market.base := if_pos hkey
  unfold fundOf at hfund
  rw [hcurrent] at hfund
  simp only [bind_eq_ok, mapError_eq_ok, pure_eq_ok] at hfund
  obtain ⟨prices, hprices, value, hvalue, rfl⟩ := hfund
  exact ⟨prices, hprices, hvalue, rfl, hkey⟩

/-- Tokens of the vault are minted for what the market tokens are worth at most. -/
theorem glvAmountToMint_le (hordered : OrderedOracle oracle)
    (hshared : op.SharedTokens glvMarkets) (huncapped : Uncapped oracle op glvMarkets)
    (hsupply : 0 < state.supply) {amount next minted : ℕ}
    (hmint : glvAmountToMint oracle state op glvMarkets amount next = .ok minted)
    {funds : List (Fund Pubkey)} (hfunds : glvFunds oracle op glvMarkets false = .ok funds)
    {stored : RevertibleMarket} (hkey : stored.key = op.market.base.key) {fund : Fund Pubkey}
    (hfund : fundOf oracle op false stored = .ok fund) :
    minted * worth funds state.glv.balance ≤ state.supply * fund.share amount := by
  obtain ⟨prices, hprices, hvalue, hfundSupply, hfundKey⟩ := fundOf_current hkey hfund
  simp only [glvAmountToMint, bind_eq_ok, okOr_eq_ok, ensure_eq_ok, pure_eq_ok] at hmint
  obtain ⟨glvValue, hglvValue, started, hstarted, indexed, hindexed, received, hreceived, _, _,
    _, _, _, hminted, _, _, rfl⟩ := hmint
  obtain ⟨high, hhigh, htotal⟩ := uncheckedGetGlvValue_eq_ok hshared hglvValue
  have hindexedPrices := newIndexPrice_eq_ok hstarted rfl rfl hindexed
  obtain rfl : prices = indexed := Except.ok.inj (hprices.symm.trans hindexedPrices)
  obtain ⟨hreceivedValue, hreceivedSupply, hworth⟩ :=
    getGlvValueForMarket_eq_ok hreceived fund.key
  rw [hvalue] at hreceivedValue
  have hsame : (⟨fund.key, received.poolValue, received.supply⟩ : Fund Pubkey) = fund := by
    rw [← Except.ok.inj hreceivedValue, hreceivedSupply, ← hfundSupply]
  rw [hsame] at hworth
  have hle := worth_mono (glvFunds_below hordered huncapped hfunds hhigh) state.glv.balance
  calc (_ : ℤ) * worth funds state.glv.balance
      ≤ _ * worth high state.glv.balance := mul_le_mul_of_nonneg_left hle (Nat.cast_nonneg _)
    _ = ((_ * glvValue : ℕ) : ℤ) := by rw [← htotal, Nat.cast_mul]
    _ ≤ ((state.supply * received.value : ℕ) : ℤ) :=
        Nat.cast_le.mpr (Model.usdToMarketTokenAmount_le hsupply hminted)
    _ = state.supply * fund.share amount := by rw [Nat.cast_mul, hworth]

/-- Market tokens are paid for tokens of the vault that are worth as much at least. -/
theorem marketTokenAmountToWithdraw_le (hordered : OrderedOracle oracle)
    (hshared : op.SharedTokens glvMarkets) (huncapped : Uncapped oracle op glvMarkets)
    {glvTokenAmount amount : ℕ}
    (hamount : marketTokenAmountToWithdraw oracle state op glvMarkets glvTokenAmount =
      .ok amount)
    {funds : List (Fund Pubkey)} (hfunds : glvFunds oracle op glvMarkets false = .ok funds)
    {stored : RevertibleMarket} (hstored : stored ∈ glvMarkets)
    (hkey : stored.key = op.market.base.key) {fund : Fund Pubkey}
    (hfund : fundOf oracle op false stored = .ok fund) :
    ∃ paid : ℕ, paid * state.supply ≤ worth funds state.glv.balance * glvTokenAmount ∧
      (0 < fund.supply → amount * fund.value ≤ paid * fund.supply) := by
  obtain ⟨prices, hprices, hvalue, hfundSupply, hfundKey⟩ := fundOf_current hkey hfund
  simp only [marketTokenAmountToWithdraw, bind_eq_ok, okOr_eq_ok, ensure_eq_ok,
    pure_eq_ok] at hamount
  obtain ⟨glvValue, hglvValue, paid, hpaid, _, htaken, _, _, rfl⟩ := hamount
  obtain ⟨low, hlow, htotal⟩ := uncheckedGetGlvValue_eq_ok hshared hglvValue
  obtain rfl : funds = low := Except.ok.inj (hfunds.symm.trans hlow)
  simp only [getMarketTokenAmountForGlvValue, bind_eq_ok, mapError_eq_ok, okOr_eq_ok,
    ensure_eq_ok] at htaken
  obtain ⟨other, hother, high, hhigh, _, hnonneg, htaken⟩ := htaken
  obtain rfl : prices = other := Except.ok.inj (hprices.symm.trans hother)
  have hcurrent : op.marketFor stored = op.market.base := if_pos hkey
  have huncappedCurrent := huncapped stored hstored prices (by rw [hcurrent]; exact hprices)
  rw [hcurrent] at huncappedCurrent
  have hle := Model.Market.poolValue_mono (marketPrices_ordered hordered hprices)
    huncappedCurrent hvalue hhigh
  refine ⟨paid, ?_, fun hpositive => ?_⟩
  · obtain ⟨_, _, rfl⟩ := Model.checkedMulDiv_eq_some.mp hpaid
    rw [← htotal]
    exact_mod_cast Nat.div_mul_le_self _ _
  · rw [hfundSupply] at hpositive ⊢
    have hshares := Model.usdToMarketTokenAmount_le hpositive htaken
    calc (_ : ℤ) * fund.value ≤ _ * high := mul_le_mul_of_nonneg_left hle (Nat.cast_nonneg _)
      _ = ((_ * high.natAbs : ℕ) : ℤ) := by
          rw [Nat.cast_mul, Int.natAbs_of_nonneg hnonneg]
      _ ≤ ((op.market.base.state.totalSupply * paid : ℕ) : ℤ) := Nat.cast_le.mpr hshares
      _ = paid * op.market.base.state.totalSupply := by rw [Nat.cast_mul, mul_comm]

/-! ## What the operations do -/

/-- The market deposit mints what the whole deposit has beyond the market tokens put in. -/
theorem depositIntoMarket_eq_ok {deposit : GlvDeposit} {firstDepositReceiver : Pubkey}
    {executed : Execute} {amount : ℕ} (hfresh : op.market.toMint = 0)
    (hdeposit : depositIntoMarket oracle deposit firstDepositReceiver op =
      .ok (executed, amount)) :
    Execute.SameMarkets op executed ∧
      amount = deposit.marketTokenAmount + executed.market.toMint := by
  unfold depositIntoMarket at hdeposit
  split_ifs at hdeposit
  · simp only [bind_eq_ok, ensure_eq_ok, pure_eq_ok, Prod.mk.injEq] at hdeposit
    obtain ⟨⟨after, minted⟩, hexecuted, _, _, rfl, rfl⟩ := hdeposit
    obtain ⟨hsame, hmint⟩ := Execute.uncheckedDeposit_mints hexecuted
    exact ⟨hsame, by rw [hmint, hfresh, Nat.zero_add]⟩
  · obtain ⟨rfl, rfl⟩ := Prod.mk.inj (Except.ok.inj hdeposit)
    exact ⟨.refl op, by rw [hfresh, Nat.add_zero]⟩

/-- What a deposit leaves behind. -/
theorem performGlvDeposit_eq_ok {deposit : GlvDeposit} {accounts : GlvAccounts}
    {marketTokenSource : ℕ} {done : GlvDeposited}
    (hdeposit : performGlvDeposit oracle state deposit accounts marketTokenSource =
      .ok done) :
    ∃ op amount next, accounts.op deposit.swap = .ok op ∧
      Execute.SameMarkets op done.executed ∧
      amount = deposit.marketTokenAmount + done.executed.market.toMint ∧
      op.market.base.key ∈ state.glv.markets.keys ∧
      glvAmountToMint oracle state done.executed accounts.glvMarkets amount next =
        .ok done.glvAmount ∧
      done.state.glv.balance = Function.update state.glv.balance op.market.base.key
        (state.glv.balance op.market.base.key + amount) ∧
      done.state.vaults = Function.update state.vaults op.market.base.key
        (state.vaults op.market.base.key + amount) ∧
      done.state.supply = state.supply + done.glvAmount := by
  simp only [performGlvDeposit, bind_eq_ok, ensure_eq_ok, pure_eq_ok] at hdeposit
  obtain ⟨_, _, op, hop, _, _, ⟨executed, amount⟩, hexecuted, config, hconfig, _, _, minted,
    hminted, _, _, glv, hglv, _, _, rfl⟩ := hdeposit
  obtain ⟨hsame, hamount⟩ := depositIntoMarket_eq_ok (op_toMint hop) hexecuted
  obtain ⟨hpresent, _, hbalance⟩ := Glv.updateMarketTokenBalance_eq_ok hglv
  rw [hsame.key] at hpresent
  refine ⟨op, amount, _, hop, hsame, hamount, hpresent, hminted, ?_, ?_, rfl⟩
  · rw [← hsame.key, marketConfig_balance hconfig]
    exact hbalance
  · simp only [GlvState.receive, Function.update_self, Function.update_idem, hsame.key]
    rw [hamount, Nat.add_assoc, Nat.add_comm deposit.marketTokenAmount]

/-- What a withdrawal leaves behind. -/
theorem performGlvWithdrawal_eq_ok {withdrawal : GlvWithdrawal} {accounts : GlvAccounts}
    {done : GlvWithdrawn}
    (hwithdraw : performGlvWithdrawal oracle state withdrawal accounts = .ok done) :
    ∃ op amount, accounts.op withdrawal.swap = .ok op ∧
      op.market.base.key ∈ state.glv.markets.keys ∧
      marketTokenAmountToWithdraw oracle state op accounts.glvMarkets
        withdrawal.glvTokenAmount = .ok amount ∧
      amount ≤ state.vaults op.market.base.key ∧
      amount ≤ state.glv.balance op.market.base.key ∧
      done.state.glv.balance = Function.update state.glv.balance op.market.base.key
        (state.glv.balance op.market.base.key - amount) ∧
      done.state.vaults = Function.update state.vaults op.market.base.key
        (state.vaults op.market.base.key - amount) ∧
      done.state.supply = state.supply - withdrawal.glvTokenAmount := by
  simp only [performGlvWithdrawal, bind_eq_ok, ensure_eq_ok, pure_eq_ok] at hwithdraw
  obtain ⟨_, _, op, hop, amount, hamount, _, henough, executed, _, config, hconfig, _,
    hrecorded, glv, hglv, _, _, rfl⟩ := hwithdraw
  obtain ⟨hpresent, _, hbalance⟩ := Glv.updateMarketTokenBalance_eq_ok hglv
  rw [← marketConfig_balance hconfig] at hrecorded hbalance
  exact ⟨op, amount, hop, hpresent, hamount, henough, hrecorded, hbalance, rfl, rfl⟩

/-! ## Nobody is diluted -/

/-- The value of a token of the vault does not fall from one state to the next. -/
def NotDiluted (funds : List (Fund Pubkey)) (before after : GlvState) : Prop :=
  perShare (worth funds before.glv.balance) before.supply ≤
    perShare (worth funds after.glv.balance) after.supply

/-- A deposit, with the markets as they are after the deposit into one of them. -/
theorem performGlvDeposit_notDiluted (hordered : OrderedOracle oracle) {deposit : GlvDeposit}
    {accounts : GlvAccounts} (hshares : accounts.SharesTokens state.glv)
    (haligned : accounts.Aligned state.glv) (hsupply : 0 < state.supply)
    {marketTokenSource : ℕ} {done : GlvDeposited}
    (hdeposit : performGlvDeposit oracle state deposit accounts marketTokenSource = .ok done)
    (huncapped : Uncapped oracle done.executed accounts.glvMarkets)
    {funds : List (Fund Pubkey)}
    (hfunds : glvFunds oracle done.executed accounts.glvMarkets false = .ok funds) :
    NotDiluted funds state done.state := by
  obtain ⟨op, amount, next, hop, hsame, _, hpresent, hminted, hbalance, _, hnext⟩ :=
    performGlvDeposit_eq_ok hdeposit
  have hshared := (accounts.sharedTokens hshares haligned hop hpresent).same hsame
  obtain ⟨stored, hstored, hkey⟩ := haligned.current hpresent
  rw [← hsame.key] at hkey hbalance
  obtain ⟨fund, hmem, hfund⟩ := mem_glvFunds hfunds hstored
  obtain ⟨_, _, _, _, hfundKey⟩ := fundOf_current hkey hfund
  have hnodup : (funds.map Fund.key).Nodup := by
    rw [glvFunds_keys hfunds, haligned]
    exact state.glv.markets.nodup
  have hworth := glvAmountToMint_le hordered hshared huncapped hsupply hminted hfunds hkey hfund
  rw [NotDiluted, hnext, hbalance, ← hfundKey]
  exact (perShare_le_mint hsupply hworth).trans (perShare_mono (worth_put hnodup hmem _ _))

/-- A withdrawal that leaves tokens of the vault, with the markets as they are before the
withdrawal from one of them. -/
theorem performGlvWithdrawal_notDiluted (hordered : OrderedOracle oracle)
    {withdrawal : GlvWithdrawal} {accounts : GlvAccounts}
    (hshares : accounts.SharesTokens state.glv) (haligned : accounts.Aligned state.glv)
    {done : GlvWithdrawn}
    (hwithdraw : performGlvWithdrawal oracle state withdrawal accounts = .ok done)
    (hsupply : 0 < done.state.supply) (hop : accounts.op withdrawal.swap = .ok op)
    (huncapped : Uncapped oracle op accounts.glvMarkets) {funds : List (Fund Pubkey)}
    (hfunds : glvFunds oracle op accounts.glvMarkets false = .ok funds) :
    NotDiluted funds state done.state := by
  obtain ⟨started, amount, hstarted, hpresent, hamount, _, henough, hbalance, _, hnext⟩ :=
    performGlvWithdrawal_eq_ok hwithdraw
  obtain rfl : op = started := Except.ok.inj (hop.symm.trans hstarted)
  have hshared := accounts.sharedTokens hshares haligned hop hpresent
  obtain ⟨stored, hstored, hkey⟩ := haligned.current hpresent
  obtain ⟨fund, hmem, hfund⟩ := mem_glvFunds hfunds hstored
  obtain ⟨_, _, _, _, hfundKey⟩ := fundOf_current hkey hfund
  have hnodup : (funds.map Fund.key).Nodup := by
    rw [glvFunds_keys hfunds, haligned]
    exact state.glv.markets.nodup
  obtain ⟨paid, hburned, hpaid⟩ := marketTokenAmountToWithdraw_le hordered hshared huncapped
    hamount hfunds hstored hkey hfund
  rw [hnext] at hsupply
  rw [NotDiluted, hnext, hbalance, ← hfundKey]
  rw [← hfundKey] at henough
  exact (perShare_le_burn (Nat.lt_of_sub_pos hsupply) hburned).trans
    (perShare_mono (worth_take hnodup hmem henough hpaid))

end Values

end Gmsol.Ops
