import Gmsol.Accounting.ValueSpread
import Gmsol.Library.Basket
import Gmsol.Ops.Glv
import Gmsol.Ops.LiquiditySteps

/-!
# What a token of the vault is worth

The vault is a basket of shares of its markets.  A deposit values what it adds at the low
prices and the vault at the high ones, a withdrawal the other way round, so that neither
lowers the value of a token of the vault.
-/

namespace Gmsol.Ops

open Fallible Container Store SwapPath Basket Dilution

/-! ## The markets of an operation -/

/-- The market accounts of the vault's market tokens have the tokens of the vault. -/
def GlvAccounts.SharesTokens (accounts : GlvAccounts) (glv : Glv) : Prop :=
  ∀ market ∈ accounts.market :: (accounts.glvMarkets ++ accounts.remainingAccounts.reduceOption),
    market.key ∈ glv.markets.keys →
      market.marketMeta.longTokenMint = glv.longToken ∧
        market.marketMeta.shortTokenMint = glv.shortToken

/-- The markets are passed in the order in which the vault has them. -/
def GlvAccounts.Aligned (accounts : GlvAccounts) (glv : Glv) : Prop :=
  accounts.glvMarkets.map RevertibleMarket.key = glv.markets.keys

instance (accounts : GlvAccounts) (glv : Glv) : Decidable (accounts.SharesTokens glv) :=
  inferInstanceAs (Decidable (∀ market ∈ _, _))

instance (accounts : GlvAccounts) (glv : Glv) : Decidable (accounts.Aligned glv) :=
  inferInstanceAs (Decidable (_ = _))

namespace Execute

theorem insertedMarkets {store : Pubkey} {currentMarketToken : Option Pubkey}
    {loaders : List RevertibleMarket} {before after : SwapMarkets}
    (hinsert : loaders.foldlM (SwapMarkets.insertMarket store currentMarketToken) before =
      .ok after) {token : Pubkey} {market : RevertibleMarket}
    (hget : after.get token = some market) :
    before.get token = some market ∨ market ∈ loaders ∧ market.key = token := by
  induction loaders generalizing before with
  | nil =>
      obtain rfl : before = after := by simpa [pure, Except.pure] using hinsert
      exact .inl hget
  | cons loader rest ih =>
      rw [List.foldlM_cons, bind_eq_ok] at hinsert
      obtain ⟨middle, hfirst, hrest⟩ := hinsert
      rcases ih hrest with hmiddle | ⟨hmem, hkey⟩
      · simp only [SwapMarkets.insertMarket, bind_eq_ok, ensure_eq_ok] at hfirst
        obtain ⟨_, _, hfirst⟩ := hfirst
        split at hfirst
        · rename_i hvacant
          simp only [bind_eq_ok, pure_eq_ok] at hfirst
          obtain ⟨_, _, rfl⟩ := hfirst
          rw [IndexMap.get_insertVacant] at hmiddle
          split_ifs at hmiddle with hsame
          · obtain rfl := Option.some.inj hmiddle
            exact .inr ⟨List.mem_cons_self, hsame.symm⟩
          · exact .inl hmiddle
        · exact absurd hfirst (by simp)
      · exact .inr ⟨List.mem_cons_of_mem _ hmem, hkey⟩

theorem mem_of_swapLoaders {swap : Option SwapActionParams} {currentMarketToken : Pubkey}
    {remainingAccounts : List AccountInfo} {loaders : List RevertibleMarket}
    (hloaders : swapLoaders swap currentMarketToken remainingAccounts = .ok loaders)
    {market : RevertibleMarket} (hmem : market ∈ loaders) :
    market ∈ remainingAccounts.reduceOption := by
  unfold swapLoaders at hloaders
  split at hloaders
  · obtain rfl := Except.ok.inj hloaders
    exact absurd hmem List.not_mem_nil
  · simp only [unpackMarketsForSwap, bind_eq_ok, ensure_eq_ok] at hloaders
    obtain ⟨_, -, hmapped⟩ := hloaders
    have hall := forall₂_of_mapM_eq_ok hmapped
    clear hmapped
    induction hall with
    | nil => exact absurd hmem List.not_mem_nil
    | @cons info found infos _ hhead _ ih =>
        rw [unpackMarket, okOr_eq_ok] at hhead
        subst hhead
        rw [List.reduceOption_cons_of_some]
        rcases List.mem_cons.mp hmem with rfl | hrest
        · exact List.mem_cons_self
        · exact List.mem_cons_of_mem _ (ih hrest)

/-- The market that an operation sees for a token is one of the accounts. -/
theorem marketFor_new {accounts : GlvAccounts} {swap : SwapActionParams} {op : Execute}
    (hop : accounts.op swap = .ok op) {stored : RevertibleMarket}
    (hstored : stored ∈ accounts.glvMarkets) :
    (op.marketFor stored).key = stored.key ∧ op.marketFor stored ∈
      accounts.market :: (accounts.glvMarkets ++ accounts.remainingAccounts.reduceOption) := by
  simp only [GlvAccounts.op, Execute.new, SwapMarkets.new, bind_eq_ok, pure_eq_ok] at hop
  obtain ⟨loaders, hloaders, markets, hmarkets, rfl⟩ := hop
  unfold marketFor
  split_ifs with hcurrent
  · exact ⟨hcurrent.symm, List.mem_cons_self⟩
  · cases hget : markets.get stored.key with
    | none => exact ⟨rfl, List.mem_cons_of_mem _ (List.mem_append_left _ hstored)⟩
    | some market =>
        rcases insertedMarkets hmarkets hget with hempty | ⟨hmem, hkey⟩
        · exact absurd hempty (by simp [IndexMap.empty, IndexMap.get, IndexMap.find])
        · refine ⟨hkey, List.mem_cons_of_mem _ (List.mem_append_right _ ?_)⟩
          exact mem_of_swapLoaders hloaders hmem

theorem SameMarkets.marketFor {before after : Execute} (hsame : SameMarkets before after)
    (stored : RevertibleMarket) :
    (after.marketFor stored).marketMeta = (before.marketFor stored).marketMeta := by
  have hswap := hsame.swapMarkets stored.key
  unfold Execute.marketFor
  rw [hsame.key]
  split_ifs
  · exact hsame.current
  · cases hafter : after.swapMarkets.get stored.key with
    | none =>
        rw [hafter, eq_comm, Option.map_none, Option.map_eq_none_iff] at hswap
        rw [hswap]
    | some market =>
        rw [hafter, eq_comm, Option.map_some, Option.map_eq_some_iff] at hswap
        obtain ⟨other, hother, hmeta⟩ := hswap
        rw [hother]
        exact hmeta.symm

/-- The markets of the vault, as the operation sees them, have the tokens of the current
market. -/
def SharedTokens (op : Execute) (glvMarkets : List RevertibleMarket) : Prop :=
  ∀ stored ∈ glvMarkets,
    (op.marketFor stored).marketMeta.longTokenMint = op.marketMeta.longTokenMint ∧
      (op.marketFor stored).marketMeta.shortTokenMint = op.marketMeta.shortTokenMint

end Execute

theorem GlvAccounts.sharedTokens {accounts : GlvAccounts} {glv : Glv}
    (hshares : accounts.SharesTokens glv) (haligned : accounts.Aligned glv)
    {swap : SwapActionParams} {op : Execute} (hop : accounts.op swap = .ok op)
    (hpresent : op.market.base.key ∈ glv.markets.keys) :
    op.SharedTokens accounts.glvMarkets := by
  have hcurrent : op.market.base = accounts.market := by
    simp only [GlvAccounts.op, Execute.new, bind_eq_ok, pure_eq_ok] at hop
    obtain ⟨_, _, _, _, rfl⟩ := hop
    rfl
  intro stored hstored
  obtain ⟨hkey, hmem⟩ := Execute.marketFor_new hop hstored
  have hin : (op.marketFor stored).key ∈ glv.markets.keys := by
    rw [hkey, ← haligned]
    exact List.mem_map_of_mem hstored
  obtain ⟨hlong, hshort⟩ := hshares _ hmem hin
  rw [hcurrent] at hpresent
  obtain ⟨hcurrentLong, hcurrentShort⟩ := hshares _ List.mem_cons_self hpresent
  rw [Execute.marketMeta, hcurrent]
  exact ⟨hlong.trans hcurrentLong.symm, hshort.trans hcurrentShort.symm⟩

theorem Execute.SharedTokens.same {before after : Execute}
    {glvMarkets : List RevertibleMarket} (hshared : before.SharedTokens glvMarkets) (hsame : Execute.SameMarkets before after) :
    after.SharedTokens glvMarkets := by
  intro stored hstored
  rw [hsame.marketFor stored, hsame.current]
  exact hshared stored hstored

/-- The current market is one of the markets of the vault. -/
theorem GlvAccounts.Aligned.current {accounts : GlvAccounts} {glv : Glv}
    (haligned : accounts.Aligned glv) {marketToken : Pubkey}
    (hpresent : marketToken ∈ glv.markets.keys) :
    ∃ stored ∈ accounts.glvMarkets, stored.key = marketToken := by
  rw [← haligned] at hpresent
  exact List.mem_map.mp hpresent

theorem op_toMint {accounts : GlvAccounts} {swap : SwapActionParams} {op : Execute}
    (hop : accounts.op swap = .ok op) : op.market.toMint = 0 := by
  simp only [GlvAccounts.op, Execute.new, bind_eq_ok, pure_eq_ok] at hop
  obtain ⟨_, _, _, _, rfl⟩ := hop
  rfl

/-! ## Values -/

/-- No price of the oracle is turned around. -/
def OrderedOracle (oracle : SwapPath.Oracle) : Prop :=
  ∀ token found, oracle.primary token = some found → found.price.min ≤ found.price.max

section Values

variable {oracle : SwapPath.Oracle}

theorem getPrimaryPrice_ordered (hordered : OrderedOracle oracle) {token : Pubkey}
    {allowSynthetic : Bool} {price : Model.Price}
    (hprice : oracle.getPrimaryPrice token allowSynthetic = .ok price) :
    price.min ≤ price.max := by
  simp only [SwapPath.Oracle.getPrimaryPrice, bind_eq_ok, okOr_eq_ok, pure_eq_ok] at hprice
  obtain ⟨found, hfound, _, _, rfl⟩ := hprice
  exact hordered token found hfound

theorem marketPrices_ordered (hordered : OrderedOracle oracle) {marketMeta : MarketMeta}
    {prices : Model.Prices} (hprices : oracle.marketPrices marketMeta = .ok prices) :
    Model.OrderedPrices prices := by
  simp only [SwapPath.Oracle.marketPrices, bind_eq_ok, pure_eq_ok] at hprices
  obtain ⟨index, hindex, long, hlong, short, hshort, rfl⟩ := hprices
  exact ⟨getPrimaryPrice_ordered hordered hindex, getPrimaryPrice_ordered hordered hlong,
    getPrimaryPrice_ordered hordered hshort⟩

/-- With the tokens of the current market, only the index price is another one. -/
theorem newIndexPrice_eq_ok {marketMeta : MarketMeta} {market : RevertibleMarket}
    {prices next : Model.Prices} (hprices : oracle.marketPrices marketMeta = .ok prices)
    (hlong : market.marketMeta.longTokenMint = marketMeta.longTokenMint)
    (hshort : market.marketMeta.shortTokenMint = marketMeta.shortTokenMint)
    (hnext : newIndexPrice oracle prices market = .ok next) :
    oracle.marketPrices market.marketMeta = .ok next := by
  simp only [SwapPath.Oracle.marketPrices, newIndexPrice, bind_eq_ok, pure_eq_ok,
    mapError_eq_ok] at hprices hnext ⊢
  obtain ⟨_, _, long, hlongPrice, short, hshortPrice, rfl⟩ := hprices
  obtain ⟨index, hindex, rfl⟩ := hnext
  rw [hlong, hshort]
  exact ⟨index, hindex, long, hlongPrice, short, hshortPrice, rfl⟩

variable [Model.MarketNum]

/-- A market is valued as a share of its pool, rounded down. -/
theorem getGlvValueForMarket_eq_ok {prices : Model.Prices} {market : RevertibleMarket}
    {balance : ℕ} {maximize : Bool} {found : MarketValue}
    (hfound : getGlvValueForMarket prices market balance maximize = .ok found)
    (key : Pubkey) :
    market.state.poolValue prices .maxAfterDeposit maximize = .ok found.poolValue ∧
      found.supply = market.state.totalSupply ∧
      (found.value : ℤ) = Fund.share ⟨key, found.poolValue, found.supply⟩ balance := by
  simp only [getGlvValueForMarket, bind_eq_ok, mapError_eq_ok] at hfound
  obtain ⟨value, hvalue, hfound⟩ := hfound
  split_ifs at hfound with hzero
  · rw [pure_eq_ok] at hfound
    subst hfound hzero
    exact ⟨hvalue, rfl, by simp [Fund.share]⟩
  · simp only [bind_eq_ok, ensure_eq_ok, okOr_eq_ok, pure_eq_ok,
      Model.marketTokenAmountToUsd] at hfound
    obtain ⟨_, hnonneg, worth, hworth, rfl⟩ := hfound
    obtain ⟨_, _, rfl⟩ := Model.checkedMulDiv_eq_some.mp hworth
    refine ⟨hvalue, rfl, ?_⟩
    push_cast
    rw [abs_of_nonneg hnonneg]
    rfl

variable (oracle) in
/-- A market of the vault as a fund, valued at its own prices. -/
def fundOf (op : Execute) (maximize : Bool) (stored : RevertibleMarket) :
    Store.Result (Fund Pubkey) := do
  let prices ← oracle.marketPrices (op.marketFor stored).marketMeta
  let value ← ((op.marketFor stored).state.poolValue prices .maxAfterDeposit
    maximize).mapError .model
  return ⟨stored.key, value, (op.marketFor stored).state.totalSupply⟩

variable (oracle) in
def glvFunds (op : Execute) (glvMarkets : List RevertibleMarket) (maximize : Bool) :
    Store.Result (List (Fund Pubkey)) :=
  glvMarkets.mapM (fundOf oracle op maximize)

variable {op : Execute} {glvMarkets : List RevertibleMarket} {maximize : Bool}

theorem glvFunds_keys {funds : List (Fund Pubkey)}
    (hfunds : glvFunds oracle op glvMarkets maximize = .ok funds) :
    funds.map Fund.key = glvMarkets.map RevertibleMarket.key := by
  have hall := forall₂_of_mapM_eq_ok hfunds
  clear hfunds
  induction hall with
  | nil => rfl
  | cons hhead _ ih =>
      simp only [fundOf, bind_eq_ok, pure_eq_ok] at hhead
      obtain ⟨_, _, _, _, rfl⟩ := hhead
      rw [List.map_cons, List.map_cons, ih]

theorem mem_glvFunds {funds : List (Fund Pubkey)}
    (hfunds : glvFunds oracle op glvMarkets maximize = .ok funds)
    {stored : RevertibleMarket} (hstored : stored ∈ glvMarkets) :
    ∃ fund ∈ funds, fundOf oracle op maximize stored = .ok fund := by
  have hall := forall₂_of_mapM_eq_ok hfunds
  clear hfunds
  induction hall with
  | nil => exact absurd hstored List.not_mem_nil
  | @cons first fund rest others hhead _ ih =>
      rcases List.mem_cons.mp hstored with rfl | hrest
      · exact ⟨fund, List.mem_cons_self, hhead⟩
      · obtain ⟨other, hother, hfund⟩ := ih hrest
        exact ⟨other, List.mem_cons_of_mem _ hother, hfund⟩

/-- No profit is capped in the markets of the vault. -/
def Uncapped (oracle : SwapPath.Oracle) (op : Execute) (glvMarkets : List RevertibleMarket) :
    Prop :=
  ∀ stored ∈ glvMarkets, ∀ prices,
    oracle.marketPrices (op.marketFor stored).marketMeta = .ok prices →
      (op.marketFor stored).state.PnlUncapped prices

/-- Without positions no profit is capped. -/
theorem uncapped_of_empty (hempty : ∀ stored ∈ glvMarkets,
    (op.marketFor stored).state.openInterest = ⟨.empty, .empty⟩ ∧
      (op.marketFor stored).state.openInterestInTokens = ⟨.empty, .empty⟩) :
    Uncapped oracle op glvMarkets := by
  intro stored hstored prices _
  obtain ⟨hinterest, htokens⟩ := hempty stored hstored
  exact Model.Market.pnlUncapped_of_empty hinterest htokens

theorem glvFunds_below (hordered : OrderedOracle oracle)
    (huncapped : Uncapped oracle op glvMarkets) {low high : List (Fund Pubkey)}
    (hlow : glvFunds oracle op glvMarkets false = .ok low)
    (hhigh : glvFunds oracle op glvMarkets true = .ok high) : Below low high := by
  have hlows := forall₂_of_mapM_eq_ok hlow
  have hhighs := forall₂_of_mapM_eq_ok hhigh
  clear hlow hhigh
  induction hlows generalizing high with
  | nil =>
      cases hhighs
      exact .nil
  | @cons stored fund rest funds hhead _ ih =>
      cases hhighs with
      | cons hother hothers =>
          refine .cons ?_ (ih (fun other hmem => huncapped other
            (List.mem_cons_of_mem _ hmem)) hothers)
          simp only [fundOf, bind_eq_ok, mapError_eq_ok, pure_eq_ok] at hhead hother
          obtain ⟨prices, hprices, value, hvalue, rfl⟩ := hhead
          obtain ⟨otherPrices, hotherPrices, otherValue, hotherValue, rfl⟩ := hother
          rw [hprices] at hotherPrices
          obtain rfl := Except.ok.inj hotherPrices
          exact ⟨rfl, rfl, Model.Market.poolValue_mono (marketPrices_ordered hordered hprices)
            (huncapped stored List.mem_cons_self prices hprices) hvalue hotherValue⟩

omit [Model.MarketNum] in
theorem marketConfig_balance {glv : Glv} {marketToken : Pubkey} {config : GlvMarketConfig}
    (hconfig : glv.marketConfig marketToken = .ok config) :
    glv.balance marketToken = config.balance := by
  rw [Glv.marketConfig, okOr_eq_ok] at hconfig
  rw [Glv.balance, hconfig]
  rfl

theorem addMarketValue_eq_ok {glv : Glv} {prices : Model.Prices} {value total : ℕ}
    {stored : RevertibleMarket} (hprices : oracle.marketPrices op.marketMeta = .ok prices)
    (hlong : (op.marketFor stored).marketMeta.longTokenMint = op.marketMeta.longTokenMint)
    (hshort : (op.marketFor stored).marketMeta.shortTokenMint = op.marketMeta.shortTokenMint)
    (hadd : addMarketValue oracle glv op prices maximize value stored = .ok total) :
    ∃ fund, fundOf oracle op maximize stored = .ok fund ∧
      (total : ℤ) = value + fund.share (glv.balance stored.key) ∧ fund.key = stored.key := by
  simp only [addMarketValue, getGlvValueForMarketWithNewIndexPrice, bind_eq_ok, okOr_eq_ok,
    Model.checkedAdd_eq_some] at hadd
  obtain ⟨config, hconfig, found, ⟨next, hnext, hfound⟩, _, rfl⟩ := hadd
  obtain ⟨hvalue, hsupply, hworth⟩ := getGlvValueForMarket_eq_ok hfound stored.key
  refine ⟨⟨stored.key, found.poolValue, found.supply⟩, ?_, ?_, rfl⟩
  · simp only [fundOf, bind_eq_ok, mapError_eq_ok, pure_eq_ok]
    exact ⟨next, newIndexPrice_eq_ok hprices hlong hshort hnext, found.poolValue, hvalue,
      by rw [hsupply]⟩
  · rw [marketConfig_balance hconfig, ← hworth]
    push_cast
    rfl

theorem addMarketValues_eq_ok {glv : Glv} {prices : Model.Prices} {value total : ℕ}
    (hprices : oracle.marketPrices op.marketMeta = .ok prices)
    (hshared : op.SharedTokens glvMarkets)
    (hadd : glvMarkets.foldlM (addMarketValue oracle glv op prices maximize) value =
      .ok total) :
    ∃ funds, glvFunds oracle op glvMarkets maximize = .ok funds ∧
      (total : ℤ) = value + worth funds glv.balance := by
  induction glvMarkets generalizing value with
  | nil =>
      obtain rfl : value = total := by simpa [pure, Except.pure] using hadd
      exact ⟨[], rfl, by simp [worth]⟩
  | cons stored rest ih =>
      rw [List.foldlM_cons, bind_eq_ok] at hadd
      obtain ⟨middle, hfirst, hrest⟩ := hadd
      obtain ⟨hlong, hshort⟩ := hshared stored List.mem_cons_self
      obtain ⟨fund, hfund, hmiddle, hkey⟩ := addMarketValue_eq_ok hprices hlong hshort hfirst
      obtain ⟨funds, hfunds, htotal⟩ :=
        ih (fun other hmem => hshared other (List.mem_cons_of_mem _ hmem)) hrest
      refine ⟨fund :: funds, ?_, ?_⟩
      · simp only [glvFunds, List.mapM_cons, bind_eq_ok, pure_eq_ok]
        exact ⟨fund, hfund, funds, hfunds, rfl⟩
      · rw [htotal, hmiddle, worth, worth, List.map_cons, List.sum_cons, hkey, add_assoc]

/-- The value of the vault is what its basket is worth. -/
theorem uncheckedGetGlvValue_eq_ok {glv : Glv} (hshared : op.SharedTokens glvMarkets)
    {total : ℕ} (hvalue : uncheckedGetGlvValue oracle glv op glvMarkets maximize = .ok total) :
    ∃ funds, glvFunds oracle op glvMarkets maximize = .ok funds ∧
      (total : ℤ) = worth funds glv.balance := by
  simp only [uncheckedGetGlvValue, bind_eq_ok] at hvalue
  obtain ⟨prices, hprices, hadd⟩ := hvalue
  obtain ⟨funds, hfunds, htotal⟩ := addMarketValues_eq_ok hprices hshared hadd
  exact ⟨funds, hfunds, by rw [htotal, Nat.cast_zero, zero_add]⟩

end Values

end Gmsol.Ops
