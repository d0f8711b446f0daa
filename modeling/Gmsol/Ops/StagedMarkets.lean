import Gmsol.Ops.OrderTransaction
import Gmsol.Ops.SoftFailure

/-!
# What an attempt sees of its markets

An attempt sees each of its markets through a buffer.  It starts with the stored markets;
what it sees after a step is what the step has staged, and a commit stores what is seen.
-/

namespace Gmsol.Ops

open Container Mutation Store SwapPath

/-! ## What an attempt sees -/

def withConfig (change : Model.MarketConfig → Model.MarketConfig)
    (market : RevertibleMarket) : RevertibleMarket :=
  { market with state := { market.state with config := change market.state.config } }

/-- The configuration with a discount on order fees. -/
def discounted (discount : ℕ) (config : Model.MarketConfig) : Model.MarketConfig :=
  { config with orderFeeParams := { config.orderFeeParams with
      discountFactor := some discount } }

namespace MarketAccount

variable {clock : Model.SysvarClock} {change : Model.MarketConfig → Model.MarketConfig}
  {before account : MarketAccount}

theorem contentsOf_stored (account : MarketAccount) (clock : Model.SysvarClock)
    (change : Model.MarketConfig → Model.MarketConfig) :
    contentsOf account.market.state.contents (withConfig change (account.stored clock)).state =
      account.market.state.contents := by
  unfold contentsOf
  congr 1
  funext kind
  cases kind <;> rfl

/-- The buffer of the account holds the market, over the stored contents. -/
structure Shows (clock : Model.SysvarClock)
    (change : Model.MarketConfig → Model.MarketConfig) (before account : MarketAccount)
    (market : RevertibleMarket) : Prop where
  view : account.market.buffer.view account.market.state =
    contentsOf before.market.state.contents market.state
  seen : withConfig change (account.revertible clock) = market

/-- A started account shows the stored market. -/
theorem Shows.start {started : MarketAccount} (hsame : before.SameStored account)
    (hstart : account.start = .ok started) :
    before.Shows clock change started (withConfig change (before.stored clock)) := by
  obtain ⟨hview, hinfo, -⟩ := start_eq_ok hstart
  rw [hsame.state] at hview
  refine ⟨?_, ?_⟩
  · rw [hview, contentsOf_stored]
  · unfold revertible
    rw [hview]
    obtain ⟨info, market, tagged⟩ := started
    obtain rfl := hinfo.trans hsame.info
    rfl

/-- A staged account shows what was staged. -/
theorem Shows.stage {market next : RevertibleMarket}
    (hshows : before.Shows clock change account market) (hkeeps : market.KeepsSetup next) :
    before.Shows clock change (account.stage next) next := by
  obtain ⟨state, hsetup, rfl⟩ := hkeeps
  obtain ⟨hview, rfl⟩ := hshows
  refine ⟨?_, ?_⟩
  · unfold MarketAccount.stage
    rw [view_access, accessAll_writes, hview]
    rfl
  · refine (congrArg (withConfig change) (revertible_stage account.store state)).trans ?_
    exact congrArg (RevertibleMarket.mk account.store account.marketMeta) hsetup.restore

/-- A commit stores what is shown. -/
theorem Shows.commit {market : RevertibleMarket}
    (hshows : before.Shows clock change account market) :
    account.commit.market.state.contents =
      contentsOf before.market.state.contents market.state :=
  (Store.Market.commit_contents account.market).trans hshows.view

end MarketAccount

/-! ## Loaded markets -/

namespace Loaded

variable {loaded : Loaded} {accounts : Accounts}

/-- The markets to swap in stand under their own tokens, and the current market is not
one of them. -/
structure Valid (loaded : Loaded) (accounts : Accounts) : Prop where
  key_eq : ∀ {token address}, loaded.swapMarkets.get token = some address →
    (accounts.markets address).key = token
  apart : (accounts.markets loaded.current).key ∉ loaded.swapMarkets.keys

theorem Valid.tokenAt_eq_some (hvalid : loaded.Valid accounts) {token address : Pubkey} :
    loaded.tokenAt address = some token ↔ loaded.swapMarkets.get token = some address := by
  constructor
  · intro htoken
    obtain ⟨entry, hfind, rfl⟩ := Option.map_eq_some_iff.mp htoken
    have hentry := List.mem_of_find?_eq_some hfind
    have hsame : entry.2 = address := by simpa using List.find?_some hfind
    rw [← hsame]
    exact IndexMap.get_of_mem hentry
  · intro hget
    have hmem := IndexMap.mem_of_find hget
    obtain ⟨entry, hfind⟩ := Option.isSome_iff_exists.mp
      (List.find?_isSome.mpr ⟨_, hmem, decide_eq_true rfl⟩ :
        (loaded.swapMarkets.entries.find? fun entry => entry.2 = address).isSome = true)
    have hentry := IndexMap.get_of_mem (List.mem_of_find?_eq_some hfind)
    have hsame : entry.2 = address := by simpa using List.find?_some hfind
    unfold tokenAt
    rw [hfind, Option.map_some, ← hvalid.key_eq hentry, hsame, hvalid.key_eq hget]

theorem Valid.ne_current (hvalid : loaded.Valid accounts) {token address : Pubkey}
    (hget : loaded.swapMarkets.get token = some address) : address ≠ loaded.current := by
  rintro rfl
  apply hvalid.apart
  rw [hvalid.key_eq hget]
  exact IndexMap.mem_keys_of_get hget

theorem Valid.tokenAt_current (hvalid : loaded.Valid accounts) :
    loaded.tokenAt loaded.current = none := by
  by_contra hsome
  obtain ⟨token, htoken⟩ := Option.ne_none_iff_exists'.mp hsome
  exact hvalid.ne_current (hvalid.tokenAt_eq_some.mp htoken) rfl

end Loaded

/-- The attempt sees these markets, and has changed nothing but buffers so far. -/
structure Sees (clock : Model.SysvarClock) (loaded : Loaded) (before : Accounts)
    (attempt : Attempt) (market : RevertibleMarket) (swapMarkets : SwapMarkets) : Prop where
  committed : attempt.accounts.committed = before.committed
  event : attempt.accounts.event = before.event
  current : (before.markets loaded.current).Shows clock
    (discounted loaded.orderFeeDiscountFactor) (attempt.accounts.markets loaded.current) market
  keys_eq : swapMarkets.keys = loaded.swapMarkets.keys
  swap : ∀ {token address}, loaded.swapMarkets.get token = some address →
    ∃ shown, swapMarkets.get token = some shown ∧
      (before.markets address).Shows clock id (attempt.accounts.markets address) shown

namespace Sees

variable {clock : Model.SysvarClock} {leftover : Pubkey → List Access} {loaded : Loaded}
  {before : Accounts} {attempt after : Attempt} {market : RevertibleMarket}
  {shown : SwapMarkets}

theorem currentMarket_eq (hsees : Sees clock loaded before attempt market shown) :
    currentMarket clock loaded attempt.accounts = market :=
  hsees.current.seen

theorem swapMarkets_eq (hsees : Sees clock loaded before attempt market shown) :
    swapMarkets clock loaded attempt.accounts = shown := by
  apply IndexMap.ext_get
  · exact (IndexMap.keys_mapValues _ _).trans hsees.keys_eq.symm
  · intro token
    refine (IndexMap.get_mapValues _ _ token).trans ?_
    cases hget : loaded.swapMarkets.get token with
    | none =>
        have habsent := IndexMap.get_eq_none.mp hget
        rw [← hsees.keys_eq] at habsent
        exact (IndexMap.get_eq_none.mpr habsent).symm
    | some address =>
        obtain ⟨found, hfound, hshows⟩ := hsees.swap hget
        rw [hfound]
        exact congrArg some hshows.seen

/-- What a step stages is what the attempt sees next. -/
theorem stage {α : Type} (hvalid : loaded.Valid before)
    (hsees : Sees clock loaded before attempt market shown) {stage : Stage α}
    (hkeeps : stage.KeepsSetup market shown) :
    Sees clock loaded before (stageMarkets loaded stage attempt) stage.market
      stage.swapMarkets where
  committed := (committed_stageMarkets loaded stage attempt).trans hsees.committed
  event := hsees.event
  current := by
    have hstaged := hsees.current.stage hkeeps.market
    simpa only [stageMarkets, Attempt.updateMarkets, if_pos] using hstaged
  keys_eq := hkeeps.swapMarkets.keys_eq.trans hsees.keys_eq
  swap := by
    intro token address hget
    obtain ⟨old, hold, hshows⟩ := hsees.swap hget
    have hpresent : token ∈ stage.swapMarkets.keys := by
      rw [hkeeps.swapMarkets.keys_eq]
      exact IndexMap.mem_keys_of_get hold
    obtain ⟨new, hnew⟩ := IndexMap.mem_keys_iff.mp hpresent
    obtain ⟨found, hfound, hsetup⟩ := hkeeps.swapMarkets.get token new hnew
    obtain rfl := Option.some.inj (hold.symm.trans hfound)
    refine ⟨new, hnew, ?_⟩
    have hstaged := hshows.stage hsetup
    simpa only [stageMarkets, Attempt.updateMarkets, if_neg (hvalid.ne_current hget),
      hvalid.tokenAt_eq_some.mpr hget, Option.bind_some, hnew, Option.elim_some] using hstaged

theorem onMarkets {α : Type} {value : α} (hvalid : loaded.Valid before)
    (hsees : Sees clock loaded before attempt market shown)
    {step : RevertibleMarket → SwapMarkets → Store.Result (Stage α)}
    (hkeeps : ∀ stage, step market shown = .ok stage → stage.KeepsSetup market shown)
    (hrun : onMarkets clock leftover loaded step attempt = .ok value after) :
    ∃ stage, step market shown = .ok stage ∧ stage.value = value ∧
      Sees clock loaded before after stage.market stage.swapMarkets := by
  unfold Ops.onMarkets at hrun
  rw [hsees.currentMarket_eq, hsees.swapMarkets_eq] at hrun
  split at hrun
  · rename_i stage hstep
    obtain ⟨rfl, rfl⟩ := EStateM.Result.ok.inj hrun
    exact ⟨stage, hstep, rfl, hsees.stage hvalid (hkeeps stage hstep)⟩
  · exact absurd hrun (by simp)

theorem onCurrentMarket (hvalid : loaded.Valid before)
    (hsees : Sees clock loaded before attempt market shown)
    {step : RevertibleMarket → Store.Result RevertibleMarket}
    (hkeeps : ∀ next, step market = .ok next → market.KeepsSetup next)
    (hrun : onCurrentMarket clock leftover loaded step attempt = .ok () after) :
    ∃ next, step market = .ok next ∧ Sees clock loaded before after next shown := by
  have hstage (stage : Stage Unit)
      (hstep : (step market).map (fun next => (⟨next, shown, ()⟩ : Stage Unit)) = .ok stage) :
      ∃ next, step market = .ok next ∧ stage = ⟨next, shown, ()⟩ := by
    obtain ⟨next, hnext, rfl⟩ := Fallible.map_eq_ok.mp hstep
    exact ⟨next, hnext, rfl⟩
  obtain ⟨stage, hstep, -, hafter⟩ := hsees.onMarkets hvalid (fun stage hstep => by
    obtain ⟨next, hnext, rfl⟩ := hstage stage hstep
    exact ⟨hkeeps next hnext, .refl shown⟩) hrun
  obtain ⟨next, hnext, rfl⟩ := hstage stage hstep
  exact ⟨next, hnext, hafter⟩

end Sees

/-! ## Loading the markets -/

theorem startMarket_eq_ok {address : Pubkey} {attempt after : Attempt}
    (hstart : startMarket address attempt = .ok () after) :
    ∃ started, (attempt.accounts.markets address).start = .ok started ∧
      after = setMarket address started attempt := by
  obtain ⟨_, _, hread, hrest⟩ := bind_eq_ok.mp hstart
  obtain ⟨rfl, rfl⟩ := EStateM.Result.ok.inj hread
  obtain ⟨started, _, hstarted, hset⟩ := bind_eq_ok.mp hrest
  obtain ⟨hstarted, rfl⟩ := lift_eq_ok.mp hstarted
  exact ⟨started, hstarted, (EStateM.Result.ok.inj hset).2.symm⟩

/-- The account shows the stored market, whatever is made of its configuration. -/
def MarketAccount.Started (clock : Model.SysvarClock) (before account : MarketAccount) :
    Prop :=
  ∀ change, before.Shows clock change account (withConfig change (before.stored clock))

/-- The current market and the given swap markets have been started. -/
structure Loading (clock : Model.SysvarClock) (marketAddress : Pubkey) (before : Accounts)
    (attempt : Attempt) (markets : IndexMap Pubkey Pubkey) : Prop where
  committed : attempt.accounts.committed = before.committed
  event : attempt.accounts.event = before.event
  current : (before.markets marketAddress).Started clock (attempt.accounts.markets marketAddress)
  key_eq : ∀ {token address}, markets.get token = some address →
    (before.markets address).key = token
  apart : (before.markets marketAddress).key ∉ markets.keys
  swap : ∀ {token address}, markets.get token = some address →
    (before.markets address).Started clock (attempt.accounts.markets address)

theorem MarketAccount.SameStored.validate_eq {before account : MarketAccount}
    (hsame : before.SameStored account) (clock : Model.SysvarClock) (store : Pubkey) :
    account.validate store = (before.stored clock).validate store := by
  obtain ⟨info, market, tagged⟩ := account
  obtain rfl := hsame.info
  rfl

namespace Loading

variable {clock : Model.SysvarClock} {marketAddress : Pubkey} {before : Accounts}
  {attempt after : Attempt} {markets : IndexMap Pubkey Pubkey}

theorem sameStored (hcommitted : attempt.accounts.committed = before.committed)
    (address : Pubkey) :
    (before.markets address).SameStored (attempt.accounts.markets address) :=
  ⟨congrFun (congrArg Committed.info hcommitted) address,
    congrFun (congrArg Committed.state hcommitted) address⟩

theorem key_eq_of_committed (hcommitted : attempt.accounts.committed = before.committed)
    (address : Pubkey) :
    (attempt.accounts.markets address).key = (before.markets address).key :=
  congrArg (fun info => info.marketMeta.marketTokenMint) (sameStored hcommitted address).info

/-- The current market is started first. -/
theorem start {before : Accounts} {shouldThrowError : Bool} {after : Attempt}
    (hstart : startMarket marketAddress ⟨before, shouldThrowError⟩ = .ok () after) :
    Loading clock marketAddress before after IndexMap.empty where
  committed := (startMarket_unobserved marketAddress).of_eq_ok hstart
  event := by
    obtain ⟨started, -, rfl⟩ := startMarket_eq_ok hstart
    rfl
  current := by
    obtain ⟨started, hstarted, rfl⟩ := startMarket_eq_ok hstart
    intro change
    simpa only [setMarket, Attempt.updateMarkets, if_pos] using
      MarketAccount.Shows.start (.refl _) hstarted
  key_eq hget := absurd hget (by simp)
  apart := by simp [IndexMap.keys, IndexMap.empty]
  swap hget := absurd hget (by simp)

/-- One more market, as the swap markets take it from its stored state. -/
theorem insertLoader {address : Pubkey} {next : IndexMap Pubkey Pubkey}
    (hloading : Loading clock marketAddress before attempt markets)
    (hinsert : insertLoader before.store.key (before.markets marketAddress).key markets address
      attempt = .ok next after) :
    Loading clock marketAddress before after next ∧
      SwapMarkets.insertMarket before.store.key (some (before.markets marketAddress).key)
          (markets.mapValues fun address => (before.markets address).stored clock)
          ((before.markets address).stored clock) =
        .ok (next.mapValues fun address => (before.markets address).stored clock) ∧
      next.entries.map Prod.snd = markets.entries.map Prod.snd ++ [address] := by
  have hsame := sameStored hloading.committed address
  have hkey := key_eq_of_committed hloading.committed address
  obtain ⟨_, _, hread, hrest⟩ := bind_eq_ok.mp hinsert
  obtain ⟨rfl, rfl⟩ := EStateM.Result.ok.inj hread
  obtain ⟨_, _, hother, hrest⟩ := bind_eq_ok.mp hrest
  obtain ⟨hother, rfl⟩ := lift_eq_ok.mp hother
  have hother := Fallible.ensure_eq_ok.mp hother
  split at hrest
  case isFalse => exact absurd (lift_eq_ok.mp hrest).1 (by simp)
  rename_i hvacant
  obtain ⟨_, _, hvalid, hrest⟩ := bind_eq_ok.mp hrest
  obtain ⟨hvalid, rfl⟩ := lift_eq_ok.mp hvalid
  obtain ⟨_, _, hstart, hdone⟩ := bind_eq_ok.mp hrest
  obtain ⟨rfl, rfl⟩ := EStateM.Result.ok.inj hdone
  have hcommitted := (startMarket_unobserved address).of_eq_ok hstart
  obtain ⟨started, hstarted, rfl⟩ := startMarket_eq_ok hstart
  rw [hkey] at hother
  have hcurrent : marketAddress ≠ address := by
    rintro rfl
    exact hother rfl
  have hnew : ((before.markets address).stored clock).key ∉ (markets.mapValues fun address =>
      (before.markets address).stored clock).keys := by
    rw [IndexMap.keys_mapValues]
    rw [hkey] at hvacant
    exact hvacant
  refine ⟨⟨hcommitted.trans hloading.committed, hloading.event, ?_, ?_, ?_, ?_⟩, ?_,
    by simp [IndexMap.insertVacant]⟩
  · simpa only [setMarket, Attempt.updateMarkets, if_neg hcurrent] using hloading.current
  · intro token other hget
    rw [IndexMap.get_insertVacant] at hget
    split_ifs at hget with htoken
    · obtain rfl := Option.some.inj hget
      exact hkey.symm.trans htoken.symm
    · exact hloading.key_eq hget
  · rw [IndexMap.keys_insertVacant, List.mem_append, List.mem_singleton, hkey]
    exact fun hmem => hmem.elim hloading.apart fun heq => hother heq.symm
  · intro token other hget
    rw [IndexMap.get_insertVacant] at hget
    split_ifs at hget with htoken
    · obtain rfl := Option.some.inj hget
      intro change
      simpa only [setMarket, Attempt.updateMarkets, if_pos] using
        MarketAccount.Shows.start hsame hstarted
    · have hdistinct : other ≠ address := by
        rintro rfl
        exact htoken ((hloading.key_eq hget).symm.trans hkey.symm)
      simpa only [setMarket, Attempt.updateMarkets, if_neg hdistinct] using
        hloading.swap hget
  · rw [hsame.validate_eq clock] at hvalid
    simp only [SwapMarkets.insertMarket, Fallible.bind_eq_ok, Fallible.ensure_eq_ok]
    refine ⟨(), fun heq => hother (Option.some.inj heq).symm, ?_⟩
    rw [dif_pos hnew, IndexMap.mapValues_insertVacant]
    simp only [Fallible.bind_eq_ok]
    refine ⟨(), hvalid, ?_⟩
    simp only [hkey]
    rfl

/-- All swap markets are loaded one after the other. -/
theorem loadAll {addresses : List Pubkey} {next : IndexMap Pubkey Pubkey}
    (hloading : Loading clock marketAddress before attempt markets)
    (hload : addresses.foldlM (Ops.insertLoader before.store.key
      (before.markets marketAddress).key) markets attempt = .ok next after) :
    Loading clock marketAddress before after next ∧
      (addresses.map fun address => (before.markets address).stored clock).foldlM
          (SwapMarkets.insertMarket before.store.key (some (before.markets marketAddress).key))
          (markets.mapValues fun address => (before.markets address).stored clock) =
        .ok (next.mapValues fun address => (before.markets address).stored clock) ∧
      next.entries.map Prod.snd = markets.entries.map Prod.snd ++ addresses := by
  induction addresses generalizing markets attempt with
  | nil =>
      obtain ⟨rfl, rfl⟩ := EStateM.Result.ok.inj hload
      exact ⟨hloading, rfl, (List.append_nil _).symm⟩
  | cons address addresses ih =>
      rw [List.foldlM_cons] at hload
      obtain ⟨between, _, hinsert, hrest⟩ := bind_eq_ok.mp hload
      obtain ⟨hbetween, hmarket, hvalue⟩ := hloading.insertLoader hinsert
      obtain ⟨hlast, hmarkets, hvalues⟩ := ih hbetween hrest
      refine ⟨hlast, ?_, ?_⟩
      · rw [List.map_cons, List.foldlM_cons, hmarket]
        exact hmarkets
      · rw [hvalues, hvalue, List.append_assoc]
        rfl

theorem sees (loaded : Loaded)
    (hloading : Loading clock loaded.current before attempt loaded.swapMarkets) :
    loaded.Valid before ∧
      Sees clock loaded before attempt
        (withOrderFeeDiscountFactor ((before.markets loaded.current).stored clock)
          loaded.orderFeeDiscountFactor)
        (loaded.swapMarkets.mapValues fun address =>
          (before.markets address).stored clock) where
  left := ⟨hloading.key_eq, hloading.apart⟩
  right :=
    { committed := hloading.committed
      event := hloading.event
      current := hloading.current _
      keys_eq := IndexMap.keys_mapValues _ _
      swap := fun {token address} hget => by
        refine ⟨(before.markets address).stored clock, ?_, hloading.swap hget id⟩
        rw [IndexMap.get_mapValues, hget]
        rfl }

end Loading

theorem mapM_okOr_eq_ok {α : Type} {infos : List (Option α)} {addresses : List α}
    {failure : CoreError}
    (hinfos : (infos.mapM fun info => Fallible.okOr info failure) = .ok addresses) :
    infos = addresses.map some := by
  induction infos generalizing addresses with
  | nil =>
      obtain rfl := Except.ok.inj hinfos
      rfl
  | cons info infos ih =>
      rw [List.mapM_cons] at hinfos
      simp only [Fallible.bind_eq_ok, Fallible.okOr_eq_ok, Fallible.pure_eq_ok] at hinfos
      obtain ⟨address, rfl, rest, hrest, rfl⟩ := hinfos
      rw [List.map_cons, ih hrest]

/-- The markets to swap in are the remaining accounts, all of them market accounts. -/
theorem unpackMarketsForSwap_eq_ok {op : ExecuteOrderOperation} {params : SwapActionParams}
    {currentMarketToken : Pubkey} {addresses : List Pubkey}
    (hunpack : op.unpackMarketsForSwap params currentMarketToken = .ok addresses) :
    op.remainingAccounts = addresses.map some := by
  obtain ⟨_, -, hinfos⟩ := Fallible.bind_eq_ok.mp hunpack
  exact mapM_okOr_eq_ok hinfos

/-- What the attempt has loaded, and what the transaction reads for it. -/
structure LoadedFor (clock : Model.SysvarClock) (op : ExecuteOrderOperation)
    (before : Accounts) (attempt : Attempt) (loaded : Loaded) (addresses : List Pubkey)
    (swapMarkets : SwapMarkets) : Prop where
  unpacked : op.unpackMarketsForSwap before.order.swap (before.markets op.market).key =
    .ok addresses
  stored : before.storedSwapMarkets clock (before.markets op.market).key addresses =
    .ok swapMarkets
  current_eq : loaded.current = op.market
  addresses_eq : loaded.swapMarkets.entries.map Prod.snd = addresses
  valid : loaded.Valid before
  sees : Sees clock loaded before attempt
    (withOrderFeeDiscountFactor ((before.markets op.market).stored clock)
      loaded.orderFeeDiscountFactor) swapMarkets

theorem loadMarkets_eq_ok (clock : Model.SysvarClock) {op : ExecuteOrderOperation}
    {orderFeeDiscountFactor : ℕ} {before : Accounts} {shouldThrowError : Bool}
    {loaded : Loaded} {attempt : Attempt}
    (hload : op.loadMarkets orderFeeDiscountFactor ⟨before, shouldThrowError⟩ =
      .ok loaded attempt) :
    loaded.orderFeeDiscountFactor = orderFeeDiscountFactor ∧
      ∃ addresses swapMarkets,
        LoadedFor clock op before attempt loaded addresses swapMarkets := by
  obtain ⟨_, started, hstart, hrest⟩ := bind_eq_ok.mp hload
  have hstarted : Loading clock op.market before started IndexMap.empty :=
    .start hstart
  obtain ⟨_, _, hread, hrest⟩ := bind_eq_ok.mp hrest
  obtain ⟨rfl, rfl⟩ := EStateM.Result.ok.inj hread
  obtain ⟨addresses, _, hunpack, hrest⟩ := bind_eq_ok.mp hrest
  obtain ⟨hunpack, rfl⟩ := lift_eq_ok.mp hunpack
  obtain ⟨markets, _, hmarkets, hdone⟩ := bind_eq_ok.mp hrest
  obtain ⟨rfl, rfl⟩ := EStateM.Result.ok.inj hdone
  have horder := congrArg Committed.order hstarted.committed
  have hstore := congrArg Committed.store hstarted.committed
  simp only [Accounts.committed] at horder hstore
  rw [horder, Loading.key_eq_of_committed hstarted.committed] at hunpack
  rw [hstore, Loading.key_eq_of_committed hstarted.committed] at hmarkets
  obtain ⟨hloading, hstored, hvalues⟩ := hstarted.loadAll hmarkets
  obtain ⟨hvalid, hsees⟩ := Loading.sees ⟨op.market, _, markets⟩ hloading
  exact ⟨rfl, addresses, _, hunpack, hstored, rfl, hvalues, hvalid, hsees⟩

end Gmsol.Ops
