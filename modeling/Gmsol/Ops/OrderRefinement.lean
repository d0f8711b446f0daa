import Gmsol.Ops.StagedMarkets

/-!
# An executed order is a transaction

Every step of an attempt stages all that it has changed, and nothing else is staged.  So
the markets that an executed order leaves behind are those of its transaction, and with
them the position, the trade event and the GT accounts.
-/

namespace Gmsol.Ops

open Container Mutation Store SwapPath

def ExecuteOutcome.markExecuted (outcome : ExecuteOutcome) : ExecuteOutcome :=
  { outcome with transferOut := { outcome.transferOut with executed := true } }

/-- The accounts hold what the transaction has made of them. -/
structure Transacted.StoredIn (transacted : Transacted) (op : ExecuteOrderOperation)
    (before after : Accounts) : Prop where
  info : ∀ address,
    (after.markets address).toMarketInfo = (before.markets address).toMarketInfo
  current : (after.markets op.market).market.state.contents =
    MarketAccount.contentsOf (before.markets op.market).market.state.contents
      transacted.market.state
  swapped : ∀ address, some address ∈ op.remainingAccounts →
    ∃ market, transacted.swapMarkets.get (before.markets address).key = some market ∧
      (after.markets address).market.state.contents =
        MarketAccount.contentsOf (before.markets address).market.state.contents market.state
  others : ∀ address, address ≠ op.market → some address ∉ op.remainingAccounts →
    (after.markets address).market.state = (before.markets address).market.state
  position : after.position = transacted.position.elim before.position fun state =>
    before.position.map fun position => { position with state }
  event : after.event = transacted.event
  order : after.order = { before.order with gtReward := transacted.gt.gtReward }
  store : after.store = { before.store with gt := transacted.gt.gt }
  user : after.user = transacted.gt.user
  isReferred : after.isReferred = before.isReferred

/-! ## The commits -/

theorem Loaded.Valid.withEvent {loaded : Loaded} {before : Accounts}
    (hvalid : loaded.Valid before) (event : Option TradeData) :
    loaded.Valid { before with event } :=
  ⟨hvalid.key_eq, hvalid.apart⟩

/-- The market accounts after the commits of an attempt. -/
def commitLoaded (loaded : Loaded) (markets : Pubkey → MarketAccount) (address : Pubkey) :
    MarketAccount :=
  let current := if address = loaded.current then (markets address).commit
    else markets address
  if (loaded.tokenAt address).isSome then current.commit else current

section Commit

variable {clock : Model.SysvarClock} {op : ExecuteOrderOperation} {loaded : Loaded}
  {before : Accounts} {started attempt : Attempt} {addresses : List Pubkey}
  {market : RevertibleMarket} {read shown : SwapMarkets}

theorem commitLoaded_current (hvalid : loaded.Valid before)
    (hsees : Sees clock loaded before attempt market shown) :
    (commitLoaded loaded attempt.accounts.markets loaded.current).market.state.contents =
      MarketAccount.contentsOf (before.markets loaded.current).market.state.contents
        market.state := by
  unfold commitLoaded
  rw [hvalid.tokenAt_current, if_pos rfl]
  exact hsees.current.commit

theorem commitLoaded_swap (hvalid : loaded.Valid before)
    (hsees : Sees clock loaded before attempt market shown) {address : Pubkey}
    (hmem : address ∈ loaded.swapMarkets.entries.map Prod.snd) :
    ∃ found, shown.get (before.markets address).key = some found ∧
      (commitLoaded loaded attempt.accounts.markets address).market.state.contents =
        MarketAccount.contentsOf (before.markets address).market.state.contents
          found.state := by
  obtain ⟨entry, hentry, rfl⟩ := List.mem_map.mp hmem
  have hget := IndexMap.get_of_mem hentry
  obtain ⟨found, hfound, hshows⟩ := hsees.swap hget
  refine ⟨found, by rw [hvalid.key_eq hget, hfound], ?_⟩
  unfold commitLoaded
  rw [hvalid.tokenAt_eq_some.mpr hget, if_neg (hvalid.ne_current hget)]
  exact hshows.commit

theorem commitLoaded_other {address : Pubkey} (hcurrent : address ≠ loaded.current)
    (hother : address ∉ loaded.swapMarkets.entries.map Prod.snd)
    (hcommitted : attempt.accounts.committed = before.committed) :
    (commitLoaded loaded attempt.accounts.markets address).market.state =
      (before.markets address).market.state := by
  have hnone : loaded.tokenAt address = none := by
    unfold Loaded.tokenAt
    rw [Option.map_eq_none_iff, List.find?_eq_none]
    intro entry hentry hsame
    exact hother (List.mem_map.mpr ⟨entry, hentry, by simpa using hsame⟩)
  unfold commitLoaded
  rw [hnone, if_neg hcurrent]
  exact congrFun (congrArg Committed.state hcommitted) address

theorem commitLoaded_info (address : Pubkey)
    (hcommitted : attempt.accounts.committed = before.committed) :
    (commitLoaded loaded attempt.accounts.markets address).toMarketInfo =
      (before.markets address).toMarketInfo := by
  have hsame := (Loading.sameStored hcommitted address).info
  unfold commitLoaded
  dsimp only
  split_ifs <;> exact hsame

/-- What the commits make of the accounts that the attempt sees. -/
theorem Sees.storedIn (hloaded : LoadedFor clock op before started loaded addresses read)
    {event : Option TradeData}
    (hsees : Sees clock loaded { before with event } attempt market shown)
    {transacted : Transacted} {after : Accounts} (hmarket : transacted.market = market)
    (hshown : transacted.swapMarkets = shown)
    (hmarkets : after.markets = commitLoaded loaded attempt.accounts.markets)
    (hposition : after.position = transacted.position.elim attempt.accounts.position
      fun state => attempt.accounts.position.map fun position => { position with state })
    (hevent : after.event = transacted.event)
    (horder : after.order =
      { attempt.accounts.order with gtReward := transacted.gt.gtReward })
    (hstore : after.store = { attempt.accounts.store with gt := transacted.gt.gt })
    (huser : after.user = transacted.gt.user)
    (hreferred : after.isReferred = attempt.accounts.isReferred) :
    transacted.StoredIn op before after := by
  have hvalid : loaded.Valid { before with event } := hloaded.valid.withEvent event
  have hremaining := unpackMarketsForSwap_eq_ok hloaded.unpacked
  have hmem (address : Pubkey) : some address ∈ op.remainingAccounts ↔
      address ∈ loaded.swapMarkets.entries.map Prod.snd := by
    rw [hremaining, hloaded.addresses_eq]
    simp
  subst hmarket hshown
  refine ⟨fun address => ?_, ?_, fun address haddress => ?_, fun address hcurrent hother => ?_,
    ?_, hevent, ?_, ?_, huser, ?_⟩
  · rw [hmarkets]
    exact commitLoaded_info address hsees.committed
  · have hstored := commitLoaded_current hvalid hsees
    rw [hmarkets, ← hloaded.current_eq]
    exact hstored
  · have hstored := commitLoaded_swap hvalid hsees ((hmem address).mp haddress)
    rw [hmarkets]
    exact hstored
  · rw [hmarkets]
    rw [← hloaded.current_eq] at hcurrent
    exact commitLoaded_other hcurrent (fun hin => hother ((hmem address).mpr hin))
      hsees.committed
  · rw [hposition, show attempt.accounts.position = before.position from
      congrArg Committed.position hsees.committed]
  · rw [horder, show attempt.accounts.order = before.order from
      congrArg Committed.order hsees.committed]
  · rw [hstore, show attempt.accounts.store = before.store from
      congrArg Committed.store hsees.committed]
  · exact hreferred.trans (congrArg Committed.isReferred hsees.committed)

end Commit

/-! ## The position and the trade event -/

theorem Sees.setEvent {clock : Model.SysvarClock} {loaded : Loaded} {before : Accounts}
    {attempt : Attempt} {market : RevertibleMarket} {shown : SwapMarkets}
    (hsees : Sees clock loaded before attempt market shown) (event : TradeData) :
    Sees clock loaded { before with event := some event } (attempt.setEvent event) market
      shown :=
  ⟨hsees.committed, rfl, hsees.current, hsees.keys_eq, hsees.swap⟩

theorem onEvent_eq_ok {computation : EStateM CoreError TradeData Unit}
    {attempt after : Attempt} (hrun : onEvent computation attempt = .ok () after) :
    ∃ event written, attempt.accounts.event = some event ∧
      computation event = .ok () written ∧ after = attempt.setEvent written := by
  unfold onEvent at hrun
  split at hrun
  · exact absurd hrun (by simp)
  · rename_i event hevent
    split at hrun
    · rename_i written hwritten
      exact ⟨event, written, hevent, hwritten, (EStateM.Result.ok.inj hrun).2.symm⟩
    · exact absurd hrun (by simp)

namespace TradeData

theorem init_eq_ok {isIncrease : Bool} {position : PositionAccount}
    {event written : TradeData}
    (hinit : TradeData.init isIncrease position event = .ok () written) :
    event.store = position.store ∧
      written = { event with
        isIncrease, tradeId := 0, before := position.state, after := position.state } := by
  obtain ⟨_, _, hside, hrest⟩ := bind_eq_ok.mp hinit
  obtain ⟨-, rfl⟩ := lift_eq_ok.mp hside
  obtain ⟨_, _, hwrite, hrest⟩ := bind_eq_ok.mp hrest
  obtain ⟨-, rfl⟩ := EStateM.Result.ok.inj hwrite
  obtain ⟨_, _, hread, hrest⟩ := bind_eq_ok.mp hrest
  obtain ⟨rfl, rfl⟩ := EStateM.Result.ok.inj hread
  obtain ⟨_, _, hcheck, hlast⟩ := bind_eq_ok.mp hrest
  obtain ⟨hstore, rfl⟩ := lift_eq_ok.mp hcheck
  exact ⟨Fallible.ensure_eq_ok.mp hstore, (EStateM.Result.ok.inj hlast).2.symm⟩

theorem updateWithState_eq_ok {state : PositionState} {event written : TradeData}
    (hupdate : TradeData.updateWithState state event = .ok () written) :
    written = { event with tradeId := state.tradeId, after := state } ∧
      written.validate = .ok () := by
  obtain ⟨_, _, hwrite, hrest⟩ := bind_eq_ok.mp hupdate
  obtain ⟨-, rfl⟩ := EStateM.Result.ok.inj hwrite
  obtain ⟨_, _, hread, hcheck⟩ := bind_eq_ok.mp hrest
  obtain ⟨rfl, rfl⟩ := EStateM.Result.ok.inj hread
  obtain ⟨hvalid, rfl⟩ := lift_eq_ok.mp hcheck
  exact ⟨rfl, hvalid⟩

end TradeData

theorem MarketAccount.SameStored.position_eq {before account : MarketAccount}
    (hsame : before.SameStored account) (position : PositionAccount) :
    position.revertible account = position.revertible before ∧
      position.validateForMarket account = position.validateForMarket before := by
  obtain ⟨info, market, tagged⟩ := account
  obtain rfl := hsame.info
  exact ⟨rfl, rfl⟩

/-- The position that is loaded, and the event buffer that waits for the trade. -/
theorem loadPosition_eq_ok {clock : Model.SysvarClock} {loaded : Loaded} {before : Accounts}
    {attempt after : Attempt} {market : RevertibleMarket} {shown : SwapMarkets}
    {copied : Model.Position × Pubkey}
    (hsees : Sees clock loaded before attempt market shown)
    (hload : loadPosition loaded attempt = .ok copied after) :
    ∃ position event, before.position = some position ∧ before.event = some event ∧
      event.store = position.store ∧ copied.2 = position.collateralToken ∧
      position.revertible (before.markets loaded.current) = .ok copied.1 ∧
      position.validateForMarket (before.markets loaded.current) = .ok () ∧
      after = attempt.setEvent { event with
        isIncrease := before.order.kind.isIncreasePosition
        tradeId := 0
        before := position.state
        after := position.state } := by
  have hsame := Loading.sameStored hsees.committed loaded.current
  have horder := congrArg Committed.order hsees.committed
  have hposition := congrArg Committed.position hsees.committed
  have hevent := hsees.event
  simp only [Accounts.committed] at horder hposition
  obtain ⟨_, _, hread, hrest⟩ := bind_eq_ok.mp hload
  obtain ⟨rfl, rfl⟩ := EStateM.Result.ok.inj hread
  obtain ⟨position, _, hlookup, hrest⟩ := bind_eq_ok.mp hrest
  obtain ⟨hfound, rfl⟩ := lift_eq_ok.mp hlookup
  obtain ⟨_, _, hprovided, hrest⟩ := bind_eq_ok.mp hrest
  obtain ⟨-, rfl⟩ := lift_eq_ok.mp hprovided
  obtain ⟨_, _, hside, hrest⟩ := bind_eq_ok.mp hrest
  obtain ⟨-, rfl⟩ := lift_eq_ok.mp hside
  obtain ⟨_, _, hwrite, hrest⟩ := bind_eq_ok.mp hrest
  obtain ⟨event, written, hgiven, hinit, rfl⟩ := onEvent_eq_ok hwrite
  obtain ⟨hstore, rfl⟩ := TradeData.init_eq_ok hinit
  obtain ⟨revertible, _, hcopy, hrest⟩ := bind_eq_ok.mp hrest
  obtain ⟨hrevertible, rfl⟩ := lift_eq_ok.mp hcopy
  obtain ⟨_, _, hcheck, hdone⟩ := bind_eq_ok.mp hrest
  obtain ⟨hvalid, rfl⟩ := lift_eq_ok.mp hcheck
  obtain ⟨rfl, rfl⟩ := EStateM.Result.ok.inj hdone
  rw [Fallible.okOr_eq_ok, hposition] at hfound
  rw [(hsame.position_eq position).1] at hrevertible
  rw [(hsame.position_eq position).2] at hvalid
  rw [horder]
  exact ⟨position, event, hfound, hevent.symm.trans hgiven, hstore, rfl, hrevertible, hvalid,
    rfl⟩

/-! ## The attempt -/

section Attempt

variable [Model.MarketNum] {oracle : TimedOracle} {clock : Model.SysvarClock}
  {leftover : Pubkey → List Access} {op : ExecuteOrderOperation} {prices : Model.Prices}
  {loaded : Loaded} {before : Accounts} {started attempt after : Attempt}
  {addresses : List Pubkey} {market : RevertibleMarket} {read shown : SwapMarkets}

theorem distributed_keepsSetup {next : RevertibleMarket}
    (hdistribute : RevertibleMarket.distributed market = .ok next) :
    market.KeepsSetup next := by
  apply RevertibleMarket.update_keepsSetup _ hdistribute
  intro state hstate
  obtain ⟨done, hdone, rfl⟩ := Fallible.map_eq_ok.mp hstate
  exact (Model.DistributePositionImpact.execute_keepsRecords hdone).toKeepsSetup

theorem funded_keepsSetup {next : RevertibleMarket}
    (hfund : RevertibleMarket.funded market prices = .ok next) : market.KeepsSetup next := by
  apply RevertibleMarket.update_keepsSetup _ hfund
  intro state hstate
  obtain ⟨done, hdone, rfl⟩ := Fallible.map_eq_ok.mp hstate
  exact (Model.UpdateFundingState.execute_keepsRecords hdone).toKeepsSetup

theorem preExecute_eq_ok (hvalid : loaded.Valid before)
    (hsees : Sees clock loaded before attempt market shown)
    (hrun : preExecute clock leftover loaded prices attempt = .ok () after) :
    ∃ next, preExecuted market prices = .ok next ∧
      Sees clock loaded before after next shown := by
  obtain ⟨_, _, hdistribute, hrest⟩ := bind_eq_ok.mp hrun
  obtain ⟨distributed, hdistributed, hfirst⟩ :=
    hsees.onCurrentMarket hvalid (fun _ => distributed_keepsSetup) hdistribute
  obtain ⟨_, _, hborrow, hfund⟩ := bind_eq_ok.mp hrest
  obtain ⟨borrowed, hborrowed, hsecond⟩ := hfirst.onCurrentMarket hvalid
    (fun _ => RevertibleMarket.updateBorrowing_keepsSetup) hborrow
  obtain ⟨funded, hfunded, hthird⟩ :=
    hsecond.onCurrentMarket hvalid (fun _ => funded_keepsSetup) hfund
  refine ⟨funded, ?_, hthird⟩
  simp only [preExecuted, Fallible.bind_eq_ok]
  exact ⟨distributed, hdistributed, borrowed, hborrowed, hfunded⟩

omit [Model.MarketNum] in
theorem throwUnlessMarket_eq_ok {check : Store.Result Unit}
    (hrun : throwUnlessMarket check attempt = .ok () after) :
    check = .ok () ∧ after = attempt := by
  unfold throwUnlessMarket at hrun
  split at hrun
  · exact ⟨rfl, (EStateM.Result.ok.inj hrun).2.symm⟩
  · exact absurd hrun (by simp)

theorem executeSwap_eq_ok (hvalid : loaded.Valid before)
    (hsees : Sees clock loaded before attempt market shown) {transferOut : TransferOut}
    (hrun : executeSwap oracle clock leftover loaded attempt = .ok transferOut after) :
    ∃ transacted, swapTransaction oracle before market shown = .ok transacted ∧
      transacted.outcome = ⟨false, transferOut, false⟩ ∧ transacted.position = none ∧
      transacted.event = before.event ∧ transacted.gt = before.gt ∧
      Sees clock loaded before after transacted.market transacted.swapMarkets := by
  have horder : attempt.accounts.order = before.order :=
    congrArg Committed.order hsees.committed
  obtain ⟨_, _, hread, hrest⟩ := bind_eq_ok.mp hrun
  obtain ⟨rfl, rfl⟩ := EStateM.Result.ok.inj hread
  rw [horder] at hrest
  obtain ⟨tokenOut, _, htoken, hfound⟩ := bind_eq_ok.mp hrest
  obtain ⟨htokenOut, rfl⟩ := lift_eq_ok.mp htoken
  obtain ⟨amount, _, hswap, hswapped⟩ := bind_eq_ok.mp hfound
  obtain ⟨stage, hstage, rfl, hstaged⟩ := hsees.onMarkets hvalid
    (fun _ => swapCollateral_keepsSetup) hswap
  obtain ⟨_, _, hcheck, htransfer⟩ := bind_eq_ok.mp hswapped
  obtain ⟨houtput, rfl⟩ := throwUnlessMarket_eq_ok hcheck
  obtain ⟨htransferred, rfl⟩ := lift_eq_ok.mp htransfer
  refine ⟨⟨stage.market, stage.swapMarkets, none, before.event, before.gt,
    ⟨false, transferOut, false⟩⟩, ?_, rfl, rfl, rfl, rfl, hstaged⟩
  simp only [swapTransaction, Fallible.bind_eq_ok]
  exact ⟨tokenOut, htokenOut, stage, hstage, (), houtput, transferOut, htransferred, rfl⟩

theorem performSwap_eq_ok (hloaded : LoadedFor clock op before started loaded addresses read)
    (hsees : Sees clock loaded before attempt market shown) {outcome : ExecuteOutcome}
    (hrun : performSwap oracle clock leftover loaded attempt = .ok outcome after) :
    ∃ transacted, swapTransaction oracle before market shown = .ok transacted ∧
      transacted.outcome = outcome ∧ transacted.StoredIn op before after.accounts := by
  obtain ⟨transferOut, staged, hswap, hrest⟩ := bind_eq_ok.mp hrun
  obtain ⟨transacted, htransacted, houtcome, hposition, hevent, hgt, hstaged⟩ :=
    executeSwap_eq_ok hloaded.valid hsees hswap
  obtain ⟨_, _, hcommit, hrest⟩ := bind_eq_ok.mp hrest
  obtain ⟨-, rfl⟩ := EStateM.Result.ok.inj hcommit
  obtain ⟨_, _, hcommitSwap, hdone⟩ := bind_eq_ok.mp hrest
  obtain ⟨-, rfl⟩ := EStateM.Result.ok.inj hcommitSwap
  obtain ⟨rfl, rfl⟩ := EStateM.Result.ok.inj hdone
  refine ⟨transacted, htransacted, houtcome, ?_⟩
  have horder : staged.accounts.order = before.order :=
    congrArg Committed.order hstaged.committed
  have hstore : staged.accounts.store = before.store :=
    congrArg Committed.store hstaged.committed
  have huser : staged.accounts.user = before.user :=
    congrArg Committed.user hstaged.committed
  have hkept : Sees clock loaded { before with event := before.event } staged
      transacted.market transacted.swapMarkets := hstaged
  refine hkept.storedIn hloaded rfl rfl rfl ?_ (hstaged.event.trans hevent.symm) ?_ ?_ ?_ rfl
  · rw [hposition]
    rfl
  · rw [hgt, horder]
    exact horder
  · rw [hgt, hstore]
    exact hstore
  · rw [hgt]
    exact huser

/-- The GT accounts are changed in place, as the transaction has them. -/
theorem processGt_eq_ok {isGtMintingEnabled : Bool} {paidFeeValue : ℕ}
    (hsame : attempt.gtAccounts = before.gt)
    (hrun : processGt clock isGtMintingEnabled paidFeeValue attempt = .ok () after) :
    ∃ gt, gtTransaction clock before isGtMintingEnabled paidFeeValue = .ok gt ∧
      after = attempt.setGtAccounts gt := by
  unfold processGt at hrun
  unfold gtTransaction
  cases isGtMintingEnabled with
  | false =>
      obtain ⟨-, rfl⟩ := EStateM.Result.ok.inj hrun
      refine ⟨before.gt, rfl, ?_⟩
      rw [← hsame]
      rfl
  | true =>
      obtain ⟨_, _, hzoom, hdone⟩ := bind_eq_ok.mp hrun
      obtain ⟨gt, hprocess, rfl⟩ := zoom_eq_ok.mp hzoom
      rw [hsame] at hprocess
      exact ⟨gt, settle_eq_ok.mpr ⟨_, hprocess⟩, (EStateM.Result.ok.inj hdone).2.symm⟩

theorem performPositionChange_eq_ok
    (hloaded : LoadedFor clock op before started loaded addresses read)
    (hsees : Sees clock loaded before attempt market shown) {isGtMintingEnabled : Bool}
    (henabled : isGtMintingEnabled = (before.markets op.market).isGtMintingEnabled)
    {outcome : ExecuteOutcome}
    (hrun : performPositionChange oracle clock leftover loaded prices isGtMintingEnabled
      attempt = .ok outcome after) :
    ∃ transacted,
      positionTransaction oracle clock before (before.markets op.market) prices market shown =
        .ok transacted ∧
      transacted.outcome = outcome ∧ transacted.StoredIn op before after.accounts := by
  obtain ⟨copied, _, hload, hrest⟩ := bind_eq_ok.mp hrun
  obtain ⟨position, event, hposition, hevent, hstore, hcollateral, hcopied, hvalid, rfl⟩ :=
    loadPosition_eq_ok hsees hload
  have hinitialized := hsees.setEvent { event with
    isIncrease := before.order.kind.isIncreasePosition
    tradeId := 0
    before := position.state
    after := position.state }
  have horder := congrArg Committed.order hinitialized.committed
  simp only [Accounts.committed] at horder
  obtain ⟨_, _, hread, hrest⟩ := bind_eq_ok.mp hrest
  obtain ⟨rfl, rfl⟩ := EStateM.Result.ok.inj hread
  rw [horder, hcollateral] at hrest
  obtain ⟨changed, staged, hchange, hrest⟩ := bind_eq_ok.mp hrest
  obtain ⟨stage, hstage, rfl, hstaged⟩ := hinitialized.onMarkets
    (hloaded.valid.withEvent _) (fun _ => changePosition_keepsSetup) hchange
  obtain ⟨_, _, hwrite, hrest⟩ := bind_eq_ok.mp hrest
  obtain ⟨found, written, hfound, hupdate, rfl⟩ := onEvent_eq_ok hwrite
  obtain rfl := Option.some.inj (hstaged.event.symm.trans hfound)
  obtain ⟨rfl, htrade⟩ := TradeData.updateWithState_eq_ok hupdate
  obtain ⟨_, _, hprocess, hrest⟩ := bind_eq_ok.mp hrest
  have hgtAccounts (trade : TradeData) : (staged.setEvent trade).gtAccounts = before.gt := by
    have hcommitted := hstaged.committed
    simp only [Attempt.setEvent, Attempt.gtAccounts, Accounts.gt,
      show staged.accounts.order = before.order from congrArg Committed.order hcommitted,
      show staged.accounts.store = before.store from congrArg Committed.store hcommitted,
      show staged.accounts.user = before.user from congrArg Committed.user hcommitted]
  obtain ⟨gt, hgt, rfl⟩ := processGt_eq_ok (hgtAccounts _) hprocess
  obtain ⟨_, _, hcommit, hrest⟩ := bind_eq_ok.mp hrest
  obtain ⟨-, rfl⟩ := EStateM.Result.ok.inj hcommit
  obtain ⟨_, _, hset, hrest⟩ := bind_eq_ok.mp hrest
  obtain ⟨-, rfl⟩ := EStateM.Result.ok.inj hset
  obtain ⟨_, _, hcommitSwap, hdone⟩ := bind_eq_ok.mp hrest
  obtain ⟨-, rfl⟩ := EStateM.Result.ok.inj hcommitSwap
  obtain ⟨rfl, rfl⟩ := EStateM.Result.ok.inj hdone
  let state := PositionState.ofPosition stage.value.position
  let trade := tradeOf event before.order.kind.isIncreasePosition position.state state
  refine ⟨⟨stage.market, stage.swapMarkets, some state, some trade, gt,
    ⟨stage.value.shouldRemovePosition, stage.value.transferOut, true⟩⟩, ?_, rfl,
    hstaged.storedIn hloaded rfl rfl rfl rfl rfl rfl rfl rfl rfl⟩
  rw [hloaded.current_eq] at hcopied hvalid
  simp only [positionTransaction, Fallible.bind_eq_ok, Fallible.okOr_eq_ok,
    Fallible.ensure_eq_ok]
  exact ⟨position, hposition, event, hevent, (), hstore, copied.1, hcopied, (), hvalid, stage,
    hstage, (), htrade, gt, henabled ▸ hgt, rfl⟩

/-- An attempt that succeeds leaves what the transaction makes of the stored accounts. -/
theorem performExecution_eq_ok {orderFeeDiscountFactor : ℕ} {shouldThrowError : Bool}
    {outcome : ExecuteOutcome}
    (hperform : performExecution oracle clock leftover op prices orderFeeDiscountFactor
      ⟨before, shouldThrowError⟩ = .ok outcome after) :
    ∃ transacted,
      op.transaction oracle clock before prices orderFeeDiscountFactor = .ok transacted ∧
        transacted.outcome = outcome ∧ transacted.StoredIn op before after.accounts := by
  obtain ⟨_, _, hread, hchecked⟩ := bind_eq_ok.mp hperform
  obtain ⟨rfl, rfl⟩ := EStateM.Result.ok.inj hread
  obtain ⟨_, _, hcheck, hvalidated⟩ := bind_eq_ok.mp hchecked
  obtain ⟨haccount, rfl⟩ := lift_eq_ok.mp hcheck
  obtain ⟨_, _, hvalidate, hloading⟩ := bind_eq_ok.mp hvalidated
  obtain ⟨_, _, hreadOrder, htrigger⟩ := bind_eq_ok.mp hvalidate
  obtain ⟨rfl, rfl⟩ := EStateM.Result.ok.inj hreadOrder
  obtain ⟨_, _, hempty, htriggered⟩ := bind_eq_ok.mp htrigger
  obtain ⟨hnonEmpty, rfl⟩ := lift_eq_ok.mp hempty
  obtain ⟨hprice, rfl⟩ := throwUnlessMarket_eq_ok htriggered
  obtain ⟨loaded, started, hload, hloadedRest⟩ := bind_eq_ok.mp hloading
  obtain ⟨rfl, addresses, swapMarkets, hloaded⟩ := loadMarkets_eq_ok clock hload
  obtain ⟨_, updated, hpre, hlast⟩ := bind_eq_ok.mp hloadedRest
  obtain ⟨market, hmarket, hsees⟩ := preExecute_eq_ok hloaded.valid hloaded.sees hpre
  have hunpacked := hloaded.unpacked
  have hstored := hloaded.stored
  have htransaction {transacted : Transacted}
      (hrest : (if before.order.kind.isSwap then
          swapTransaction oracle before market swapMarkets
        else positionTransaction oracle clock before (before.markets op.market) prices market
          swapMarkets) = .ok transacted) :
      op.transaction oracle clock before prices loaded.orderFeeDiscountFactor =
        .ok transacted := by
    simp only [ExecuteOrderOperation.transaction, ExecuteOrderOperation.openedMarkets,
      Fallible.bind_eq_ok]
    exact ⟨(), haccount, (), hnonEmpty, (), hprice, (market, swapMarkets), ⟨addresses,
      hunpacked, swapMarkets, hstored, market, hmarket, rfl⟩, hrest⟩
  split_ifs at hlast with hswap
  · obtain ⟨transacted, htransacted, houtcome, hstoredIn⟩ :=
      performSwap_eq_ok hloaded hsees hlast
    exact ⟨transacted, htransaction ((if_pos hswap).trans htransacted), houtcome,
      hstoredIn⟩
  · obtain ⟨transacted, htransacted, houtcome, hstoredIn⟩ :=
      performPositionChange_eq_ok hloaded hsees rfl hlast
    exact ⟨transacted, htransaction ((if_neg hswap).trans htransacted), houtcome,
      hstoredIn⟩

/-! ## The execution -/

theorem attempt_executed {orderFeeDiscountFactor : ℕ} {outcome : ExecuteOutcome}
    {stored : Accounts}
    (hattempt : op.attempt oracle clock leftover prices orderFeeDiscountFactor before =
      .ok outcome stored)
    (hexecuted : outcome.transferOut.executed = true) :
    ∃ transacted,
      op.transaction oracle clock before prices orderFeeDiscountFactor = .ok transacted ∧
        outcome = transacted.outcome.markExecuted ∧ transacted.StoredIn op before stored := by
  unfold ExecuteOrderOperation.attempt at hattempt
  split at hattempt
  · rename_i performed done hperform
    obtain ⟨rfl, rfl⟩ := EStateM.Result.ok.inj hattempt
    obtain ⟨transacted, htransacted, rfl, hstoredIn⟩ := performExecution_eq_ok hperform
    exact ⟨transacted, htransacted, rfl, hstoredIn⟩
  · split_ifs at hattempt
    obtain ⟨rfl, -⟩ := EStateM.Result.ok.inj hattempt
    exact absurd hexecuted (by simp)

/-- What an order that was executed has come to: its transaction on the stored accounts,
with the prices and the discount of its checks, stored in the accounts, and the removed
position closed. -/
structure IsTransaction (oracle : TimedOracle) (clock : Model.SysvarClock)
    (op : ExecuteOrderOperation) (before after : Accounts) (outcome : ExecuteOutcome)
    (prices : Model.Prices) (discount : ℕ) (transacted : Transacted) : Prop where
  validFrom : before.order.validateValidFromTs clock = .ok ()
  inTime : before.validateOracleAndAdl op oracle = .ok ()
  marketPrices : oracle.marketPrices (before.markets op.market).marketMeta = .ok prices
  orderFeeDiscount : before.validateAndGetOrderFeeDiscount = .ok discount
  transaction : op.transaction oracle clock before prices discount = .ok transacted
  outcome_eq : outcome = transacted.outcome.markExecuted
  stored : ∃ stored : Accounts, transacted.StoredIn op before stored ∧
    after = { stored with
      position := if outcome.removePosition then none else stored.position }

omit [Model.MarketNum] in
theorem isExpired_eq_ok {isExpired : Bool}
    (hexpired : before.isExpired op oracle = .ok isExpired) :
    isExpired = true ∨ before.validateOracleAndAdl op oracle = .ok () := by
  unfold Accounts.isExpired at hexpired
  split at hexpired
  · rename_i hvalid
    exact .inr hvalid
  · split_ifs at hexpired
    obtain rfl := Except.ok.inj hexpired
    exact .inl rfl

theorem Attempted.isTransaction {op : ExecuteOrderOperation}
    {before after attempted : Accounts} {outcome : ExecuteOutcome} {discount : ℕ}
    (hvalidFrom : before.order.validateValidFromTs clock = .ok ())
    (hattempted : Attempted oracle clock leftover op before after outcome prices discount
      attempted)
    (hexecuted : outcome.transferOut.executed = true) :
    ∃ prices discount transacted,
      IsTransaction oracle clock op before after outcome prices discount transacted := by
  obtain ⟨transacted, htransaction, houtcome, hstoredIn⟩ :=
    attempt_executed hattempted.attempt hexecuted
  have hinTime := (isExpired_eq_ok hattempted.isExpired).resolve_left (by simp)
  exact ⟨prices, discount, transacted, hvalidFrom, hinTime, hattempted.marketPrices,
    hattempted.orderFeeDiscount, htransaction, houtcome, attempted, hstoredIn,
    hattempted.after_eq⟩

/-- An order that was executed was attempted. -/
theorem execute_attempted {op : ExecuteOrderOperation} {before after : Accounts}
    {outcome : ExecuteOutcome}
    (hexecute : op.execute oracle clock leftover before = .ok outcome after)
    (hexecuted : outcome.transferOut.executed = true) :
    before.order.validateValidFromTs clock = .ok () ∧
      ∃ prices discount attempted, Attempted oracle clock leftover op before after outcome
        prices discount attempted := by
  obtain ⟨hvalidFrom, ⟨rfl, -⟩ | hattempted⟩ := execute_eq_ok hexecute
  · exact absurd hexecuted (by simp)
  · exact ⟨hvalidFrom, hattempted⟩

/-- An executed order is its transaction on the stored accounts, whatever the buffers and
the staging in between. -/
theorem execute_isTransaction (op : ExecuteOrderOperation) {before after : Accounts}
    {outcome : ExecuteOutcome}
    (hexecute : op.execute oracle clock leftover before = .ok outcome after)
    (hexecuted : outcome.transferOut.executed = true) :
    ∃ prices discount transacted,
      IsTransaction oracle clock op before after outcome prices discount transacted := by
  obtain ⟨hvalidFrom, prices, discount, attempted, hattempted⟩ :=
    execute_attempted hexecute hexecuted
  exact hattempted.isTransaction hvalidFrom hexecuted

end Attempt

section Store

attribute [local instance] Model.storeNumbers

/-- The accounts of an increase whose GT can be minted. -/
def mintingAccounts : Accounts :=
  { gtAccounts with store := { gtAccounts.store with gt := { GtState.zeroed with
      mintingCost := 1, growStepAmount := 1000, mintingCostGrowFactor := 10 ^ 20 } } }

/-- The collateral of an increase is swapped in another market first. -/
theorem execute_isTransaction_sample :
    ∃ outcome after, ExecuteOrderOperation.execute gtOracle ⟨5, 5⟩ (fun _ => [])
        ⟨100, [some 200], false⟩ mintingAccounts = .ok outcome after ∧
      ∃ prices discount transacted, IsTransaction gtOracle ⟨5, 5⟩ ⟨100, [some 200], false⟩
        mintingAccounts after outcome prices discount transacted := by
  have houtcome : outcomeOf (ExecuteOrderOperation.execute gtOracle ⟨5, 5⟩ (fun _ => [])
      ⟨100, [some 200], false⟩ mintingAccounts) = .ok ⟨false, { executed := true }, true⟩ := by
    decide +kernel
  obtain ⟨after, hexecute⟩ := exists_ok_of_outcomeOf houtcome
  exact ⟨_, after, hexecute,
    execute_isTransaction ⟨100, [some 200], false⟩ hexecute rfl⟩

end Store

end Gmsol.Ops
