import Gmsol.Ops.ExecuteOrder

/-!
# Failed attempts leave no trace

What an attempt changes before it commits is in the buffers of the loaded markets, in its
copy of the position and in the event buffer, none of which a later operation reads.  The
processing of GT is the only change in place that could be read, and it is the last step
that can fail; it fails before it has changed anything.
-/

namespace Gmsol.Ops

open Fallible Container Mutation Store SwapPath

/-! ## What later operations read -/

/-- The accounts without the buffers of the markets and without the event buffer. -/
structure Committed where
  info : Pubkey → MarketInfo
  state : Pubkey → Store.State
  position : Option PositionAccount
  order : OrderAccount
  store : StoreAccount
  user : UserHeader
  isReferred : Bool

def Accounts.committed (accounts : Accounts) : Committed where
  info address := (accounts.markets address).toMarketInfo
  state address := (accounts.markets address).market.state
  position := accounts.position
  order := accounts.order
  store := accounts.store
  user := accounts.user
  isReferred := accounts.isReferred

def Attempt.committed (attempt : Attempt) : Committed := attempt.accounts.committed

/-- The fixed parts and the stored state of a market account stay the same. -/
structure MarketAccount.SameStored (before after : MarketAccount) : Prop where
  info : after.toMarketInfo = before.toMarketInfo
  state : after.market.state = before.market.state

namespace MarketAccount.SameStored

variable {account : MarketAccount}

theorem refl (account : MarketAccount) : account.SameStored account := ⟨rfl, rfl⟩

theorem access (account : MarketAccount) (accesses : List Access) :
    account.SameStored (account.access accesses) :=
  ⟨rfl, state_access accesses⟩

theorem stage (account : MarketAccount) (market : RevertibleMarket) :
    account.SameStored (account.stage market) :=
  access account _

theorem start {started : MarketAccount} (hstart : account.start = .ok started) :
    account.SameStored started := by
  obtain ⟨-, hinfo, hstate⟩ := start_eq_ok hstart
  exact ⟨hinfo, hstate⟩

end MarketAccount.SameStored

theorem committed_updateMarkets (attempt : Attempt)
    {change : Pubkey → MarketAccount → MarketAccount}
    (hsame : ∀ address, (attempt.accounts.markets address).SameStored
      (change address (attempt.accounts.markets address))) :
    (attempt.updateMarkets change).committed = attempt.committed := by
  simp only [Attempt.committed, Accounts.committed, Attempt.updateMarkets]
  congr 1
  · funext address
    exact (hsame address).info
  · funext address
    exact (hsame address).state

theorem committed_setMarket {attempt : Attempt} {address : Pubkey} {account : MarketAccount}
    (hsame : (attempt.accounts.markets address).SameStored account) :
    (setMarket address account attempt).committed = attempt.committed := by
  apply committed_updateMarkets
  intro other
  split_ifs with hother
  · rw [hother]
    exact hsame
  · exact .refl _

theorem committed_stageMarkets {α : Type} (loaded : Loaded) (stage : Stage α)
    (attempt : Attempt) :
    (stageMarkets loaded stage attempt).committed = attempt.committed := by
  apply committed_updateMarkets
  intro address
  split_ifs
  · exact .stage _ _
  · cases (loaded.tokenAt address).bind stage.swapMarkets.get with
    | none => exact .refl _
    | some market => exact .stage _ market

theorem committed_abandonMarkets (leftover : Pubkey → List Access) (loaded : Loaded)
    (attempt : Attempt) :
    (abandonMarkets leftover loaded attempt).committed = attempt.committed := by
  apply committed_updateMarkets
  intro address
  split_ifs
  · exact .access _ _
  · exact .refl _

/-! ## Steps of an attempt -/

section Steps

variable {clock : Model.SysvarClock} {leftover : Pubkey → List Access}

theorem startMarket_unobserved (address : Pubkey) :
    Unobserved Attempt.committed (startMarket address) := by
  apply unobserved_get_bind
  intro attempt
  apply observe_lift_bind
  intro started hstart
  exact committed_setMarket (.start hstart)

theorem insertLoader_unobserved (store currentMarketToken : Pubkey)
    (markets : IndexMap Pubkey Pubkey) (address : Pubkey) :
    Unobserved Attempt.committed
      (insertLoader store currentMarketToken markets address) := by
  apply readOnly_get.unobserved.bind
  intro attempt
  apply (readOnly_lift _).unobserved.bind
  intro _
  split
  · apply (readOnly_lift _).unobserved.bind
    intro _
    exact (startMarket_unobserved address).bind fun _ => unobserved_pure _
  · exact (readOnly_lift _).unobserved

theorem loadMarkets_unobserved (op : ExecuteOrderOperation) (orderFeeDiscountFactor : ℕ) :
    Unobserved Attempt.committed (op.loadMarkets orderFeeDiscountFactor) := by
  apply (startMarket_unobserved op.market).bind
  intro _
  apply readOnly_get.unobserved.bind
  intro attempt
  apply (readOnly_lift _).unobserved.bind
  intro addresses
  apply Unobserved.bind
  · exact .foldlM (insertLoader_unobserved _ _) addresses _
  · exact fun _ => unobserved_pure _

/-- Steps on the markets only change buffers, whether they fail or not. -/
theorem onMarkets_unobserved {α : Type} (loaded : Loaded)
    (step : RevertibleMarket → SwapMarkets → Store.Result (Stage α)) :
    Unobserved Attempt.committed (onMarkets clock leftover loaded step) := by
  intro attempt
  unfold onMarkets
  split
  · exact committed_stageMarkets loaded _ attempt
  · exact committed_abandonMarkets leftover loaded attempt

theorem onEvent_unobserved (computation : EStateM CoreError TradeData Unit) :
    Unobserved Attempt.committed (onEvent computation) := by
  intro attempt
  unfold onEvent
  split
  · rfl
  · split <;> rfl

theorem throwUnlessMarket_unobserved (check : Store.Result Unit) :
    Unobserved Attempt.committed (throwUnlessMarket check) := by
  intro attempt
  unfold throwUnlessMarket
  split <;> rfl

theorem validateOrder_unobserved (prices : Model.Prices) :
    Unobserved Attempt.committed (validateOrder prices) := by
  apply readOnly_get.unobserved.bind
  intro attempt
  apply (readOnly_lift _).unobserved.bind
  intro _
  exact throwUnlessMarket_unobserved _

theorem loadPosition_unobserved (loaded : Loaded) :
    Unobserved Attempt.committed (loadPosition loaded) := by
  apply readOnly_get.unobserved.bind
  intro attempt
  apply (readOnly_lift _).unobserved.bind
  intro position
  apply (readOnly_lift _).unobserved.bind
  intro _
  apply (readOnly_lift _).unobserved.bind
  intro _
  apply (onEvent_unobserved _).bind
  intro _
  apply (readOnly_lift _).unobserved.bind
  intro revertible
  apply (readOnly_lift _).unobserved.bind
  intro _
  exact unobserved_pure _

variable [Model.MarketNum] {oracle : TimedOracle}

theorem preExecute_unobserved (loaded : Loaded) (prices : Model.Prices) :
    Unobserved Attempt.committed (preExecute clock leftover loaded prices) := by
  apply (onMarkets_unobserved loaded _).bind
  intro _
  apply (onMarkets_unobserved loaded _).bind
  intro _
  exact onMarkets_unobserved loaded _

theorem executeSwap_unobserved (loaded : Loaded) :
    Unobserved Attempt.committed (executeSwap oracle clock leftover loaded) := by
  apply readOnly_get.unobserved.bind
  intro attempt
  apply (readOnly_lift _).unobserved.bind
  intro swapOutToken
  apply (onMarkets_unobserved loaded _).bind
  intro swapOutAmount
  apply (throwUnlessMarket_unobserved _).bind
  intro _
  exact (readOnly_lift _).unobserved

/-! ## The attempt -/

/-- The processing of GT fails before it has changed the store or the user. -/
theorem processGt_hidesErrors (isGtMintingEnabled : Bool) (paidFeeValue : ℕ) :
    HidesErrors Attempt.committed (processGt clock isGtMintingEnabled paidFeeValue) := by
  unfold processGt
  split_ifs
  · apply HidesErrors.bind_infallible
    · exact (uncheckedProcessGt_keepsOnError _ _).zoom_hidesErrors fun _ => rfl
    · exact fun _ => infallible_pure ()
  · exact (unobserved_pure ()).hidesErrors

/-- Nothing that can fail comes after the first commit. -/
theorem performSwap_hidesErrors (loaded : Loaded) :
    HidesErrors Attempt.committed (performSwap oracle clock leftover loaded) := by
  apply (executeSwap_unobserved loaded).hidesErrors.bind_infallible
  intro transferOut
  apply (infallible_modify _).bind
  intro _
  exact (infallible_modify _).bind fun _ => infallible_pure _

theorem performPositionChange_hidesErrors (loaded : Loaded) (prices : Model.Prices)
    (isGtMintingEnabled : Bool) :
    HidesErrors Attempt.committed
      (performPositionChange oracle clock leftover loaded prices isGtMintingEnabled) := by
  apply (loadPosition_unobserved loaded).bind_hidesErrors
  intro position
  apply readOnly_get.unobserved.bind_hidesErrors
  intro attempt
  apply (onMarkets_unobserved loaded _).bind_hidesErrors
  intro changed
  apply (onEvent_unobserved _).bind_hidesErrors
  intro _
  apply (processGt_hidesErrors isGtMintingEnabled _).bind_infallible
  intro _
  apply (infallible_modify _).bind
  intro _
  apply (infallible_modify _).bind
  intro _
  exact (infallible_modify _).bind fun _ => infallible_pure _

theorem performExecution_hidesErrors (op : ExecuteOrderOperation) (prices : Model.Prices)
    (orderFeeDiscountFactor : ℕ) :
    HidesErrors Attempt.committed
      (performExecution oracle clock leftover op prices orderFeeDiscountFactor) := by
  apply readOnly_get.unobserved.bind_hidesErrors
  intro attempt
  apply (readOnly_lift _).unobserved.bind_hidesErrors
  intro _
  apply (validateOrder_unobserved prices).bind_hidesErrors
  intro _
  apply (loadMarkets_unobserved op _).bind_hidesErrors
  intro loaded
  apply (preExecute_unobserved loaded prices).bind_hidesErrors
  intro _
  split_ifs
  · exact performSwap_hidesErrors loaded
  · exact performPositionChange_hidesErrors loaded prices _

end Steps

/-! ## The execution -/

/-- No later operations on a market can tell which of two accounts they work on. -/
structure MarketAccount.Indistinguishable (before after : MarketAccount) : Prop
    extends before.SameStored after where
  later : ∀ operations last afterLast readings afterReadings,
    before.market.performAll operations = some (last, readings) →
      after.market.performAll operations = some (afterLast, afterReadings) →
        afterReadings = readings ∧ afterLast.state.contents = last.state.contents

theorem MarketAccount.SameStored.indistinguishable {before after : MarketAccount}
    (hsame : before.SameStored after) : before.Indistinguishable after where
  toSameStored := hsame
  later := by
    intro operations last afterLast readings afterReadings hbefore hafter
    obtain ⟨-, hcontents, rfl⟩ := Store.Market.performAll_refines before.tagged hbefore
    obtain ⟨-, hafterContents, rfl⟩ := Store.Market.performAll_refines after.tagged hafter
    rw [hsame.state] at hafterContents ⊢
    exact ⟨rfl, hafterContents.trans hcontents.symm⟩

/-- What later operations read is as before the execution, except that an empty position
is closed; nothing is to be transferred out. -/
structure NoTrace (before after : Accounts) (outcome : ExecuteOutcome) : Prop where
  markets : ∀ address, (before.markets address).Indistinguishable (after.markets address)
  position : after.position = if outcome.removePosition then none else before.position
  removed : outcome.removePosition = true → before.isPositionEmpty = true
  order : after.order = before.order
  store : after.store = before.store
  user : after.user = before.user
  isReferred : after.isReferred = before.isReferred
  transferOut : outcome.transferOut = {}
  shouldSendTradeEvent : outcome.shouldSendTradeEvent = false

theorem NoTrace.of_committed {before stopped after : Accounts} {outcome : ExecuteOutcome}
    (hsame : stopped.committed = before.committed)
    (hafter : after = { stopped with
      position := if outcome.removePosition then none else stopped.position })
    (hremoved : outcome.removePosition = true → stopped.isPositionEmpty = true)
    (hout : outcome.transferOut = {}) (hevent : outcome.shouldSendTradeEvent = false) :
    NoTrace before after outcome := by
  have hposition : stopped.position = before.position := congrArg Committed.position hsame
  subst hafter
  refine ⟨fun address => ?_, ?_, fun hremove => ?_, congrArg Committed.order hsame,
    congrArg Committed.store hsame, congrArg Committed.user hsame,
    congrArg Committed.isReferred hsame, hout, hevent⟩
  · apply MarketAccount.SameStored.indistinguishable
    exact ⟨congrFun (congrArg Committed.info hsame) address,
      congrFun (congrArg Committed.state hsame) address⟩
  · rw [hposition]
  · have hempty := hremoved hremove
    unfold Accounts.isPositionEmpty at hempty ⊢
    rwa [hposition] at hempty

section Execution

variable [Model.MarketNum] {oracle : TimedOracle} {clock : Model.SysvarClock}
  {leftover : Pubkey → List Access}

/-- An attempt whose error is swallowed is observed only by the empty position that it
leaves to be closed. -/
theorem attempt_swallowed {op : ExecuteOrderOperation} {prices : Model.Prices}
    {orderFeeDiscountFactor : ℕ} {before stopped : Accounts} {outcome : ExecuteOutcome}
    (hattempt : op.attempt oracle clock leftover prices orderFeeDiscountFactor before =
      .ok outcome stopped)
    (hfailed : outcome.transferOut.executed = false) :
    stopped.committed = before.committed ∧
      outcome = ⟨stopped.isPositionEmpty, {}, false⟩ := by
  unfold ExecuteOrderOperation.attempt at hattempt
  split at hattempt
  · obtain ⟨rfl, -⟩ := EStateM.Result.ok.inj hattempt
    exact absurd hfailed (by simp)
  · rename_i failure last hperform
    split_ifs at hattempt
    obtain ⟨rfl, rfl⟩ := EStateM.Result.ok.inj hattempt
    exact ⟨performExecution_hidesErrors op prices _ _ failure last hperform, rfl⟩

omit [Model.MarketNum] in
theorem closeRemoved_eq_ok {removePosition : Bool} {before after : Accounts}
    (hclose : closeRemoved removePosition before = .ok () after) :
    after = { before with
      position := if removePosition then none else before.position } := by
  cases removePosition with
  | false => exact (EStateM.Result.ok.inj hclose).2.symm
  | true =>
      obtain ⟨_, _, hread, hrest⟩ := bind_eq_ok.mp hclose
      obtain ⟨rfl, rfl⟩ := EStateM.Result.ok.inj hread
      obtain ⟨_, _, hcheck, hwrite⟩ := bind_eq_ok.mp hrest
      obtain ⟨-, rfl⟩ := lift_eq_ok.mp hcheck
      exact (EStateM.Result.ok.inj hwrite).2.symm

omit [Model.MarketNum] in
/-- A position that is found to be empty can be closed. -/
theorem closeRemoved_isPositionEmpty (accounts : Accounts) :
    closeRemoved accounts.isPositionEmpty accounts = .ok () { accounts with
      position := if accounts.isPositionEmpty then none else accounts.position } := by
  cases hempty : accounts.isPositionEmpty with
  | false => rfl
  | true =>
      obtain ⟨position, hposition, -⟩ := (Option.any_eq_true _ _).mp hempty
      refine bind_eq_ok.mpr ⟨accounts, accounts, rfl, bind_eq_ok.mpr ⟨(), accounts, ?_, rfl⟩⟩
      rw [lift_eq_ok, ensure_eq_ok, hposition]
      exact ⟨rfl, rfl⟩

/-- The attempt to execute an order stops with an error that is swallowed. -/
structure ExecuteOrderOperation.Swallows (oracle : TimedOracle) (clock : Model.SysvarClock)
    (leftover : Pubkey → List Access) (op : ExecuteOrderOperation) (before : Accounts)
    (prices : Model.Prices) (discount : ℕ) (failure : CoreError) (stopped : Attempt) :
    Prop where
  validFrom : before.order.validateValidFromTs clock = .ok ()
  isExpired : before.isExpired op oracle = .ok false
  marketPrices : oracle.marketPrices (before.markets op.market).marketMeta = .ok prices
  orderFeeDiscount : before.validateAndGetOrderFeeDiscount = .ok discount
  fails : performExecution oracle clock leftover op prices discount ⟨before, false⟩ =
    .error failure stopped
  failure_ne : failure ≠ .panic
  shouldThrowError : stopped.shouldThrowError = false
  throwOnExecutionError : op.throwOnExecutionError = false

theorem ExecuteOrderOperation.Swallows.attempt_eq {op : ExecuteOrderOperation}
    {before : Accounts} {prices : Model.Prices} {discount : ℕ} {failure : CoreError}
    {stopped : Attempt}
    (hswallows : op.Swallows oracle clock leftover before prices discount failure stopped) :
    op.attempt oracle clock leftover prices discount before =
      .ok ⟨stopped.accounts.isPositionEmpty, {}, false⟩ stopped.accounts := by
  rw [ExecuteOrderOperation.attempt, hswallows.fails]
  exact if_neg (by
    simp [hswallows.failure_ne, hswallows.shouldThrowError, hswallows.throwOnExecutionError])

/-- An execution that swallows the error of its attempt succeeds and leaves no trace, at
whichever step the attempt has failed. -/
theorem swallowedError_leavesNoTrace {op : ExecuteOrderOperation} {before : Accounts}
    {prices : Model.Prices} {discount : ℕ} {failure : CoreError} {stopped : Attempt}
    (hswallows : op.Swallows oracle clock leftover before prices discount failure stopped) :
    ∃ after, op.execute oracle clock leftover before =
        .ok ⟨before.isPositionEmpty, {}, false⟩ after ∧
      NoTrace before after ⟨before.isPositionEmpty, {}, false⟩ := by
  have hsame : stopped.accounts.committed = before.committed :=
    performExecution_hidesErrors op prices discount _ failure stopped hswallows.fails
  have hposition : stopped.accounts.position = before.position :=
    congrArg Committed.position hsame
  have hempty : stopped.accounts.isPositionEmpty = before.isPositionEmpty := by
    rw [Accounts.isPositionEmpty, hposition, Accounts.isPositionEmpty]
  have hattempt := hswallows.attempt_eq
  have hclose := closeRemoved_isPositionEmpty stopped.accounts
  rw [hempty] at hattempt hclose
  refine ⟨_, ?_, .of_committed hsame rfl (fun hremove => hempty.trans hremove) rfl rfl⟩
  simp only [ExecuteOrderOperation.execute, get_bind_eq_ok, lift_bind_eq_ok]
  refine ⟨(), hswallows.validFrom, false, hswallows.isExpired, ?_⟩
  rw [if_neg Bool.false_ne_true]
  refine lift_bind_eq_ok.mpr ⟨prices, hswallows.marketPrices, ?_⟩
  refine lift_bind_eq_ok.mpr ⟨discount, hswallows.orderFeeDiscount, ?_⟩
  refine Mutation.bind_eq_ok.mpr ⟨_, _, hattempt, ?_⟩
  exact Mutation.bind_eq_ok.mpr ⟨(), _, hclose, rfl⟩

/-- What an attempt was made with, and what it has left before a removed position was
closed. -/
structure Attempted (oracle : TimedOracle) (clock : Model.SysvarClock)
    (leftover : Pubkey → List Access) (op : ExecuteOrderOperation)
    (before after : Accounts) (outcome : ExecuteOutcome) (prices : Model.Prices)
    (discount : ℕ) (attempted : Accounts) : Prop where
  isExpired : before.isExpired op oracle = .ok false
  marketPrices : oracle.marketPrices (before.markets op.market).marketMeta = .ok prices
  orderFeeDiscount : before.validateAndGetOrderFeeDiscount = .ok discount
  attempt : op.attempt oracle clock leftover prices discount before = .ok outcome attempted
  after_eq : after = { attempted with
    position := if outcome.removePosition then none else attempted.position }

/-- An execution that returns has found the order expired, or has made an attempt. -/
theorem execute_eq_ok {op : ExecuteOrderOperation} {before after : Accounts}
    {outcome : ExecuteOutcome}
    (hexecute : op.execute oracle clock leftover before = .ok outcome after) :
    before.order.validateValidFromTs clock = .ok () ∧
      (outcome = ⟨false, {}, false⟩ ∧ after = before ∨
        ∃ prices discount attempted, Attempted oracle clock leftover op before after outcome
          prices discount attempted) := by
  obtain ⟨_, _, hread, hrest⟩ := bind_eq_ok.mp hexecute
  obtain ⟨rfl, rfl⟩ := EStateM.Result.ok.inj hread
  obtain ⟨_, _, hvalid, hchecked⟩ := bind_eq_ok.mp hrest
  obtain ⟨hvalidFrom, rfl⟩ := lift_eq_ok.mp hvalid
  obtain ⟨isExpired, _, hexpired, hbranch⟩ := bind_eq_ok.mp hchecked
  obtain ⟨hexpired, rfl⟩ := lift_eq_ok.mp hexpired
  refine ⟨hvalidFrom, ?_⟩
  cases isExpired with
  | true =>
      obtain ⟨rfl, rfl⟩ := EStateM.Result.ok.inj hbranch
      exact .inl ⟨rfl, rfl⟩
  | false =>
      obtain ⟨prices, _, hpriced, hgiven⟩ := bind_eq_ok.mp hbranch
      obtain ⟨hprices, rfl⟩ := lift_eq_ok.mp hpriced
      obtain ⟨discount, _, hdiscounted, hready⟩ := bind_eq_ok.mp hgiven
      obtain ⟨hdiscount, rfl⟩ := lift_eq_ok.mp hdiscounted
      obtain ⟨_, attempted, hattempt, hattempted⟩ := bind_eq_ok.mp hready
      obtain ⟨_, closed, hclose, hreturn⟩ := bind_eq_ok.mp hattempted
      obtain ⟨rfl, rfl⟩ := EStateM.Result.ok.inj hreturn
      exact .inr ⟨prices, discount, attempted, hexpired, hprices, hdiscount, hattempt,
        closeRemoved_eq_ok hclose⟩

/-- An attempt that has failed leaves no trace. -/
theorem Attempted.noTrace {op : ExecuteOrderOperation} {before after attempted : Accounts}
    {outcome : ExecuteOutcome} {prices : Model.Prices} {discount : ℕ}
    (hattempted : Attempted oracle clock leftover op before after outcome prices discount
      attempted)
    (hfailed : outcome.transferOut.executed = false) : NoTrace before after outcome := by
  obtain ⟨hsame, houtcome⟩ := attempt_swallowed hattempted.attempt hfailed
  apply NoTrace.of_committed hsame hattempted.after_eq
  · exact fun hremove => by rwa [houtcome] at hremove
  · rw [houtcome]
  · rw [houtcome]

omit [Model.MarketNum] in
theorem NoTrace.expired (before : Accounts) :
    NoTrace before before ⟨false, {}, false⟩ :=
  .of_committed rfl rfl (fun hremove => absurd hremove (by simp)) rfl rfl

/-- An execution that returns without having executed the order leaves no trace, no matter
at which step its attempt failed and what the steps had staged by then. -/
theorem execute_leavesNoTrace (op : ExecuteOrderOperation) {before after : Accounts}
    {outcome : ExecuteOutcome}
    (hexecute : op.execute oracle clock leftover before = .ok outcome after)
    (hfailed : outcome.transferOut.executed = false) : NoTrace before after outcome := by
  obtain ⟨-, ⟨rfl, rfl⟩ | ⟨prices, discount, attempted, hattempted⟩⟩ := execute_eq_ok hexecute
  · exact .expired after
  · exact hattempted.noTrace hfailed

end Execution

/-! ## An increase whose GT cannot be minted -/

section Store

attribute [local instance] Model.storeNumbers

/-- A market of the tokens 2 and 3 with 1000 of each in its pool, and an order fee of a
tenth. -/
def gtMarket (marketToken : Pubkey) (shortTokenBalance : ℕ) : MarketAccount where
  store := 0
  marketMeta := ⟨marketToken, 9, 2, 3⟩
  config := { Model.MarketConfig.unrestricted with
    orderFeeParams := ⟨10 ^ 19, 10 ^ 19, 0, none⟩ }
  isEnabled := true
  isGtMintingEnabled := true
  isAdlEnabled := fun _ => false
  totalSupply := 0
  market :=
    { state :=
        { pools := fun kind =>
            ⟨0, if kind = .primary then ⟨false, 1000, 1000⟩ else ⟨false, 0, 0⟩⟩
          clocks := ⟨0, ⟨0, 0, 0, 0, 0⟩⟩
          other := ⟨0, ⟨0, 1000, shortTokenBalance, 0⟩⟩ }
      buffer := .init }
  tagged := RevertibleBuffer.tagged_init

def emptyState : PositionState := ⟨0, 0, 0, 0, 0, 0, 0, 0, 0, 0, 0⟩

/-- The cost of minting GT is zero, which is refused when it is about to be minted. -/
def gtAccounts : Accounts where
  markets address := if address = 200 then gtMarket 200 1100 else gtMarket 100 1000
  position := some ⟨0, .long, 100, 2, emptyState⟩
  event := some ⟨0, false, 0, emptyState, emptyState⟩
  order :=
    { params := ⟨.marketIncrease, true, .noSwap, 100, 480, 0, 100⟩
      swap := ⟨1, 0, 0, 100, Vector.replicate _ 200, Vector.replicate _ 0⟩
      tokens := ⟨none, some 2, some 3⟩
      actionState := .pending
      rentReceiver := 0
      updatedAt := 0
      updatedAtSlot := 0
      initialCollateralToken := some 3
      triggerPrice := 0
      validFromTs := 0
      gtReward := 0 }
  store := ⟨0, .zeroed, 100, 0, 0⟩
  user := ⟨true, ⟨0, 0, 0, 0, 0, 0⟩⟩
  isReferred := false

def gtOracle : TimedOracle where
  primary _ := some ⟨⟨10, 10⟩, false⟩
  minOracleSlot := some 5
  minOracleTs := 5
  maxOracleTs := 5

/-- The GT cannot be minted for the fees of an increase that was staged. -/
theorem swallowedError_leavesNoTrace_sample :
    ∃ after, ExecuteOrderOperation.execute gtOracle ⟨5, 5⟩ (fun _ => [])
        ⟨100, [some 200], false⟩ gtAccounts = .ok ⟨true, {}, false⟩ after ∧
      NoTrace gtAccounts after ⟨true, {}, false⟩ := by
  obtain ⟨⟨failure, stopped⟩, hfailed, hfailure, hflag⟩ :
      ∃ stop, failureOf (performExecution gtOracle ⟨5, 5⟩ (fun _ => [])
          ⟨100, [some 200], false⟩ ⟨⟨10, 10⟩, ⟨10, 10⟩, ⟨10, 10⟩⟩ 0 ⟨gtAccounts, false⟩) =
            some stop ∧ stop.1 = .invalidGTConfig ∧ stop.2.shouldThrowError = false :=
    exists_of_any (by decide +kernel)
  obtain rfl : failure = .invalidGTConfig := hfailure
  exact swallowedError_leavesNoTrace {
    validFrom := by decide +kernel
    isExpired := by decide +kernel
    marketPrices := by decide +kernel
    orderFeeDiscount := by decide +kernel
    fails := failureOf_eq_some.mp hfailed
    failure_ne := by decide
    shouldThrowError := hflag
    throwOnExecutionError := rfl }

/-- The swap and the increase have been staged when the attempt fails; the new position is
empty in its account, which is closed. -/
theorem execute_leavesNoTrace_sample :
    outcomeOf (performExecution gtOracle ⟨5, 5⟩ (fun _ => []) ⟨100, [some 200], false⟩
        ⟨⟨10, 10⟩, ⟨10, 10⟩, ⟨10, 10⟩⟩ 0 ⟨gtAccounts, false⟩) = .error .invalidGTConfig ∧
      ∃ outcome after, ExecuteOrderOperation.execute gtOracle ⟨5, 5⟩ (fun _ => [])
          ⟨100, [some 200], false⟩ gtAccounts = .ok outcome after ∧
        NoTrace gtAccounts after outcome ∧ after.position = none := by
  have houtcome : outcomeOf (ExecuteOrderOperation.execute gtOracle ⟨5, 5⟩ (fun _ => [])
      ⟨100, [some 200], false⟩ gtAccounts) = .ok ⟨true, {}, false⟩ := by decide +kernel
  obtain ⟨after, hexecute⟩ := exists_ok_of_outcomeOf houtcome
  have htrace := execute_leavesNoTrace ⟨100, [some 200], false⟩ hexecute rfl
  exact ⟨by decide +kernel, _, after, hexecute, htrace, htrace.position⟩

end Store

end Gmsol.Ops
