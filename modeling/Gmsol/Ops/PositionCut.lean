import Gmsol.Ops.OrderLimits
import Gmsol.Ops.Settlement

/-!
# Cutting positions

A keeper may cut the position of anyone: it is liquidated, or reduced because the profits
of its side have grown too large.  The keeper makes an order for it, executes this order at
once, and sends what it pays out to the owner.
-/

namespace Gmsol.Ops

open Fallible Container Store SwapPath

/-! ## Creating a decrease order -/

structure CreateOrderParams where
  kind : OrderKind
  decreasePositionSwapType : Option Model.DecreasePositionSwapType
  swapPathLength : ℕ
  initialCollateralDeltaAmount : ℕ
  sizeDeltaValue : ℕ
  isLong : Bool
  isCollateralLong : Bool
  minOutput : Option ℕ
  triggerPrice : Option ℕ
  acceptablePrice : Option ℕ
  validFromTs : Option ℤ

section Create

variable [Model.MarketNum]

/-- The parameters of a decrease order, its trigger price, and the time from which it is
valid. -/
def initDecrease (create : CreateOrderParams) : Store.Result (OrderActionParams × ℕ × ℤ) :=
  let params : OrderActionParams :=
    { kind := create.kind
      isLong := create.isLong
      decreasePositionSwapType := create.decreasePositionSwapType.getD .noSwap
      initialCollateralDeltaAmount := create.initialCollateralDeltaAmount
      sizeDeltaValue := create.sizeDeltaValue
      minOutput := create.minOutput.getD 0
      acceptablePrice :=
        create.acceptablePrice.getD (if create.isLong then 0 else Model.maxUnsigned) }
  match create.kind with
  | .marketDecrease | .liquidation | .autoDeleveraging => do
    ensure (create.triggerPrice = none) .invalidTriggerPrice
    return (params, 0, 0)
  | .limitDecrease | .stopLossDecrease => do
    let triggerPrice ← okOr create.triggerPrice .invalidTriggerPrice
    return (params, triggerPrice, create.validFromTs.getD 0)
  | .marketSwap | .marketIncrease | .limitSwap | .limitIncrease => .error .internal

/-- The swap parameters of an order account that was just allocated. -/
def zeroedSwap : SwapActionParams where
  primaryLength := 0
  secondaryLength := 0
  numTokens := 0
  currentMarketToken := 0
  paths := Vector.replicate _ 0
  tokens := Vector.replicate _ 0

/-- The accounts of the creation of a decrease order, with the mints of its token
accounts. -/
structure CreateDecreaseOrderOperation where
  store : Pubkey
  owner : Pubkey
  market : MarketAccount
  position : PositionAccount
  finalOutputToken : Pubkey
  longToken : Pubkey
  shortToken : Pubkey
  params : CreateOrderParams
  swapPath : List AccountInfo

namespace CreateDecreaseOrderOperation

/-- An empty market decrease order is allowed: it claims the funding rebates. -/
def validateParamsExcludingSwap (op : CreateDecreaseOrderOperation) :
    Store.Result Unit := do
  let params := op.params
  ensure (params.kind.isDecreasePosition = true) .internal
  ensure (params.sizeDeltaValue ≠ 0 ∨ params.initialCollateralDeltaAmount ≠ 0 ∨
    params.kind.isMarketDecrease) .emptyOrder
  ensure (op.market.marketMeta.longTokenMint = op.longToken) .tokenMintMismatched
  ensure (op.market.marketMeta.shortTokenMint = op.shortToken) .tokenMintMismatched
  op.position.validateForMarket op.market

def execute (clock : Model.SysvarClock) (addresses : Addresses)
    (op : CreateDecreaseOrderOperation) : Store.Result OrderAccount := do
  op.market.validate op.store
  op.validateParamsExcludingSwap
  let collateralToken := op.market.marketMeta.pnlToken op.params.isCollateralLong
  let params ← initDecrease op.params
  -- The secondary path is ignored.
  let swap ← zeroedSwap.validateAndInit addresses op.market.marketMeta
    op.params.swapPathLength 0 op.swapPath op.store
    (collateralToken, collateralToken) (op.finalOutputToken, collateralToken)
  return {
    params := params.1
    swap
    tokens := ⟨some op.finalOutputToken, some op.longToken, some op.shortToken⟩
    actionState := .pending
    rentReceiver := op.owner
    updatedAt := clock.unixTimestamp
    updatedAtSlot := clock.slot
    initialCollateralToken := none
    triggerPrice := params.2.1
    validFromTs := params.2.2
    gtReward := 0 }

end CreateDecreaseOrderOperation

/-! ## Cutting -/

inductive PositionCutKind
  | liquidate
  | autoDeleverage (delta : ℕ)
  deriving DecidableEq, Repr

namespace PositionCutKind

def sizeDeltaUsd : PositionCutKind → ℕ → ℕ
  | liquidate, sizeInUsd => sizeInUsd
  | autoDeleverage delta, sizeInUsd => min sizeInUsd delta

def toOrderKind : PositionCutKind → OrderKind
  | liquidate => .liquidation
  | autoDeleverage _ => .autoDeleveraging

/-- The type of the decrease that the kind leads to. -/
def secondaryOrderType : PositionCutKind → SecondaryOrderType
  | liquidate => .liquidation
  | autoDeleverage _ => .autoDeleveraging

omit [Model.MarketNum] in
theorem isDecreasePosition_toOrderKind (kind : PositionCutKind) :
    kind.toOrderKind.isDecreasePosition = true := by
  cases kind <;> rfl

omit [Model.MarketNum] in
theorem secondaryOrderType_toOrderKind (kind : PositionCutKind) :
    kind.toOrderKind.secondaryOrderType = some kind.secondaryOrderType := by
  cases kind <;> rfl

end PositionCutKind

/-- The token accounts are those of the tokens of the market. -/
structure PositionCutOperation where
  kind : PositionCutKind
  executor : Pubkey
  owner : Pubkey
  market : Pubkey
  longToken : Pubkey
  shortToken : Pubkey
  longTokenAccount : Pubkey
  shortTokenAccount : Pubkey
  longTokenVault : Pubkey
  shortTokenVault : Pubkey
  claimableLongTokenAccountForUser : Pubkey
  claimableShortTokenAccountForUser : Pubkey
  claimablePnlTokenAccountForHolding : Pubkey

/-- What a cut returns, and the transfers that it has made. -/
structure CutOutcome where
  shouldSendTradeEvent : Bool
  sent : List Transfer
  deriving DecidableEq, Repr

namespace PositionCutOperation

/-- The order for a position. -/
def createOrder (clock : Model.SysvarClock) (addresses : Addresses)
    (op : PositionCutOperation) (accounts : Accounts) (position : PositionAccount)
    (isLong isCollateralLong : Bool) : Store.Result OrderAccount :=
  CreateDecreaseOrderOperation.execute clock addresses {
    store := accounts.store.key
    owner := op.owner
    market := accounts.markets op.market
    position
    finalOutputToken := if isCollateralLong then op.longToken else op.shortToken
    longToken := op.longToken
    shortToken := op.shortToken
    params :=
      { kind := op.kind.toOrderKind
        decreasePositionSwapType := some .pnlTokenToCollateralToken
        swapPathLength := 0
        initialCollateralDeltaAmount := 0
        sizeDeltaValue := op.kind.sizeDeltaUsd position.state.sizeInUsd
        isLong
        isCollateralLong
        minOutput := none
        triggerPrice := none
        acceptablePrice := none
        validFromTs := none }
    swapPath := [] }

/-- Without swap markets, and with every error thrown. -/
def executeOrderOperation (op : PositionCutOperation) : ExecuteOrderOperation :=
  ⟨op.market, [], true⟩

/-- The order is completed.  Unless the position is removed, its rent goes to the
executor. -/
def completeOrder (op : PositionCutOperation) (isPositionRemoved : Bool)
    (order : OrderAccount) : Store.Result OrderAccount := do
  let completed ← order.completed
  return if isPositionRemoved then completed
    else { completed with rentReceiver := op.executor }

/-- The final output is sent in the collateral token. -/
def processTransferOutOperation (op : PositionCutOperation) (store market : Pubkey)
    (transferOut : TransferOut) (isLong isCollateralLong : Bool) :
    ProcessTransferOutOperation where
  store := store
  market := market
  isPnlTokenLongToken := isLong
  finalOutputMarket := some market
  finalOutputToken := some (if isCollateralLong then op.longToken else op.shortToken)
  finalOutputTokenVault :=
    some (if isCollateralLong then op.longTokenVault else op.shortTokenVault)
  finalOutputTokenAccount :=
    some (if isCollateralLong then op.longTokenAccount else op.shortTokenAccount)
  longToken := some op.longToken
  longTokenVault := some op.longTokenVault
  longTokenAccount := some op.longTokenAccount
  shortToken := some op.shortToken
  shortTokenVault := some op.shortTokenVault
  shortTokenAccount := some op.shortTokenAccount
  claimableLongTokenAccountForUser := some op.claimableLongTokenAccountForUser
  claimableShortTokenAccountForUser := some op.claimableShortTokenAccountForUser
  claimablePnlTokenAccountForHolding := some op.claimablePnlTokenAccountForHolding
  transferOut := transferOut

/-- The transfers out of a stored market.  Each of them is committed on its own; nothing
happens in between, and the market is stored with all of them here. -/
def processTransferOut (clock : Model.SysvarClock) (op : PositionCutOperation)
    (accounts : Accounts) (transferOut : TransferOut) (isLong isCollateralLong : Bool) :
    Store.Result (MarketAccount × List Transfer) := do
  let account := accounts.markets op.market
  let sending ← (op.processTransferOutOperation accounts.store.key account.key transferOut
    isLong isCollateralLong).execute
      (IndexMap.empty.insert account.key (account.stored clock))
  let paid ← okOr (sending.accounts.get account.key) .accountDiscriminatorMismatch
  let stored ← account.persist paid
  return (stored, sending.sent)

open Mutation in
def execute (oracle : TimedOracle) (clock : Model.SysvarClock)
    (leftover : Pubkey → List Access) (addresses : Addresses)
    (op : PositionCutOperation) : EStateM CoreError Accounts CutOutcome := do
  let accounts ← get
  let position ← lift (okOr accounts.position .positionIsRequired)
  let isCollateralLong ← lift
    ((accounts.markets op.market).marketMeta.toTokenSide position.collateralToken)
  let isLong ← lift position.tryIsLong
  let order ← lift (op.createOrder clock addresses accounts position isLong
    isCollateralLong)
  modify fun accounts => { accounts with order }
  let outcome ← op.executeOrderOperation.execute oracle clock leftover
  lift (ensure (outcome.transferOut.executed = true) .internal)
  let executed ← get
  let order ← lift (op.completeOrder outcome.removePosition executed.order)
  modify fun accounts => { accounts with order }
  let paid ← lift (op.processTransferOut clock executed outcome.transferOut isLong
    isCollateralLong)
  modify fun accounts => { accounts with
    markets := Function.update accounts.markets op.market paid.1 }
  return ⟨outcome.shouldSendTradeEvent, paid.2⟩

end PositionCutOperation

/-! ## The order of a cut -/

section Order

variable {oracle : TimedOracle} {clock : Model.SysvarClock} {leftover : Pubkey → List Access}
  {addresses : Addresses} {op : PositionCutOperation} {before after : Accounts}
  {position : PositionAccount} {isCollateralLong : Bool} {order : OrderAccount}

/-- What the order of a cut asks for. -/
structure PositionCutOperation.Asks (op : PositionCutOperation) (marketMeta : MarketMeta)
    (position : PositionAccount) (isCollateralLong : Bool) (order : OrderAccount) :
    Prop where
  kind : order.kind = op.kind.toOrderKind
  size : order.params.sizeDeltaValue = op.kind.sizeDeltaUsd position.state.sizeInUsd
  primarySwapPath : order.swap.primarySwapPath = []
  secondarySwapPath : order.swap.secondarySwapPath = []
  isLong : order.params.isLong = decide (position.kind = .long)
  tokens : order.tokens = ⟨some (if isCollateralLong then op.longToken else op.shortToken),
    some op.longToken, some op.shortToken⟩
  longToken : marketMeta.longTokenMint = op.longToken
  shortToken : marketMeta.shortTokenMint = op.shortToken
  rentReceiver : order.rentReceiver = op.owner

theorem initDecrease_params {create : CreateOrderParams}
    {params : OrderActionParams × ℕ × ℤ} (hinit : initDecrease create = .ok params) :
    params.1.kind = create.kind ∧ params.1.sizeDeltaValue = create.sizeDeltaValue ∧
      params.1.isLong = create.isLong := by
  unfold initDecrease at hinit
  cases hkind : create.kind <;> simp only [hkind, bind_eq_ok, pure_eq_ok, reduceCtorEq] at hinit
  case limitDecrease | stopLossDecrease =>
    obtain ⟨_, -, rfl⟩ := hinit
    exact ⟨rfl, rfl, rfl⟩
  all_goals
    obtain ⟨_, -, rfl⟩ := hinit
    exact ⟨rfl, rfl, rfl⟩

omit [Model.MarketNum] in
theorem validateAndInit_empty {marketMeta : MarketMeta} {paths : List AccountInfo}
    {store : Pubkey} {tokenIns tokenOuts : Pubkey × Pubkey}
    {params initialized : SwapActionParams}
    (hinit : params.validateAndInit addresses marketMeta 0 0 paths store tokenIns tokenOuts =
      .ok initialized) :
    initialized.primarySwapPath = [] ∧ initialized.secondarySwapPath = [] := by
  simp only [SwapActionParams.validateAndInit, bind_eq_ok, pure_eq_ok] at hinit
  obtain ⟨_, -, _, -, _, -, _, -, _, -, rfl⟩ := hinit
  exact ⟨List.take_zero, List.take_zero⟩

theorem createOrder_asks
    (hcreate : op.createOrder clock addresses before position (position.kind = .long)
      isCollateralLong = .ok order) :
    op.Asks (before.markets op.market).marketMeta position isCollateralLong order := by
  simp only [PositionCutOperation.createOrder, CreateDecreaseOrderOperation.execute,
    CreateDecreaseOrderOperation.validateParamsExcludingSwap, bind_eq_ok, ensure_eq_ok,
    pure_eq_ok] at hcreate
  obtain ⟨_, -, _, ⟨_, -, _, -, _, hlongToken, _, hshortToken, -⟩, params, hparams, swap,
    hswap, rfl⟩ := hcreate
  obtain ⟨hkind, hsize, hside⟩ := initDecrease_params hparams
  obtain ⟨hprimary, hsecondary⟩ := validateAndInit_empty hswap
  exact ⟨hkind, hsize, hprimary, hsecondary, hside, rfl, hlongToken, hshortToken, rfl⟩

/-- The steps of a cut. -/
structure PositionCutOperation.Ran (oracle : TimedOracle) (clock : Model.SysvarClock)
    (leftover : Pubkey → List Access) (addresses : Addresses) (op : PositionCutOperation)
    (before executed after : Accounts) (position : PositionAccount)
    (isCollateralLong : Bool) (order : OrderAccount) (ran : ExecuteOutcome)
    (outcome : CutOutcome) : Prop where
  found : before.position = some position
  collateral : (before.markets op.market).marketMeta.toTokenSide position.collateralToken =
    .ok isCollateralLong
  created : op.createOrder clock addresses before position (position.kind = .long)
    isCollateralLong = .ok order
  performed : op.executeOrderOperation.execute oracle clock leftover { before with order } =
    .ok ran executed
  isExecuted : ran.transferOut.executed = true
  completed : op.completeOrder ran.removePosition executed.order = .ok after.order
  paid : op.processTransferOut clock executed ran.transferOut (position.kind = .long)
    isCollateralLong = .ok (after.markets op.market, outcome.sent)
  others : ∀ address, address ≠ op.market → after.markets address = executed.markets address
  position_eq : after.position = executed.position

/-- A cut executes the order that it has created, and sends what it pays out. -/
theorem PositionCutOperation.execute_eq_ok {outcome : CutOutcome}
    (hexecute : op.execute oracle clock leftover addresses before = .ok outcome after) :
    ∃ position isCollateralLong order ran executed,
      op.Ran oracle clock leftover addresses before executed after position isCollateralLong
        order ran outcome := by
  simp only [execute, Mutation.get_bind_eq_ok, Mutation.lift_bind_eq_ok,
    Mutation.modify_bind_eq_ok, okOr_eq_ok] at hexecute
  obtain ⟨position, hposition, isCollateralLong, hcollateral, isLong, hlong, order, horder,
    hrun⟩ := hexecute
  obtain ⟨ran, executed, hran, hrest⟩ := Mutation.bind_eq_ok.mp hrun
  simp only [Mutation.get_bind_eq_ok, Mutation.lift_bind_eq_ok, Mutation.modify_bind_eq_ok,
    Mutation.return_eq_ok, ensure_eq_ok] at hrest
  obtain ⟨_, hexecuted, completed, hcompleted, paid, hpaid, rfl, rfl⟩ := hrest
  simp only [PositionAccount.tryIsLong, bind_eq_ok, pure_eq_ok] at hlong
  obtain ⟨_, -, rfl⟩ := hlong
  refine ⟨position, isCollateralLong, order, ran, executed, hposition, hcollateral, horder,
    hran, hexecuted, hcompleted, ?_, fun address hother => ?_, rfl⟩
  · dsimp only
    rw [hpaid, Function.update_self]
  · exact Function.update_of_ne hother _ _

/-- The accounts of the owner, as they are given for a decrease order. -/
def PositionCutOperation.orderAccounts (op : PositionCutOperation) (store : Pubkey)
    (isCollateralLong : Bool) : DecreaseOrderAccounts where
  store := store
  finalOutputTokenVault := if isCollateralLong then op.longTokenVault else op.shortTokenVault
  longTokenVault := op.longTokenVault
  shortTokenVault := op.shortTokenVault
  finalOutputTokenEscrow :=
    if isCollateralLong then op.longTokenAccount else op.shortTokenAccount
  longTokenEscrow := op.longTokenAccount
  shortTokenEscrow := op.shortTokenAccount
  claimableLongTokenAccountForUser := op.claimableLongTokenAccountForUser
  claimableShortTokenAccountForUser := op.claimableShortTokenAccountForUser
  claimablePnlTokenAccountForHolding := op.claimablePnlTokenAccountForHolding

end Order

end Create

/-! ## Its transfers -/

namespace PositionCutOperation.Asks

variable {op : PositionCutOperation} {marketMeta : MarketMeta} {position : PositionAccount}
  {isCollateralLong : Bool} {order : OrderAccount}

theorem isFor (hasks : op.Asks marketMeta position isCollateralLong order) :
    order.toOrder.IsFor marketMeta where
  longToken := by rw [hasks.tokens, hasks.longToken]
  shortToken := by rw [hasks.tokens, hasks.shortToken]

theorem outputMarket_eq (hasks : op.Asks marketMeta position isCollateralLong order)
    (market : Pubkey) (isPrimary : Bool) :
    outputMarket order.toOrder market isPrimary = market := by
  unfold outputMarket SwapActionParams.lastMarketToken
  rw [hasks.primarySwapPath, hasks.secondarySwapPath, ite_self]
  rfl

/-- The final output is in the collateral token of the position. -/
theorem finalOutputToken (hasks : op.Asks marketMeta position isCollateralLong order)
    (hcollateral : marketMeta.toTokenSide position.collateralToken = .ok isCollateralLong) :
    order.tokens.finalOutputToken = some position.collateralToken := by
  rw [(MarketMeta.toTokenSide_eq_ok hcollateral).1, MarketMeta.pnlToken, hasks.longToken,
    hasks.shortToken, hasks.tokens]

/-- The owner is paid as after any other decrease order. -/
theorem processTransferOut_eq (hasks : op.Asks marketMeta position isCollateralLong order)
    (store market : Pubkey) (transferOut : TransferOut) :
    op.processTransferOutOperation store market transferOut (position.kind = .long)
        isCollateralLong =
      (op.orderAccounts store isCollateralLong).processTransferOut order.toOrder market
        transferOut := by
  unfold processTransferOutOperation DecreaseOrderAccounts.processTransferOut
  rw [hasks.outputMarket_eq, hasks.tokens, hasks.isLong]
  rfl

end PositionCutOperation.Asks

end Gmsol.Ops
