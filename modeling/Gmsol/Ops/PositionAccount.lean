import Gmsol.Action.Increase
import Gmsol.Library.Mutation
import Gmsol.Ops.MarketAccount

/-!
# Position accounts

The state of a position account is copied when an order is executed, and written back
when the order commits.  The event buffer of a trade is another account: it is written in
place, and it checks what a trade did to the position.
-/

namespace Gmsol.Ops

open Fallible Container Mutation Store SwapPath

inductive PositionKind
  | uninitialized
  | long
  | short
  deriving DecidableEq, Repr

structure PositionState where
  tradeId : ℕ
  increasedAt : ℤ
  updatedAtSlot : ℕ
  decreasedAt : ℤ
  sizeInTokens : ℕ
  collateralAmount : ℕ
  sizeInUsd : ℕ
  borrowingFactor : ℕ
  fundingFeeAmountPerSize : ℕ
  longTokenClaimableFundingAmountPerSize : ℕ
  shortTokenClaimableFundingAmountPerSize : ℕ
  deriving DecidableEq, Repr

namespace PositionState

def isEmpty (state : PositionState) : Bool :=
  state.sizeInUsd = 0 ∧ state.sizeInTokens = 0 ∧ state.collateralAmount = 0

/-- The position of one side with this state. -/
def toPosition (state : PositionState) (isLong isCollateralTokenLong : Bool) :
    Model.Position where
  isLong := isLong
  isCollateralTokenLong := isCollateralTokenLong
  tradeId := state.tradeId
  updatedAtSlot := state.updatedAtSlot
  increasedAt := state.increasedAt
  decreasedAt := state.decreasedAt
  collateralAmount := state.collateralAmount
  sizeInUsd := state.sizeInUsd
  sizeInTokens := state.sizeInTokens
  borrowingFactor := state.borrowingFactor
  fundingFeeAmountPerSize := state.fundingFeeAmountPerSize
  claimableFundingFeeAmountPerSize :=
    ⟨state.longTokenClaimableFundingAmountPerSize,
      state.shortTokenClaimableFundingAmountPerSize⟩

def ofPosition (position : Model.Position) : PositionState where
  tradeId := position.tradeId
  increasedAt := position.increasedAt
  updatedAtSlot := position.updatedAtSlot
  decreasedAt := position.decreasedAt
  sizeInTokens := position.sizeInTokens
  collateralAmount := position.collateralAmount
  sizeInUsd := position.sizeInUsd
  borrowingFactor := position.borrowingFactor
  fundingFeeAmountPerSize := position.fundingFeeAmountPerSize
  longTokenClaimableFundingAmountPerSize :=
    position.claimableFundingFeeAmountPerSize.forLong
  shortTokenClaimableFundingAmountPerSize :=
    position.claimableFundingFeeAmountPerSize.forShort

@[simp]
theorem ofPosition_toPosition (state : PositionState) (isLong isCollateralTokenLong : Bool) :
    ofPosition (state.toPosition isLong isCollateralTokenLong) = state := rfl

end PositionState

structure PositionAccount where
  store : Pubkey
  kind : PositionKind
  marketToken : Pubkey
  collateralToken : Pubkey
  state : PositionState
  deriving DecidableEq, Repr

namespace PositionAccount

def tryIsLong (position : PositionAccount) : Store.Result Bool := do
  ensure (position.kind ≠ .uninitialized) .invalidPosition
  return position.kind = .long

/-- The copy of the position that an order works on. -/
def revertible (position : PositionAccount) (market : MarketAccount) :
    Store.Result Model.Position := do
  ensure (position.marketToken = market.key) .marketTokenMintMismatched
  let isLong ← position.tryIsLong
  let isCollateralTokenLong ← market.marketMeta.toTokenSide position.collateralToken
  return position.state.toPosition isLong isCollateralTokenLong

def validateForMarket (position : PositionAccount) (market : MarketAccount) :
    Store.Result Unit := do
  ensure (position.store = market.store ∧ market.isEnabled = true)
    (.model (.invalidPosition "invalid or disabled market"))
  ensure (market.key = position.marketToken)
    (.model (.invalidPosition "position's market token does not match the market's"))
  ensure (market.marketMeta.isCollateralToken position.collateralToken = true)
    (.model (.invalidPosition "invalid collateral token for market"))

end PositionAccount

/-! ## The event buffer -/

/-- What the checks of the event buffer read. -/
structure TradeData where
  store : Pubkey
  isIncrease : Bool
  tradeId : ℕ
  before : PositionState
  after : PositionState
  deriving DecidableEq, Repr

namespace TradeData

def init (isIncrease : Bool) (position : PositionAccount) :
    EStateM CoreError TradeData Unit := do
  let _ ← lift position.tryIsLong
  modify fun event => { event with isIncrease, tradeId := 0 }
  let event ← get
  lift (ensure (event.store = position.store) .permissionDenied)
  modify fun event => { event with before := position.state, after := position.state }

/-- An increase does not make the position smaller, and a decrease not larger. -/
def validateSizes (isIncrease : Bool) (before after : PositionState) : Store.Result Unit :=
  let (smaller, larger) := if isIncrease then (before, after) else (after, before)
  do
    ensure (smaller.sizeInUsd ≤ larger.sizeInUsd) .invalidTradeDeltaSize
    ensure (smaller.sizeInTokens ≤ larger.sizeInTokens) .invalidTradeDeltaTokens

def validate (event : TradeData) : Store.Result Unit := do
  ensure (event.before.tradeId < event.tradeId) .invalidTradeId
  validateSizes event.isIncrease event.before event.after
  ensure (event.before.borrowingFactor ≤ event.after.borrowingFactor)
    .invalidBorrowingFactor
  ensure (event.before.fundingFeeAmountPerSize ≤ event.after.fundingFeeAmountPerSize)
    .invalidFundingFactors
  ensure (event.before.longTokenClaimableFundingAmountPerSize ≤
    event.after.longTokenClaimableFundingAmountPerSize) .invalidFundingFactors
  ensure (event.before.shortTokenClaimableFundingAmountPerSize ≤
    event.after.shortTokenClaimableFundingAmountPerSize) .invalidFundingFactors

/-- The new state is written before it is checked. -/
def updateWithState (state : PositionState) : EStateM CoreError TradeData Unit := do
  modify fun event => { event with tradeId := state.tradeId, after := state }
  let event ← get
  lift event.validate

end TradeData

end Gmsol.Ops
