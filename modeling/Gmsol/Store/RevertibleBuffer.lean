import Gmsol.Library.RevisionCache

/-!
# The revertible buffer

A market account holds its state twice: the storage, and a buffer of caches
into which an operation writes.  Starting an operation only advances the
revision; committing copies the caches of that revision into the storage, and
an operation that is dropped copies nothing.
-/

namespace Gmsol.Store

inductive PoolKind
  | primary
  | swapImpact
  | claimableFee
  | openInterestForLong
  | openInterestForShort
  | openInterestInTokensForLong
  | openInterestInTokensForShort
  | positionImpact
  | borrowingFactor
  | fundingAmountPerSizeForLong
  | fundingAmountPerSizeForShort
  | claimableFundingAmountPerSizeForLong
  | claimableFundingAmountPerSizeForShort
  | collateralSumForLong
  | collateralSumForShort
  | totalBorrowing
deriving DecidableEq, Repr

/-- All pool kinds in the order in which a commit visits them. -/
def PoolKind.iter : List PoolKind :=
  [.primary, .swapImpact, .claimableFee, .openInterestForLong,
    .openInterestForShort, .openInterestInTokensForLong,
    .openInterestInTokensForShort, .positionImpact, .borrowingFactor,
    .fundingAmountPerSizeForLong, .fundingAmountPerSizeForShort,
    .claimableFundingAmountPerSizeForLong,
    .claimableFundingAmountPerSizeForShort, .collateralSumForLong,
    .collateralSumForShort, .totalBorrowing]

structure Pool where
  isPure : Bool
  longTokenAmount : ℕ
  shortTokenAmount : ℕ
deriving DecidableEq, Repr

structure ClockTimes where
  priceImpactDistribution : ℤ
  borrowing : ℤ
  funding : ℤ
  adlForLong : ℤ
  adlForShort : ℤ
deriving DecidableEq, Repr

structure OtherValues where
  tradeCount : ℕ
  longTokenBalance : ℕ
  shortTokenBalance : ℕ
  fundingFactorPerSecond : ℤ
deriving DecidableEq, Repr

abbrev PoolStorage := Cached Pool
abbrev Clocks := Cached ClockTimes
abbrev OtherState := Cached OtherValues

structure State where
  pools : PoolKind → PoolStorage
  clocks : Clocks
  other : OtherState

structure RevertibleBuffer where
  rev : ℕ
  state : State

/-- The range of the revision counter and of the trade counter. -/
def counterRange : ℕ := 2 ^ 64

namespace RevertibleBuffer

/-- The buffer of an account that has just been created. -/
def init : RevertibleBuffer where
  rev := 1
  state :=
    { pools := fun _ => ⟨0, ⟨false, 0, 0⟩⟩
      clocks := ⟨0, ⟨0, 0, 0, 0, 0⟩⟩
      other := ⟨0, ⟨0, 0, 0, 0⟩⟩ }

def pool (buffer : RevertibleBuffer) (kind : PoolKind) (storage : State) : Pool :=
  ((buffer.state.pools kind).cacheGetWith buffer.rev (storage.pools kind)).value

def clocks (buffer : RevertibleBuffer) (storage : State) : ClockTimes :=
  (buffer.state.clocks.cacheGetWith buffer.rev storage.clocks).value

def other (buffer : RevertibleBuffer) (storage : State) : OtherValues :=
  (buffer.state.other.cacheGetWith buffer.rev storage.other).value

/-- The buffer after a write through the mutable reference to a pool. -/
def poolMut (buffer : RevertibleBuffer) (kind : PoolKind) (storage : State)
    (write : Pool → Pool) : RevertibleBuffer :=
  let cached := (buffer.state.pools kind).cacheGetMutWith buffer.rev
    (storage.pools kind)
  let pools := Function.update buffer.state.pools kind (cached.modify write)
  { buffer with state := { buffer.state with pools } }

def clocksMut (buffer : RevertibleBuffer) (storage : State)
    (write : ClockTimes → ClockTimes) : RevertibleBuffer :=
  let cached := buffer.state.clocks.cacheGetMutWith buffer.rev storage.clocks
  { buffer with state := { buffer.state with clocks := cached.modify write } }

def otherMut (buffer : RevertibleBuffer) (storage : State)
    (write : OtherValues → OtherValues) : RevertibleBuffer :=
  let cached := buffer.state.other.cacheGetMutWith buffer.rev storage.other
  { buffer with state := { buffer.state with other := cached.modify write } }

/-- The revision counter must not overflow. -/
def startRevertibleOperation (buffer : RevertibleBuffer) :
    Option RevertibleBuffer :=
  if buffer.rev + 1 < counterRange then
    some { buffer with rev := buffer.rev + 1 }
  else none

/-- What a commit reports to have changed. -/
structure MarketStateUpdated where
  rev : ℕ
  poolKinds : List PoolKind
  pools : List Pool
  clocks : Option ClockTimes
  other : Option OtherValues
deriving DecidableEq, Repr

def commitToStorage (buffer : RevertibleBuffer) (storage : State) :
    State × MarketStateUpdated :=
  let rev := buffer.rev
  let state := buffer.state
  let updatedPoolKinds :=
    PoolKind.iter.filter fun kind => (state.pools kind).isDirty rev
  let committed : State :=
    { pools := fun kind =>
        if (state.pools kind).isDirty rev then state.pools kind
        else storage.pools kind
      clocks := if state.clocks.isDirty rev then state.clocks else storage.clocks
      other := if state.other.isDirty rev then state.other else storage.other }
  (committed,
    { rev
      poolKinds := updatedPoolKinds
      pools := updatedPoolKinds.map fun kind => (state.pools kind).value
      clocks := if state.clocks.isDirty rev then some state.clocks.value else none
      other := if state.other.isDirty rev then some state.other.value else none })

end RevertibleBuffer

/-! ## Operations on a market -/

structure Market where
  state : State
  buffer : RevertibleBuffer

/-- A single step of an operation. -/
inductive Access
  | pool (kind : PoolKind)
  | clocks
  | other
  | poolMut (kind : PoolKind) (write : Pool → Pool)
  | clocksMut (write : ClockTimes → ClockTimes)
  | otherMut (write : OtherValues → OtherValues)
  | nextTradeId

/-- What a step returns. -/
inductive Reading
  | pool (value : Pool)
  | clocks (value : ClockTimes)
  | other (value : OtherValues)
  | tradeId (id : Option ℕ)
  | written
deriving DecidableEq, Repr

structure Operation where
  accesses : List Access
  isCommitted : Bool

namespace Market

/-- The next trade id is counted from the stored count, so that asking twice
gives the same id. -/
def nextTradeId (market : Market) : Market × Option ℕ :=
  let next := market.state.other.value.tradeCount + 1
  if next < counterRange then
    ({ market with buffer := market.buffer.otherMut market.state fun other =>
        { other with tradeCount := next } }, some next)
  else (market, none)

def access (market : Market) : Access → Market × Reading
  | .pool kind => (market, .pool (market.buffer.pool kind market.state))
  | .clocks => (market, .clocks (market.buffer.clocks market.state))
  | .other => (market, .other (market.buffer.other market.state))
  | .poolMut kind write =>
    ({ market with buffer := market.buffer.poolMut kind market.state write },
      .written)
  | .clocksMut write =>
    ({ market with buffer := market.buffer.clocksMut market.state write },
      .written)
  | .otherMut write =>
    ({ market with buffer := market.buffer.otherMut market.state write },
      .written)
  | .nextTradeId =>
    let result := market.nextTradeId
    (result.1, .tradeId result.2)

def accessAll (market : Market) : List Access → Market × List Reading
  | [] => (market, [])
  | access :: accesses =>
    let first := market.access access
    let rest := accessAll first.1 accesses
    (rest.1, first.2 :: rest.2)

/-- Loads the market for a revertible operation. -/
def new (market : Market) : Option Market := do
  let buffer ← market.buffer.startRevertibleOperation
  some { market with buffer }

def commit (market : Market) : Market :=
  { market with state := (market.buffer.commitToStorage market.state).1 }

/-- An operation that is not committed is dropped as it is. -/
def perform (market : Market) (operation : Operation) :
    Option (Market × List Reading) := do
  let started ← market.new
  let result := started.accessAll operation.accesses
  some (if operation.isCommitted then result.1.commit else result.1, result.2)

def performAll (market : Market) :
    List Operation → Option (Market × List (List Reading))
  | [] => some (market, [])
  | operation :: operations => do
    let (next, readings) ← market.perform operation
    let (last, rest) ← performAll next operations
    some (last, readings :: rest)

end Market

end Gmsol.Store
