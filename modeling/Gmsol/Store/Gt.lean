import Gmsol.Library.BinarySearch
import Gmsol.Library.Mutation
import Gmsol.Store.Error

/-!
# GT

The counters of GT in the store, in the user accounts, in the exchange vaults
and in the exchanges.  The functions of the program change the accounts in
place and may stop half way; the instructions around them are atomic.
-/

namespace Gmsol.Store

open Gmsol.Fallible Gmsol.Model Gmsol.Mutation

def maxRanks : ℕ := 15

/-- The first `max_rank` thresholds are kept as a list. -/
structure GtState where
  lastMintedAt : ℤ
  totalMinted : ℕ
  growStepAmount : ℕ
  growSteps : ℕ
  supply : ℕ
  gtVault : ℕ
  mintingCostGrowFactor : ℕ
  mintingCost : ℕ
  exchangeTimeWindow : ℕ
  ranks : List ℕ
  orderFeeDiscountFactors : Vector ℕ (maxRanks + 1)
  referralRewardFactors : Vector ℕ (maxRanks + 1)
deriving DecidableEq

structure UserGtState where
  rank : ℕ
  lastMintedAt : ℤ
  totalMinted : ℕ
  amount : ℕ
  paidFeeValue : ℕ
  mintedFeeValue : ℕ
deriving DecidableEq, Repr

structure UserHeader where
  isInitialized : Bool
  gt : UserGtState
deriving DecidableEq, Repr

structure GtExchangeVault where
  isInitialized : Bool
  isConfirmed : Bool
  ts : ℤ
  timeWindow : ℤ
  amount : ℕ
deriving DecidableEq, Repr

structure GtExchange where
  isInitialized : Bool
  amount : ℕ
deriving DecidableEq, Repr

def checkedAddU64 (left right : ℕ) : Result ℕ :=
  if left + right ≤ maxU64 then .ok (left + right)
  else .error .tokenAmountOverflow

def checkedSubU64 (left right : ℕ) (failure : CoreError) : Result ℕ :=
  if right ≤ left then .ok (left - right) else .error failure

def getTimeWindowIndex (ts timeWindow : ℤ) : ℤ := ts.tdiv timeWindow

namespace GtExchangeVault

def timeWindowIndex (vault : GtExchangeVault) : ℤ :=
  getTimeWindowIndex vault.ts vault.timeWindow

def init (vault : GtExchangeVault) (now : ℤ) (timeWindow : ℕ) :
    Result GtExchangeVault := do
  ensure (vault.isInitialized = false) .preconditionsAreNotMet
  ensure (timeWindow ≠ 0) .invalidArgument
  .ok { vault with isInitialized := true, ts := now, timeWindow }

def validateConfirmable (vault : GtExchangeVault) (now : ℤ) : Result Unit := do
  ensure (vault.isInitialized = true) .preconditionsAreNotMet
  ensure (vault.isConfirmed = false) .preconditionsAreNotMet
  ensure (vault.timeWindowIndex < getTimeWindowIndex now vault.timeWindow)
    .preconditionsAreNotMet

/-- The confirmed vault and its amount. -/
def confirm (vault : GtExchangeVault) (now : ℤ) :
    Result (GtExchangeVault × ℕ) := do
  vault.validateConfirmable now
  .ok ({ vault with isConfirmed := true }, vault.amount)

def validateDepositable (vault : GtExchangeVault) (now : ℤ) : Result Unit := do
  ensure (vault.isConfirmed = false) .preconditionsAreNotMet
  ensure (getTimeWindowIndex now vault.timeWindow = vault.timeWindowIndex)
    .invalidArgument

def add (vault : GtExchangeVault) (now : ℤ) (amount : ℕ) :
    Result GtExchangeVault := do
  vault.validateDepositable now
  let amount ← checkedAddU64 vault.amount amount
  .ok { vault with amount }

end GtExchangeVault

namespace GtExchange

def init (exchange : GtExchange) : Result GtExchange := do
  ensure (exchange.isInitialized = false) .preconditionsAreNotMet
  .ok { exchange with isInitialized := true }

/-- An exchange that exists already is left as it is. -/
def initIfNeeded (exchange : GtExchange) : Result GtExchange :=
  if exchange.isInitialized then .ok exchange else exchange.init

def add (exchange : GtExchange) (amount : ℕ) : Result GtExchange := do
  let amount ← checkedAddU64 exchange.amount amount
  .ok { exchange with amount }

end GtExchange

/-- The accounts that minting and burning change. -/
structure GtAccounts where
  gt : GtState
  user : UserHeader

/-- The loop over the grow steps of a mint. -/
def growMintingCost [MarketNum] (growFactor : ℕ) : ℕ → ℕ → Option ℕ
  | 0, mintingCost => some mintingCost
  | steps + 1, mintingCost => do
    let next ← applyFactor mintingCost growFactor
    growMintingCost growFactor steps next

namespace GtState

/-- The default time window of exchange vaults. -/
def defaultGtVaultTimeWindow : ℕ := 24 * 60 * 60

def isInitialized (gt : GtState) : Bool := gt.growStepAmount ≠ 0

def zeroed : GtState where
  lastMintedAt := 0
  totalMinted := 0
  growStepAmount := 0
  growSteps := 0
  supply := 0
  gtVault := 0
  mintingCostGrowFactor := 0
  mintingCost := 0
  exchangeTimeWindow := 0
  ranks := []
  orderFeeDiscountFactors := Vector.replicate _ 0
  referralRewardFactors := Vector.replicate _ 0

def init (gt : GtState) (now : ℤ) (initialMintingCost growFactor growStep : ℕ)
    (ranks : List ℕ) : Result GtState := do
  ensure (gt.isInitialized = false) .gtStateHasBeenInitialized
  ensure (gt.lastMintedAt = 0) .gtStateHasBeenInitialized
  ensure (gt.totalMinted = 0) .gtStateHasBeenInitialized
  ensure (gt.supply = 0) .gtStateHasBeenInitialized
  ensure (gt.gtVault = 0) .gtStateHasBeenInitialized
  ensure (growStep ≠ 0) .invalidGTConfig
  let ranks := ranks.take maxRanks
  ensure (ranks.IsChain (· < ·)) .invalidGTConfig
  .ok { gt with
    lastMintedAt := now
    growStepAmount := growStep
    mintingCostGrowFactor := growFactor
    mintingCost := initialMintingCost
    ranks
    exchangeTimeWindow := defaultGtVaultTimeWindow }

def maxRank (gt : GtState) : ℕ := gt.ranks.length

def orderFeeDiscountFactor (gt : GtState) (rank : ℕ) : Result ℕ := do
  ensure (rank ≤ gt.maxRank) .invalidArgument
  okOr gt.orderFeeDiscountFactors[rank]? .panic

def referralRewardFactor (gt : GtState) (rank : ℕ) : Result ℕ := do
  ensure (rank ≤ gt.maxRank) .invalidArgument
  okOr gt.referralRewardFactors[rank]? .panic

section Minting

variable [MarketNum]

/-- The number of steps and the cost after them, if the steps change. -/
def nextMintingCost (gt : GtState) (nextMinted : ℕ) :
    Result (Option (ℕ × ℕ)) := do
  ensure (gt.growStepAmount ≠ 0) .invalidGTConfig
  let newSteps := nextMinted / gt.growStepAmount
  if newSteps ≠ gt.growSteps then
    let mintingCost ← okOr (growMintingCost gt.mintingCostGrowFactor
      (newSteps - gt.growSteps) gt.mintingCost) .internal
    .ok (some (newSteps, mintingCost))
  else .ok none

end Minting

def compareRank (gt : GtState) (amount index : ℕ) : Ordering :=
  match gt.ranks[index]? with
  | some threshold => cmp threshold amount
  | none => .gt

/-- The rank that an amount of GT is worth. -/
def rankOf (gt : GtState) (amount : ℕ) : ℕ :=
  match binarySearchBy (gt.compareRank amount) gt.ranks.length with
  | .ok rank => rank + 1
  | .error rank => rank

end GtState

def GtAccounts.uncheckedUpdateRank (accounts : GtAccounts) : GtAccounts :=
  let rank := accounts.gt.rankOf accounts.user.gt.amount
  let userGt := accounts.user.gt
  if userGt.rank ≠ rank then
    { accounts with user :=
      { accounts.user with gt := { userGt with rank } } }
  else accounts

section Minting

variable [MarketNum]

/-- The infallible part of minting. -/
def GtAccounts.recordMint (accounts : GtAccounts) (now : ℤ)
    (nextMintingCost : Option (ℕ × ℕ))
    (totalMinted userTotalMinted amount supply : ℕ) : GtAccounts :=
  let gt := match nextMintingCost with
    | some (growSteps, mintingCost) =>
      { accounts.gt with growSteps, mintingCost }
    | none => accounts.gt
  let userGt := { accounts.user.gt with
    totalMinted := userTotalMinted, amount, lastMintedAt := now }
  { gt := { gt with totalMinted, lastMintedAt := now, supply }
    user := { accounts.user with gt := userGt } }

def mintTo (now : ℤ) (amount : ℕ) : EStateM CoreError GtAccounts Unit := do
  if amount ≠ 0 then
    let accounts ← get
    let gt := accounts.gt
    let userGt := accounts.user.gt
    let nextGtTotalMinted ← lift (checkedAddU64 gt.totalMinted amount)
    let nextMintingCost ← lift (gt.nextMintingCost nextGtTotalMinted)
    let nextUserTotalMinted ← lift (checkedAddU64 userGt.totalMinted amount)
    let nextAmount ← lift (checkedAddU64 userGt.amount amount)
    let nextSupply ← lift (checkedAddU64 gt.supply amount)
    -- The following steps are infallible.
    modify fun accounts => accounts.recordMint now nextMintingCost
      nextGtTotalMinted nextUserTotalMinted nextAmount nextSupply
    modify GtAccounts.uncheckedUpdateRank

end Minting

def GtAccounts.recordBurn (accounts : GtAccounts) (amount supply : ℕ) :
    GtAccounts :=
  { gt := { accounts.gt with supply }
    user := { accounts.user with gt := { accounts.user.gt with amount } } }

def uncheckedBurnFrom (amount : ℕ) : EStateM CoreError GtAccounts Unit := do
  if amount ≠ 0 then
    let accounts ← get
    let userAmount := accounts.user.gt.amount
    lift (ensure (amount ≤ userAmount) .notEnoughTokenAmount)
    let nextAmount ← lift (checkedSubU64 userAmount amount .internal)
    let nextSupply ← lift (checkedSubU64 accounts.gt.supply amount .internal)
    -- The following steps are infallible.
    modify fun accounts => accounts.recordBurn nextAmount nextSupply
    modify GtAccounts.uncheckedUpdateRank

/-- How much GT is minted for a value, the value that it accounts for, and the
cost of one unit. -/
def GtState.getMintAmount (gt : GtState) (sizeInValue : ℕ) :
    Result (ℕ × ℕ × ℕ) := do
  ensure (gt.mintingCost ≠ 0) .invalidGTConfig
  let remainder := sizeInValue % gt.mintingCost
  let minted := sizeInValue / gt.mintingCost
  ensure (minted ≤ maxU64) .tokenAmountOverflow
  .ok (minted, sizeInValue - remainder, gt.mintingCost)

/-- The accounts of an exchange request. -/
structure ExchangeAccounts where
  gt : GtState
  user : UserHeader
  vault : GtExchangeVault
  exchange : GtExchange

def ExchangeAccounts.gtAccounts (accounts : ExchangeAccounts) : GtAccounts :=
  { gt := accounts.gt, user := accounts.user }

def ExchangeAccounts.setGtAccounts (part : GtAccounts)
    (accounts : ExchangeAccounts) : ExchangeAccounts :=
  { accounts with gt := part.gt, user := part.user }

/-- This is not an atomic operation. -/
def uncheckedRequestExchange (now : ℤ) (amount : ℕ) :
    EStateM CoreError ExchangeAccounts Unit := do
  let accounts ← get
  lift (ensure (accounts.user.isInitialized = true) .invalidArgument)
  lift (ensure (accounts.vault.isInitialized = true) .invalidArgument)
  lift (ensure (accounts.exchange.isInitialized = true) .invalidArgument)
  zoom ExchangeAccounts.gtAccounts ExchangeAccounts.setGtAccounts
    (uncheckedBurnFrom amount)
  let vault ← lift (accounts.vault.add now amount)
  modify fun accounts => { accounts with vault }
  let exchange ← lift (accounts.exchange.add amount)
  modify fun accounts => { accounts with exchange }

def GtState.processGtVault (gt : GtState) (amount : ℕ) : Result GtState :=
  if amount ≠ 0 then do
    let gtVault ← checkedAddU64 gt.gtVault amount
    .ok { gt with gtVault }
  else .ok gt

def uncheckedConfirmExchangeVault (now : ℤ) :
    EStateM CoreError (GtState × GtExchangeVault) Unit := do
  let accounts ← get
  lift (ensure (accounts.2.isInitialized = true) .invalidArgument)
  let confirmed ← lift (accounts.2.confirm now)
  modify fun accounts => (accounts.1, confirmed.1)
  let gt ← lift (accounts.1.processGtVault confirmed.2)
  modify fun accounts => (gt, accounts.2)

/-! ## Instructions -/

/-- The accounts of the store that hold GT.  A vault and a user have a single
exchange account, whose address is derived from theirs. -/
structure GtWorld (User Vault : Type) where
  gt : GtState
  users : User → UserHeader
  vaults : Vault → GtExchangeVault
  exchanges : Vault × User → GtExchange

inductive GtInstruction (User Vault : Type)
  | initUser (user : User)
  | prepareGtExchangeVault (vault : Vault)
  | mintTo (user : User) (amount : ℕ)
  | requestGtExchange (user : User) (vault : Vault) (amount : ℕ)
  | confirmGtExchangeVault (vault : Vault)

namespace GtWorld

variable {User Vault : Type} [DecidableEq User] [DecidableEq Vault]

def initUser (world : GtWorld User Vault) (user : User) :
    Result (GtWorld User Vault) := do
  ensure ((world.users user).isInitialized = false)
    .userAccountHasBeenInitialized
  let header := { world.users user with isInitialized := true }
  .ok { world with users := Function.update world.users user header }

/-- A vault that exists already is left as it is. -/
def prepareGtExchangeVault (world : GtWorld User Vault) (now : ℤ)
    (vault : Vault) : Result (GtWorld User Vault) := do
  ensure (world.gt.isInitialized = true) .preconditionsAreNotMet
  if (world.vaults vault).isInitialized then .ok world
  else
    let prepared ← (world.vaults vault).init now world.gt.exchangeTimeWindow
    .ok { world with vaults := Function.update world.vaults vault prepared }

def mintTo [MarketNum] (world : GtWorld User Vault) (now : ℤ) (user : User)
    (amount : ℕ) : Result (GtWorld User Vault) := do
  let accounts ← settle (Store.mintTo now amount)
    { gt := world.gt, user := world.users user }
  .ok { world with
    gt := accounts.gt
    users := Function.update world.users user accounts.user }

def requestGtExchange (world : GtWorld User Vault) (now : ℤ) (user : User)
    (vault : Vault) (amount : ℕ) : Result (GtWorld User Vault) := do
  ensure (world.gt.isInitialized = true) .preconditionsAreNotMet
  ensure ((world.users user).isInitialized = true) .invalidUserAccount
  ensure ((world.vaults vault).isInitialized = true) .invalidArgument
  let exchange ← (world.exchanges (vault, user)).initIfNeeded
  let accounts ← settle (uncheckedRequestExchange now amount)
    { gt := world.gt, user := world.users user, vault := world.vaults vault,
      exchange }
  .ok
    { gt := accounts.gt
      users := Function.update world.users user accounts.user
      vaults := Function.update world.vaults vault accounts.vault
      exchanges := Function.update world.exchanges (vault, user)
        accounts.exchange }

def confirmGtExchangeVault (world : GtWorld User Vault) (now : ℤ)
    (vault : Vault) : Result (GtWorld User Vault) := do
  ensure (world.gt.isInitialized = true) .preconditionsAreNotMet
  ensure ((world.vaults vault).isInitialized = true) .invalidUserAccount
  let accounts ← settle (uncheckedConfirmExchangeVault now)
    (world.gt, world.vaults vault)
  .ok { world with
    gt := accounts.1
    vaults := Function.update world.vaults vault accounts.2 }

def execute [MarketNum] (world : GtWorld User Vault) (now : ℤ) :
    GtInstruction User Vault → Result (GtWorld User Vault)
  | .initUser user => world.initUser user
  | .prepareGtExchangeVault vault => world.prepareGtExchangeVault now vault
  | .mintTo user amount => world.mintTo now user amount
  | .requestGtExchange user vault amount =>
    world.requestGtExchange now user vault amount
  | .confirmGtExchangeVault vault => world.confirmGtExchangeVault now vault

/-- An instruction at a time of the cluster clock. -/
def step [MarketNum] (world : GtWorld User Vault)
    (label : ℤ × GtInstruction User Vault) :
    Result (GtWorld User Vault × Unit) := do
  let world ← world.execute label.1 label.2
  .ok (world, ())

/-- GT has just been initialised and no account holds any. -/
def start (gt : GtState) : GtWorld User Vault where
  gt := gt
  users _ := ⟨false, ⟨0, 0, 0, 0, 0, 0⟩⟩
  vaults _ := ⟨false, false, 0, 0, 0⟩
  exchanges _ := ⟨false, 0⟩

end GtWorld

end Gmsol.Store
