import Gmsol.Action.FeeState
import Gmsol.Action.Swap
import Gmsol.Container.Runs
import Gmsol.Model.Bank
import Gmsol.Store.Error

/-!
# Markets and their tokens

A market account names the tokens of its market.  Balances, swaps and checks
are addressed by token here: the token is turned into a side first, and that
fails for a token the market does not have.
-/

namespace Gmsol.SwapPath

open Fallible Container Store

structure MarketMeta where
  marketTokenMint : Pubkey
  indexTokenMint : Pubkey
  longTokenMint : Pubkey
  shortTokenMint : Pubkey
  deriving DecidableEq, Repr

namespace MarketMeta

def isPure (marketMeta : MarketMeta) : Bool :=
  marketMeta.longTokenMint == marketMeta.shortTokenMint

def isCollateralToken (marketMeta : MarketMeta) (token : Pubkey) : Bool :=
  token == marketMeta.longTokenMint || token == marketMeta.shortTokenMint

def pnlToken (marketMeta : MarketMeta) (isLong : Bool) : Pubkey :=
  if isLong then marketMeta.longTokenMint else marketMeta.shortTokenMint

/-- Whether the token is the long token or the short token. -/
def toTokenSide (marketMeta : MarketMeta) (token : Pubkey) : Store.Result Bool :=
  if token = marketMeta.longTokenMint then .ok true
  else if token = marketMeta.shortTokenMint then .ok false
  else .error .invalidArgument

def oppositeToken (marketMeta : MarketMeta) (token : Pubkey) :
    Store.Result Pubkey :=
  if token = marketMeta.longTokenMint then .ok marketMeta.shortTokenMint
  else if token = marketMeta.shortTokenMint then .ok marketMeta.longTokenMint
  else .error .invalidArgument

end MarketMeta

/-! ## Prices -/

structure OraclePrice where
  price : Model.Price
  isSynthetic : Bool
  deriving DecidableEq, Repr

structure Oracle where
  primary : Pubkey → Option OraclePrice

namespace Oracle

/-- Only the index token may have a synthetic price. -/
def getPrimaryPrice (oracle : Oracle) (token : Pubkey) (allowSynthetic : Bool) :
    Store.Result Model.Price := do
  let found ← okOr (oracle.primary token) .missingOraclePrice
  ensure (allowSynthetic ∨ ¬found.isSynthetic) .syntheticTokenPriceIsNotAllowed
  return found.price

def marketPrices (oracle : Oracle) (marketMeta : MarketMeta) :
    Store.Result Model.Prices := do
  let indexTokenPrice ← oracle.getPrimaryPrice marketMeta.indexTokenMint true
  let longTokenPrice ← oracle.getPrimaryPrice marketMeta.longTokenMint false
  let shortTokenPrice ← oracle.getPrimaryPrice marketMeta.shortTokenMint false
  return { indexTokenPrice, longTokenPrice, shortTokenPrice }

end Oracle

/-! ## Market accounts -/

/-- A market account; it is pure when both tokens are the same. -/
structure RevertibleMarket where
  store : Pubkey
  marketMeta : MarketMeta
  state : Model.Market marketMeta.isPure

namespace RevertibleMarket

def key (market : RevertibleMarket) : Pubkey := market.marketMeta.marketTokenMint

def validate (market : RevertibleMarket) (store : Pubkey) : Store.Result Unit := do
  ensure (store = market.store) .storeMismatched
  ensure (market.state.isEnabled = true) .disabledMarket

def validatedMeta (market : RevertibleMarket) (store : Pubkey) :
    Store.Result MarketMeta := do
  market.validate store
  return market.marketMeta

/-- Runs an update of the market model. -/
def update (market : RevertibleMarket)
    (result : Model.Result (Model.Market market.marketMeta.isPure)) :
    Store.Result RevertibleMarket :=
  (result.mapError .model).map fun state => { market with state }

def recordTransferredInByToken (market : RevertibleMarket) (token : Pubkey)
    (amount : ℕ) : Store.Result RevertibleMarket := do
  let isLongToken ← market.marketMeta.toTokenSide token
  market.update (market.state.recordTransferredIn isLongToken amount)

def recordTransferredOutByToken (market : RevertibleMarket) (token : Pubkey)
    (amount : ℕ) : Store.Result RevertibleMarket := do
  let isLongToken ← market.marketMeta.toTokenSide token
  market.update (market.state.recordTransferredOut isLongToken amount)

variable [Model.MarketNum]

def updateBorrowing (market : RevertibleMarket) (prices : Model.Prices) :
    Store.Result RevertibleMarket :=
  market.update
    ((Model.UpdateBorrowingState.execute market.state prices).map Prod.fst)

/-- Swaps and returns the market and the amount of the token out. -/
def swap (market : RevertibleMarket) (isTokenInLong : Bool) (tokenInAmount : ℕ)
    (prices : Model.Prices) : Store.Result (RevertibleMarket × ℕ) :=
  ((Model.Swap.execute market.state
      ⟨isTokenInLong, tokenInAmount, prices⟩).mapError .model).map fun done =>
    ({ market with state := done.1 }, done.2.tokenOutAmount)

def validateMarketBalanceForTheGivenToken (market : RevertibleMarket)
    (token : Pubkey) (excluded : ℕ) : Store.Result Unit := do
  let isLongToken ← market.marketMeta.toTokenSide token
  (market.state.validateMarketBalanceForTheGivenToken isLongToken
    excluded).mapError .model

def validateMarketBalances (market : RevertibleMarket)
    (longExcludingAmount shortExcludingAmount : ℕ) : Store.Result Unit :=
  (market.state.validateMarketBalances longExcludingAmount
    shortExcludingAmount).mapError .model

/-- Adds one amount to the excluded amounts of the long and the short token; the
token of an amount that is zero is not looked at. -/
def exclude (market : RevertibleMarket) (token : Pubkey) (amount : ℕ)
    (excluding : ℕ × ℕ) : Store.Result (ℕ × ℕ) :=
  if amount = 0 then .ok excluding
  else do
    let isLong ← market.marketMeta.toTokenSide token
    if isLong then do
      ensure (excluding.1 + amount ≤ Model.maxU64) .tokenAmountOverflow
      return (excluding.1 + amount, excluding.2)
    else do
      ensure (excluding.2 + amount ≤ Model.maxU64) .tokenAmountOverflow
      return (excluding.1, excluding.2 + amount)

def validateMarketBalancesExcludingTheGivenTokenAmounts
    (market : RevertibleMarket) (firstToken secondToken : Pubkey)
    (firstExcludingAmount secondExcludingAmount : ℕ) : Store.Result Unit := do
  let first ← market.exclude firstToken firstExcludingAmount (0, 0)
  let excluding ← market.exclude secondToken secondExcludingAmount first
  market.validateMarketBalances excluding.1 excluding.2

end RevertibleMarket

end Gmsol.SwapPath
