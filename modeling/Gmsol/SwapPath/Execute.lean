import Gmsol.Library.IndexMap
import Gmsol.SwapPath.Params

/-!
# Swaps along a path

A swap goes through the markets of its path one after the other.  The current
market is not one of the swap markets: it is held by the direction of the swap,
and only the two ends of a path are compared with it.  Between two markets the
tokens stay in a shared vault and only the recorded balances move.
-/

namespace Gmsol.SwapPath

open Fallible Container Store

abbrev SwapMarkets : Type := IndexMap Pubkey RevertibleMarket

namespace SwapMarkets

/-- Inserts the market of one loader. -/
def insertMarket (store : Pubkey) (currentMarketToken : Option Pubkey)
    (markets : SwapMarkets) (loader : RevertibleMarket) :
    Store.Result SwapMarkets := do
  ensure (currentMarketToken ≠ some loader.key) .invalidSwapPath
  if hvacant : loader.key ∉ markets.keys then do
    loader.validate store
    return markets.insertVacant loader.key loader hvacant
  else .error .invalidSwapPath

def new (store : Pubkey) (loaders : List RevertibleMarket)
    (currentMarketToken : Option Pubkey) : Store.Result SwapMarkets :=
  loaders.foldlM (insertMarket store currentMarketToken) IndexMap.empty

end SwapMarkets

/-- Into the current market or out of it. -/
structure SwapDirection where
  isInto : Bool
  currentMarket : RevertibleMarket

def SwapDirection.current (direction : SwapDirection) : Pubkey :=
  direction.currentMarket.key

/-- What a swap along a path updates. -/
structure Route where
  markets : SwapMarkets
  direction : SwapDirection
  tokenIn : Pubkey
  tokenInAmount : ℕ

namespace Route

/-- Writes to the current market. -/
def setCurrent (route : Route) (market : RevertibleMarket) : Route :=
  { route with direction := { route.direction with currentMarket := market } }

def setMarket (route : Route) (token : Pubkey) (market : RevertibleMarket) : Route :=
  { route with markets := route.markets.set token market }

/-- Goes on with an amount of the token that a market paid out. -/
def continueWith (route : Route) (tokenIn : Pubkey) (tokenInAmount : ℕ) : Route :=
  { route with tokenIn, tokenInAmount }

end Route

section

variable [Model.MarketNum] (oracle : Oracle)

/-! ## Single markets -/

def swapWithCurrent (route : Route) : Store.Result Route := do
  let current := route.direction.currentMarket
  let side ← current.marketMeta.toTokenSide route.tokenIn
  let prices ← oracle.marketPrices current.marketMeta
  let swapped ← current.swap side route.tokenInAmount prices
  ensure (swapped.2 ≤ Model.maxU64) .tokenAmountOverflow
  let tokenOut ← swapped.1.marketMeta.oppositeToken route.tokenIn
  return (route.setCurrent swapped.1).continueWith tokenOut swapped.2

/-- The amount is already in the first market, and it stays in the last one. -/
def receive (market : RevertibleMarket) (route : Route) (isFirst : Bool) :
    Store.Result RevertibleMarket :=
  if isFirst then .ok market
  else market.recordTransferredInByToken route.tokenIn route.tokenInAmount

def forward (market : RevertibleMarket) (tokenOut : Pubkey) (amount : ℕ)
    (isLast : Bool) : Store.Result RevertibleMarket :=
  if isLast then .ok market
  else do
    let sent ← market.recordTransferredOutByToken tokenOut amount
    sent.validateMarketBalances 0 0
    return sent

/-- One market of the path. -/
def swapStep (marketToken : Pubkey) (isFirst isLast : Bool) (route : Route) :
    Store.Result Route := do
  let market ← okOr (route.markets.get marketToken) .marketAccountIsNotProvided
  let received ← receive market route isFirst
  let side ← received.marketMeta.toTokenSide route.tokenIn
  let prices ← oracle.marketPrices received.marketMeta
  let updated ← received.updateBorrowing prices
  let swapped ← updated.swap side route.tokenInAmount prices
  let tokenOut ← swapped.1.marketMeta.oppositeToken route.tokenIn
  ensure (swapped.2 ≤ Model.maxU64) .tokenAmountOverflow
  let forwarded ← forward swapped.1 tokenOut swapped.2 isLast
  return (route.setMarket marketToken forwarded).continueWith tokenOut swapped.2

def swapAlongThePath : Bool → List Pubkey → Route → Store.Result Route
  | _, [], route => .ok route
  | isFirst, marketToken :: rest, route => do
    let next ← swapStep oracle marketToken isFirst rest.isEmpty route
    swapAlongThePath false rest next

/-! ## Transfers from and to the current market -/

def validateAtOnce (validated : Bool) (market : RevertibleMarket)
    (token : Pubkey) : Store.Result Unit :=
  if validated then market.validateMarketBalanceForTheGivenToken token 0
  else .ok ()

/-- The tokens leave the current market; it may be validated at once. -/
def transferFromCurrent (validated : Bool) (target : Pubkey) (route : Route) :
    Store.Result Route := do
  let market ← okOr (route.markets.get target) .marketAccountIsNotProvided
  let current ← route.direction.currentMarket.recordTransferredOutByToken
    route.tokenIn route.tokenInAmount
  validateAtOnce validated current route.tokenIn
  let received ←
    market.recordTransferredInByToken route.tokenIn route.tokenInAmount
  return (route.setCurrent current).setMarket target received

def transferIntoCurrent (source : Pubkey) (route : Route) : Store.Result Route := do
  let market ← okOr (route.markets.get source) .panic
  let sent ← market.recordTransferredOutByToken route.tokenIn route.tokenInAmount
  sent.validateMarketBalances 0 0
  let current ← route.direction.currentMarket.recordTransferredInByToken
    route.tokenIn route.tokenInAmount
  return (route.setMarket source sent).setCurrent current

/-! ## One side -/

/-- After a swap in the current market: on to the next market of the path. -/
def leaveCurrent (path : List Pubkey) (route : Route) : Store.Result Route :=
  match path with
  | [] => .ok route
  | next :: _ => transferFromCurrent false next route

/-- Up to the first market that is not the current one; returns the rest of the
path. -/
def enterPath (path : List Pubkey) (route : Route) :
    Store.Result (Route × List Pubkey) :=
  match path with
  | [] => .ok (route, [])
  | first :: rest =>
    if first = route.direction.current then do
      let swapped ← swapWithCurrent oracle route
      let left ← leaveCurrent rest swapped
      return (left, rest)
    else if route.direction.isInto then .ok (route, first :: rest)
    else do
      let transferred ← transferFromCurrent true first route
      return (transferred, first :: rest)

/-- Back to the current market before a swap in it. -/
def returnToCurrent (path : List Pubkey) (route : Route) : Store.Result Route :=
  match path.getLast? with
  | none => .ok route
  | some last => transferIntoCurrent last route

def finishPath (path : List Pubkey) (route : Route) : Store.Result Route :=
  match path.getLast? with
  | none => .ok route
  | some last =>
    if last = route.direction.current then do
      let swapped ← swapAlongThePath oracle true path.dropLast route
      let returned ← returnToCurrent path.dropLast swapped
      swapWithCurrent oracle returned
    else do
      let swapped ← swapAlongThePath oracle true path route
      if route.direction.isInto then transferIntoCurrent last swapped
      else .ok swapped

/-- The source returns the amount only; the token it is in stands beside it. -/
def revertibleSwapForOneSide (path : List Pubkey) (expectedTokenOut : Pubkey)
    (route : Route) : Store.Result Route := do
  ensure (route.markets.get route.direction.current).isNone .invalidSwapPath
  let entered ← enterPath oracle path route
  let finished ← finishPath oracle entered.2 entered.1
  ensure (finished.tokenIn = expectedTokenOut) .invalidSwapPath
  return finished

/-! ## Both sides -/

structure Output where
  token : Pubkey
  amount : ℕ
  deriving DecidableEq, Repr

/-- A side without a token or an amount has no output. -/
structure SideOutcome where
  markets : SwapMarkets
  direction : SwapDirection
  output : Option Output

namespace SideOutcome

def ofRoute (route : Route) : SideOutcome where
  markets := route.markets
  direction := route.direction
  output := some ⟨route.tokenIn, route.tokenInAmount⟩

def amount (outcome : SideOutcome) : ℕ :=
  outcome.output.elim 0 Output.amount

end SideOutcome

def swapSide (path : List Pubkey) (expectedTokenOut : Pubkey)
    (tokenIn : Option Pubkey) (amount : ℕ) (markets : SwapMarkets)
    (direction : SwapDirection) : Store.Result SideOutcome :=
  match tokenIn.filter fun _ => amount ≠ 0 with
  | none => .ok ⟨markets, direction, none⟩
  | some token =>
    (revertibleSwapForOneSide oracle path expectedTokenOut
      ⟨markets, direction, token, amount⟩).map .ofRoute

/-- The market an output stays in. -/
def outputMarketToken (direction : SwapDirection) (path : List Pubkey) : Pubkey :=
  if direction.isInto then direction.current
  else path.getLast?.getD direction.current

def marketAt (markets : SwapMarkets) (direction : SwapDirection) (token : Pubkey) :
    Store.Result RevertibleMarket :=
  if token = direction.current then .ok direction.currentMarket
  else okOr (markets.get token) .panic

def validateOutputMarket (markets : SwapMarkets) (direction : SwapDirection)
    (marketToken : Pubkey) (first second : Output) : Store.Result Unit := do
  let market ← marketAt markets direction marketToken
  market.validateMarketBalancesExcludingTheGivenTokenAmounts first.token
    second.token first.amount second.amount

def validateOutputMarkets (markets : SwapMarkets) (direction : SwapDirection)
    (longMarket shortMarket : Pubkey) (long short : Output) : Store.Result Unit :=
  if longMarket = shortMarket then
    validateOutputMarket markets direction longMarket long short
  else do
    validateOutputMarket markets direction longMarket long ⟨long.token, 0⟩
    validateOutputMarket markets direction shortMarket short ⟨short.token, 0⟩

/-- Validates the current market unless an output market was it. -/
def validateCurrent (direction : SwapDirection) (validated : Bool) :
    Store.Result Unit :=
  if validated then .ok () else direction.currentMarket.validateMarketBalances 0 0

def validateOutputs (markets : SwapMarkets) (direction : SwapDirection)
    (longMarket shortMarket : Pubkey) (long short : Output) : Store.Result Unit := do
  validateOutputMarkets markets direction longMarket shortMarket long short
  validateCurrent direction
    (longMarket == direction.current || shortMarket == direction.current)

structure Swapped where
  markets : SwapMarkets
  direction : SwapDirection
  long : Option Output
  short : Option Output

def revertibleSwap (markets : SwapMarkets) (direction : SwapDirection)
    (params : SwapActionParams) (expectedTokenOuts : Pubkey × Pubkey)
    (tokenIns : Option Pubkey × Option Pubkey) (tokenInAmounts : ℕ × ℕ) :
    Store.Result Swapped := do
  let longPath ← params.validatedPrimarySwapPath
  let long ← swapSide oracle longPath expectedTokenOuts.1 tokenIns.1
    tokenInAmounts.1 markets direction
  let shortPath ← params.validatedSecondarySwapPath
  let short ← swapSide oracle shortPath expectedTokenOuts.2 tokenIns.2
    tokenInAmounts.2 long.markets long.direction
  validateOutputs short.markets short.direction
    (outputMarketToken short.direction longPath)
    (outputMarketToken short.direction shortPath)
    ⟨expectedTokenOuts.1, long.amount⟩ ⟨expectedTokenOuts.2, short.amount⟩
  return ⟨short.markets, short.direction, long.output, short.output⟩

end

end Gmsol.SwapPath
