import Gmsol.Library.FixedArray
import Gmsol.SwapPath.Market

/-!
# Swap parameters

A swap action stores two paths of market tokens and the tokens whose prices it
needs.  Both paths are validated when the action is created: no account occurs
twice, and each market takes the token that the one before it pays out.
-/

namespace Gmsol.SwapPath

open Fallible Container Store

def maxSteps : ℕ := 10

def maxTokens : ℕ := 2 * maxSteps + 2 + 3

structure SwapActionParams where
  primaryLength : ℕ
  secondaryLength : ℕ
  numTokens : ℕ
  currentMarketToken : Pubkey
  paths : Vector Pubkey maxSteps
  tokens : Vector Pubkey maxTokens

/-- Writes the listed values to the first slots of an array. -/
def writeFront {N : ℕ} (values : List Pubkey) (slots : Vector Pubkey N) :
    Vector Pubkey N :=
  Vector.ofFn fun slot => values.getD slot slots[slot]

/-- The elements of a set in ascending order. -/
def inOrder (tokens : Finset Pubkey) : List Pubkey :=
  Quot.liftOn tokens.val (List.insertionSort (· ≤ ·)) fun left right hperm =>
    ((left.perm_insertionSort _).trans
      (hperm.trans (right.perm_insertionSort _).symm)).eq_of_pairwise'
        (left.pairwise_insertionSort _) (right.pairwise_insertionSort _)

theorem mem_inOrder {tokens : Finset Pubkey} {token : Pubkey} :
    token ∈ inOrder tokens ↔ token ∈ tokens := by
  obtain ⟨elements, _⟩ := tokens
  induction elements using Quot.inductionOn with
  | h elements => exact List.mem_insertionSort _

/-- The accounts an instruction passes: market accounts and others. -/
abbrev AccountInfo := Option RevertibleMarket

def unpackMarket (info : AccountInfo) : Store.Result RevertibleMarket :=
  okOr info .accountDiscriminatorMismatch

/-- The address of a market account of a store. -/
structure Addresses where
  findMarketAddress : Pubkey → Pubkey → Pubkey

namespace Addresses

def ofMarket (addresses : Addresses) (market : RevertibleMarket) : Pubkey :=
  addresses.findMarketAddress market.store market.key

end Addresses

/-- What validating a path has gathered so far. -/
structure PathState where
  current : Pubkey
  seen : Finset Pubkey
  tokens : Finset Pubkey
  validatedMarketTokens : List Pubkey

def MarketMeta.orderedTokens (marketMeta : MarketMeta) : Finset Pubkey :=
  {marketMeta.indexTokenMint, marketMeta.longTokenMint, marketMeta.shortTokenMint}

/-- The token after a market of the path. -/
def nextToken (marketMeta : MarketMeta) (current : Pubkey) : Store.Result Pubkey :=
  if current = marketMeta.longTokenMint then .ok marketMeta.shortTokenMint
  else if current = marketMeta.shortTokenMint then .ok marketMeta.longTokenMint
  else .error .invalidSwapPath

def validateStep (addresses : Addresses) (store : Pubkey) (path : PathState)
    (info : AccountInfo) : Store.Result PathState := do
  let market ← unpackMarket info
  ensure (addresses.ofMarket market ∉ path.seen) .invalidSwapPath
  let marketMeta ← market.validatedMeta store
  let current ← nextToken marketMeta path.current
  return {
    current
    seen := insert (addresses.ofMarket market) path.seen
    tokens := path.tokens ∪ marketMeta.orderedTokens
    validatedMarketTokens := path.validatedMarketTokens ++ [marketMeta.marketTokenMint] }

/-- Returns the tokens so far and the market tokens of the path. -/
def validatePath (addresses : Addresses) (tokens : Finset Pubkey)
    (path : List AccountInfo) (store tokenIn tokenOut : Pubkey) :
    Store.Result (Finset Pubkey × List Pubkey) := do
  let done ← path.foldlM (validateStep addresses store) ⟨tokenIn, ∅, tokens, []⟩
  ensure (done.current = tokenOut) .invalidSwapPath
  return (done.tokens, done.validatedMarketTokens)

namespace SwapActionParams

def primarySwapPath (params : SwapActionParams) : List Pubkey :=
  params.paths.toList.take params.primaryLength

def secondarySwapPath (params : SwapActionParams) : List Pubkey :=
  (params.paths.toList.drop params.primaryLength).take params.secondaryLength

def validatedPrimarySwapPath (params : SwapActionParams) :
    Store.Result (List Pubkey) := do
  ensure params.primarySwapPath.Nodup .invalidSwapPath
  return params.primarySwapPath

def validatedSecondarySwapPath (params : SwapActionParams) :
    Store.Result (List Pubkey) := do
  ensure params.secondarySwapPath.Nodup .invalidSwapPath
  return params.secondarySwapPath

/-- The tokens of the action. -/
def tokenSet (params : SwapActionParams) : List Pubkey :=
  params.tokens.toList.take params.numTokens

def lastMarketToken (params : SwapActionParams) (isPrimary : Bool) : Option Pubkey :=
  if isPrimary then params.primarySwapPath.getLast?
  else params.secondarySwapPath.getLast?

def validateAndInit (addresses : Addresses) (params : SwapActionParams)
    (currentMarket : MarketMeta) (primaryLength secondaryLength : ℕ)
    (paths : List AccountInfo) (store : Pubkey) (tokenIns tokenOuts : Pubkey × Pubkey) :
    Store.Result SwapActionParams := do
  let stop := primaryLength + secondaryLength
  ensure (stop ≤ maxSteps) .invalidSwapPathLength
  ensure (stop ≤ paths.length) .notEnoughSwapMarkets
  let primary ← validatePath addresses currentMarket.orderedTokens
    (paths.take primaryLength) store tokenIns.1 tokenOuts.1
  let secondary ← validatePath addresses primary.1
    ((paths.take stop).drop primaryLength) store tokenIns.2 tokenOuts.2
  let tokens := inOrder secondary.1
  ensure (tokens.length ≤ maxTokens) .invalidSwapPath
  return {
    primaryLength
    secondaryLength
    numTokens := tokens.length
    currentMarketToken := currentMarket.marketTokenMint
    paths := writeFront (primary.2 ++ secondary.2) params.paths
    tokens := writeFront tokens params.tokens }

end SwapActionParams

end Gmsol.SwapPath
