import Gmsol.SwapPath.Execute

/-!
# Actions that swap

Orders, deposits and withdrawals store their swap paths when they are created
and swap along them when they are executed.  Increasing a position and
depositing swap into the current market, decreasing and withdrawing out of it.
-/

namespace Gmsol.SwapPath

open Fallible Container Store

/-- The tokens an action is created for. -/
inductive SwapAction
  | swapOrder (initialCollateral finalOutput : Pubkey)
  | increaseOrder (initialCollateral : Pubkey) (isCollateralLong : Bool)
  | decreaseOrder (isLong isCollateralLong : Bool) (finalOutput : Pubkey)
  | deposit (initialLong initialShort : Option Pubkey)
  | withdrawal (finalLong finalShort : Pubkey)
  deriving DecidableEq, Repr

namespace SwapAction

/-- A swap order must pay out a token of its market. -/
def validateParamsExcludingSwap (marketMeta : MarketMeta) :
    SwapAction → Store.Result Unit
  | .swapOrder _ finalOutput =>
    ensure (marketMeta.isCollateralToken finalOutput = true) .tokenMintMismatched
  | .increaseOrder _ _ | .decreaseOrder _ _ _ | .deposit _ _ | .withdrawal _ _ =>
    .ok ()

/-- The tokens that go into the two paths. -/
def tokenIns (marketMeta : MarketMeta) : SwapAction → Pubkey × Pubkey
  | .swapOrder initialCollateral _ | .increaseOrder initialCollateral _ =>
    (initialCollateral, initialCollateral)
  | .decreaseOrder _ isCollateralLong _ =>
    (marketMeta.pnlToken isCollateralLong, marketMeta.pnlToken isCollateralLong)
  | .deposit initialLong initialShort =>
    (initialLong.getD marketMeta.longTokenMint,
      initialShort.getD marketMeta.shortTokenMint)
  | .withdrawal _ _ => (marketMeta.longTokenMint, marketMeta.shortTokenMint)

/-- The tokens that the two paths are declared to pay out; an order has no
secondary path. -/
def tokenOuts (marketMeta : MarketMeta) : SwapAction → Pubkey × Pubkey
  | .swapOrder initialCollateral finalOutput => (finalOutput, initialCollateral)
  | .increaseOrder initialCollateral isCollateralLong =>
    (marketMeta.pnlToken isCollateralLong, initialCollateral)
  | .decreaseOrder _ isCollateralLong finalOutput =>
    (finalOutput, marketMeta.pnlToken isCollateralLong)
  | .deposit _ _ => (marketMeta.longTokenMint, marketMeta.shortTokenMint)
  | .withdrawal finalLong finalShort => (finalLong, finalShort)

def secondaryLength (requested : ℕ) : SwapAction → ℕ
  | .swapOrder _ _ | .increaseOrder _ _ | .decreaseOrder _ _ _ => 0
  | .deposit _ _ | .withdrawal _ _ => requested

def create (addresses : Addresses) (action : SwapAction) (params : SwapActionParams)
    (market : RevertibleMarket) (primaryLength requestedSecondaryLength : ℕ)
    (paths : List AccountInfo) (store : Pubkey) : Store.Result SwapActionParams := do
  market.validate store
  action.validateParamsExcludingSwap market.marketMeta
  params.validateAndInit addresses market.marketMeta primaryLength
    (action.secondaryLength requestedSecondaryLength) paths store
    (action.tokenIns market.marketMeta) (action.tokenOuts market.marketMeta)

/-- Whether the swap is into the current market. -/
def isInto : SwapAction → Bool
  | .swapOrder _ _ | .increaseOrder _ _ | .deposit _ _ => true
  | .decreaseOrder _ _ _ | .withdrawal _ _ => false

/-- The tokens the two sides swap in; the secondary output of a decrease is the
other token than its collateral. -/
def swappedIns (marketMeta : MarketMeta) :
    SwapAction → Store.Result (Option Pubkey × Option Pubkey)
  | .swapOrder initialCollateral _ | .increaseOrder initialCollateral _ =>
    .ok (some initialCollateral, none)
  | .decreaseOrder _ isCollateralLong _ => do
    let isOutputTokenLong ←
      marketMeta.toTokenSide (marketMeta.pnlToken isCollateralLong)
    return (some (marketMeta.pnlToken isOutputTokenLong),
      some (marketMeta.pnlToken !isOutputTokenLong))
  | .deposit initialLong initialShort => .ok (initialLong, initialShort)
  | .withdrawal _ _ =>
    .ok (some marketMeta.longTokenMint, some marketMeta.shortTokenMint)

/-- The tokens the two sides are expected to pay out. -/
def expectedTokenOuts (marketMeta : MarketMeta) : SwapAction → Pubkey × Pubkey
  | .swapOrder _ finalOutput => (finalOutput, finalOutput)
  | .increaseOrder _ isCollateralLong =>
    (marketMeta.pnlToken isCollateralLong, marketMeta.pnlToken isCollateralLong)
  | .decreaseOrder isLong _ finalOutput => (finalOutput, marketMeta.pnlToken isLong)
  | .deposit _ _ => (marketMeta.longTokenMint, marketMeta.shortTokenMint)
  | .withdrawal finalLong finalShort => (finalLong, finalShort)

/-- A decrease must have merged its outputs when both are the same token. -/
def validateAmounts (marketMeta : MarketMeta) (amounts : ℕ × ℕ) :
    SwapAction → Store.Result Unit
  | .decreaseOrder isLong isCollateralLong _ => do
    let isOutputTokenLong ←
      marketMeta.toTokenSide (marketMeta.pnlToken isCollateralLong)
    ensure (amounts.2 = 0 ∨ isOutputTokenLong ≠ isLong) .sameOutputTokensNotMerged
  | .swapOrder _ _ | .increaseOrder _ _ | .deposit _ _ | .withdrawal _ _ => .ok ()

def execute [Model.MarketNum] (oracle : Oracle) (action : SwapAction)
    (markets : SwapMarkets) (market : RevertibleMarket) (params : SwapActionParams)
    (amounts : ℕ × ℕ) : Store.Result Swapped := do
  action.validateAmounts market.marketMeta amounts
  let tokenIns ← action.swappedIns market.marketMeta
  revertibleSwap oracle markets ⟨action.isInto, market⟩ params
    (action.expectedTokenOuts market.marketMeta) tokenIns amounts

end SwapAction

end Gmsol.SwapPath
