import Gmsol.Model.Market

/-!
# Recorded balances

The market records every token amount that is transferred in or out.  The
records are checked against what the pools promise; the pools and the
collateral are checked one after the other and not as a sum.
-/

namespace Gmsol.Model

open Gmsol.Fallible

namespace Market

variable {isPure : Bool}

def balanceForToken (market : Market isPure) (isLongToken : Bool) : ℕ :=
  if isLongToken || isPure then market.longTokenBalance
  else market.shortTokenBalance

def setBalanceForToken (market : Market isPure) (isLongToken : Bool)
    (balance : ℕ) : Market isPure :=
  if isLongToken || isPure then { market with longTokenBalance := balance }
  else { market with shortTokenBalance := balance }

def recordTransferredIn (market : Market isPure) (isLongToken : Bool)
    (amount : ℕ) : Result (Market isPure) := do
  let balance := market.balanceForToken isLongToken + amount
  ensure (balance ≤ maxU64) .tokenAmountOverflow
  return market.setBalanceForToken isLongToken balance

def recordTransferredOut (market : Market isPure) (isLongToken : Bool)
    (amount : ℕ) : Result (Market isPure) := do
  ensure (amount ≤ market.balanceForToken isLongToken) .tokenAmountOverflow
  return market.setBalanceForToken isLongToken
    (market.balanceForToken isLongToken - amount)

def balanceExcluding (market : Market isPure) (isLongToken : Bool)
    (excluded : ℕ) : Result ℕ :=
  if excluded = 0 then .ok (market.balanceForToken isLongToken)
  else
    okOr (checkedSub (market.balanceForToken isLongToken) excluded)
      (.computation "underflow when excluding amount of balance")

variable [MarketNum]

/-- Adds the other side of a pure market to an amount of one side. -/
def addOtherSide (isPure : Bool) (amount : ℕ) (other : Result ℕ)
    (message : String) : Result ℕ :=
  if isPure then do
    let otherAmount ← other
    okOr (checkedAdd amount otherAmount) (.computation message)
  else .ok amount

def validateMarketBalanceForTheGivenToken (market : Market isPure)
    (isLongToken : Bool) (excluded : ℕ) : Result Unit := do
  let balance ← market.balanceExcluding isLongToken excluded
  let oneSide ←
    market.expectedMinTokenBalanceExcludingCollateralAmountForOneTokenSide
      isLongToken
  let minTokenBalance ← addOtherSide isPure oneSide
    (market.expectedMinTokenBalanceExcludingCollateralAmountForOneTokenSide
      !isLongToken)
    "validate balance: overflow while adding the min token balance for the other side"
  ensure (minTokenBalance ≤ balance) (.invalidTokenBalance
    "Less than expected min token balance excluding collateral amount"
    minTokenBalance balance)
  let oneSideCollateral ← market.totalCollateralAmountForOneTokenSide isLongToken
  let collateralAmount ← addOtherSide isPure oneSideCollateral
    (market.totalCollateralAmountForOneTokenSide !isLongToken)
    "validate balance: overflow while adding the collateral amount for the other side"
  ensure (collateralAmount ≤ balance) (.invalidTokenBalance
    "Less than total collateral amount" collateralAmount balance)

def validateMarketBalances (market : Market isPure)
    (longExcludingAmount shortExcludingAmount : ℕ) : Result Unit :=
  if isPure then do
    let total := longExcludingAmount + shortExcludingAmount
    ensure (total ≤ maxU64) .tokenAmountOverflow
    market.validateMarketBalanceForTheGivenToken true total
  else do
    market.validateMarketBalanceForTheGivenToken true longExcludingAmount
    market.validateMarketBalanceForTheGivenToken false shortExcludingAmount

end Market

end Gmsol.Model
