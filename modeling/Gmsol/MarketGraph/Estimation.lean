import Gmsol.Action.Swap

/-!
# Estimated exchange rates

The rate between the two sides of a market is estimated by a trial swap of a
given value.  The logarithm of the rate is what the edges of the market graph
carry, so that the rates along a path multiply while the logarithms add up.
-/

namespace Gmsol.Sdk

open Gmsol.Model

/-- Decimal numbers, whose sums and comparisons are exact. -/
abbrev Decimal : Type := ℚ

structure MarketMeta (Token : Type) where
  marketTokenMint : Token
  indexTokenMint : Token
  longTokenMint : Token
  shortTokenMint : Token
  deriving DecidableEq, Repr

/-- A market with the tokens it is about. -/
structure MarketModel (Token : Type) where
  isPure : Bool
  info : MarketMeta Token
  market : Market isPure

structure SwapEstimation where
  lnExchangeRate : Decimal
  deriving DecidableEq, Repr

structure SwapEstimationParams where
  value : ℕ
  baseCost : ℕ
  deriving DecidableEq, Repr

structure MarketGraphConfig where
  swapEstimationParams : SwapEstimationParams
  maxSteps : ℕ
  deriving DecidableEq, Repr

def marketDecimals : ℕ := 20

/-- The largest number that a decimal keeps digit by digit. -/
def maxRepr : ℕ := 2 ^ 96 - 1

/-- One digit less than the largest number has. -/
def targetScale : ℕ := Nat.log 10 maxRepr - 1

/-- A number with more digits than a decimal keeps loses its last ones. -/
def unsignedValueToDecimal (num : ℕ) : Decimal :=
  if maxRepr < num then
    let scaleDiff := Nat.log 10 num - targetScale
    (num / 10 ^ scaleDiff : ℕ) / 10 ^ (marketDecimals - scaleDiff)
  else num / 10 ^ marketDecimals

section Estimate

variable [MarketNum] {Token : Type} (checkedLn : Decimal → Option Decimal)

/-- The trial swap; the prices are validated before anything is computed from
them. -/
def trialSwap (model : MarketModel Token) (isFromLongSide : Bool)
    (tokenInAmount : ℕ) (prices : Prices) : Option SwapReport :=
  match Swap.execute model.market ⟨isFromLongSide, tokenInAmount, prices⟩ with
  | .ok (_, report) => some report
  | .error _ => none

def SwapEstimationParams.estimate (params : SwapEstimationParams)
    (model : MarketModel Token) (isFromLongSide : Bool) (prices : Option Prices) :
    Option SwapEstimation :=
  if params.value = 0 then none
  else do
    let prices ← prices
    let tokenInAmount ←
      checkedDiv params.value (prices.collateralTokenPrice isFromLongSide).min
    let swap ← trialSwap model isFromLongSide tokenInAmount prices
    let tokenOutValue ← checkedMul swap.tokenOutAmount
      (prices.collateralTokenPrice !isFromLongSide).max
    if tokenOutValue ≤ params.baseCost then none
    else do
      let exchangeRate ←
        divToFactor (tokenOutValue - params.baseCost) params.value false
      let lnExchangeRate ← checkedLn (unsignedValueToDecimal exchangeRate)
      some ⟨lnExchangeRate⟩

def MarketGraphConfig.estimate (config : MarketGraphConfig)
    (model : MarketModel Token) (isFromLongSide : Bool) (prices : Option Prices) :
    Option SwapEstimation :=
  config.swapEstimationParams.estimate checkedLn model isFromLongSide prices

end Estimate

end Gmsol.Sdk
