import Gmsol.Model.Num

/-!
# Prices and side-indexed data

Every token has a minimal and a maximal price.  Data kept once for the long
and once for the short side is a `Sided` pair addressed by the side flag.
-/

namespace Gmsol.Model

open Gmsol.Fallible

structure Price where
  min : ℕ
  max : ℕ
  deriving DecidableEq, Repr

namespace Price

def pickPriceForPnl (price : Price) (isLong maximize : Bool) : ℕ :=
  if isLong ^^ maximize then price.min else price.max

def pickPrice (price : Price) (maximize : Bool) : ℕ :=
  if maximize then price.max else price.min

def hasZero (price : Price) : Bool := price.min == 0 || price.max == 0

def checkedMid [MarketNum] (price : Price) : Option ℕ := do
  let sum ← checkedAdd price.min price.max
  checkedDiv sum 2

/-- `Price::mid` panics when the sum of the two prices overflows. -/
def mid [MarketNum] (price : Price) : Result ℕ :=
  okOr price.checkedMid (.panic "cannot calculate the mid price")

def isValid [MarketNum] (price : Price) : Bool :=
  price.min != 0 && price.max != 0 && price.checkedMid.isSome

end Price

structure Prices where
  indexTokenPrice : Price
  longTokenPrice : Price
  shortTokenPrice : Price
  deriving DecidableEq, Repr

namespace Prices

def collateralTokenPrice (prices : Prices) (isLong : Bool) : Price :=
  if isLong then prices.longTokenPrice else prices.shortTokenPrice

def isValid [MarketNum] (prices : Prices) : Bool :=
  prices.indexTokenPrice.isValid && prices.longTokenPrice.isValid &&
    prices.shortTokenPrice.isValid

def validate [MarketNum] (prices : Prices) : Result Unit :=
  ensure prices.isValid (.invalidArgument "invalid prices")

theorem min_pos_of_isValid [MarketNum] {price : Price}
    (valid : price.isValid = true) : 0 < price.min := by
  simp only [Price.isValid, Bool.and_eq_true, bne_iff_ne, ne_eq] at valid
  exact Nat.pos_of_ne_zero valid.1.1

theorem max_pos_of_isValid [MarketNum] {price : Price}
    (valid : price.isValid = true) : 0 < price.max := by
  simp only [Price.isValid, Bool.and_eq_true, bne_iff_ne, ne_eq] at valid
  exact Nat.pos_of_ne_zero valid.1.2

theorem collateralTokenPrice_isValid [MarketNum] {prices : Prices}
    (valid : prices.isValid = true) (isLong : Bool) :
    (prices.collateralTokenPrice isLong).isValid = true := by
  simp only [isValid, Bool.and_eq_true] at valid
  cases isLong
  · exact valid.2
  · exact valid.1.2

end Prices

/-- A pair of values, one for each side of the market. -/
structure Sided (α : Type) where
  forLong : α
  forShort : α
  deriving DecidableEq, Repr

namespace Sided

variable {α : Type}

def get (pair : Sided α) (isLong : Bool) : α :=
  if isLong then pair.forLong else pair.forShort

def set (pair : Sided α) (isLong : Bool) (value : α) : Sided α :=
  if isLong then { pair with forLong := value }
  else { pair with forShort := value }

@[simp]
theorem get_set_self (pair : Sided α) (isLong : Bool) (value : α) :
    (pair.set isLong value).get isLong = value := by
  cases isLong <;> rfl

theorem get_set_of_ne (pair : Sided α) {side isLong : Bool} (value : α)
    (different : side ≠ isLong) :
    (pair.set isLong value).get side = pair.get side := by
  cases isLong <;> cases side <;> first | rfl | exact absurd rfl different

theorem get_set (pair : Sided α) (side isLong : Bool) (value : α) :
    (pair.set isLong value).get side =
      if side = isLong then value else pair.get side := by
  by_cases same : side = isLong
  · subst same
    simp
  · rw [get_set_of_ne pair value same, if_neg same]

end Sided

end Gmsol.Model
