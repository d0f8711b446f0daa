import Gmsol.Library.Fallible

/-!
# Numbers of the market model

The program works with a fixed-width unsigned type, its signed companion and
fixed-point factors with a constant number of decimals.  Values are natural
numbers and integers here; every operation checks its range exactly where the
program's checked operation does.
-/

namespace Gmsol.Model

open Gmsol.Fallible

/-- Which payment could not be met when a position is closed insolvently. -/
inductive InsolventCloseStep
  | pnl
  | fees
  | funding
  | impact
  | diff
  deriving DecidableEq, Repr

inductive LiquidatableReason
  | minCollateral
  | notPositive
  | minCollateralForLeverage
  deriving DecidableEq, Repr

inductive PnlFactorKind
  | maxAfterDeposit
  | maxAfterWithdrawal
  | maxForTrader
  | forAdl
  | minAfterAdl
  deriving DecidableEq, Repr

inductive Error
  | invalidArgument (message : String)
  | emptyDeposit
  | emptyWithdrawal
  | emptySwap
  | invalidPrices
  | computation (message : String)
  | powComputation
  | overflow
  | dividedByZero
  | invalidPoolValue (message : String)
  | convert
  | insufficientFundsToPayForCosts (step : InsolventCloseStep)
  | invalidPosition (message : String)
  | liquidatable (reason : LiquidatableReason)
  | notLiquidatable
  | unableToGetBorrowingFactorEmptyPoolValue
  | insufficientReserve (required max : ℕ)
  | insufficientReserveForOpenInterest (required max : ℕ)
  | pnlFactorExceeded (kind : PnlFactorKind) (side : String)
  | maxPoolAmountExceeded (side : String)
  | maxPoolValueExceeded (side : String)
  | maxOpenInterestExceeded
  | invalidTokenBalance (message : String) (expected balance : ℕ)
  | unableToGetFundingFactorEmptyOpenInterest
  | tokenAmountOverflow
  | panic (message : String)
  deriving DecidableEq, Repr

abbrev Result (α : Type) := Except Error α

/-- The number type of a market together with the constants that depend on it:
`u64` with 9 decimals and `u128` with 20 decimals are the program's instances.
`checkedPowd` is the decimal power used for exponents that are not a whole
number of units. -/
class MarketNum where
  bits : ℕ
  decimals : ℕ
  checkedPowd : ℕ → ℕ → Option ℕ
  usdToAmountDivisor : ℕ
  fundingAmountPerSizeAdjustment : ℕ
  holds_u64 : 64 ≤ bits
  adjustment_pos : 0 < fundingAmountPerSizeAdjustment

/-- The numbers of the store program: `u128` with 20 decimals. -/
@[reducible]
def storeNum (checkedPowd : ℕ → ℕ → Option ℕ) : MarketNum where
  bits := 128
  decimals := 20
  checkedPowd := checkedPowd
  usdToAmountDivisor := 10 ^ 11
  fundingAmountPerSizeAdjustment := 10 ^ 10
  holds_u64 := by norm_num
  adjustment_pos := by norm_num

/-- The store's numbers where no decimal power is needed. -/
@[reducible]
def storeNumbers : MarketNum := storeNum fun _ _ => none

export MarketNum (usdToAmountDivisor fundingAmountPerSizeAdjustment)

/-- The largest value of `u64`, the type of token amounts and supplies. -/
def maxU64 : ℕ := 2 ^ 64 - 1

section Operations

variable [MarketNum]

def maxUnsigned : ℕ := 2 ^ MarketNum.bits - 1

def maxSigned : ℤ := 2 ^ (MarketNum.bits - 1) - 1

def minSigned : ℤ := -2 ^ (MarketNum.bits - 1)

/-- The fixed-point value one. -/
def unit : ℕ := 10 ^ MarketNum.decimals

theorem unit_pos : 0 < unit := Nat.pow_pos (by norm_num)

def narrow (value : ℕ) : Option ℕ :=
  if value ≤ maxUnsigned then some value else none

def narrowSigned (value : ℤ) : Option ℤ :=
  if minSigned ≤ value ∧ value ≤ maxSigned then some value else none

/-! ## Unsigned operations -/

def checkedAdd (left right : ℕ) : Option ℕ := narrow (left + right)

def checkedSub (left right : ℕ) : Option ℕ :=
  if right ≤ left then some (left - right) else none

def checkedMul (left right : ℕ) : Option ℕ := narrow (left * right)

def checkedDiv (left right : ℕ) : Option ℕ :=
  if right = 0 then none else some (left / right)

def checkedRoundUpDiv (value divisor : ℕ) : Option ℕ :=
  if divisor = 0 then none
  else do
    let sum ← checkedAdd value divisor
    let pred ← checkedSub sum 1
    checkedDiv pred divisor

/-- `floor (value * numerator / denominator)` with full precision. -/
def checkedMulDiv (value numerator denominator : ℕ) : Option ℕ :=
  if denominator = 0 then none else narrow (value * numerator / denominator)

/-- `ceil (value * numerator / denominator)` with full precision. -/
def checkedMulDivCeil (value numerator denominator : ℕ) : Option ℕ :=
  if denominator = 0 then none else narrow ((value * numerator) ⌈/⌉ denominator)

/-! ## Signed operations -/

def signedAdd (left right : ℤ) : Option ℤ := narrowSigned (left + right)

def signedSub (left right : ℤ) : Option ℤ := narrowSigned (left - right)

def signedNeg (value : ℤ) : Option ℤ := narrowSigned (-value)

/-- Signed division truncates toward zero. -/
def signedDiv (left right : ℤ) : Option ℤ :=
  if right = 0 then none else narrowSigned (left.tdiv right)

/-! ## Mixed operations -/

def toSigned (value : ℕ) : Result ℤ :=
  if (value : ℤ) ≤ maxSigned then .ok value else .error .convert

def toOppositeSigned (value : ℕ) : Result ℤ := do
  let signed ← toSigned value
  okOr (signedNeg signed) (.computation "to opposite signed")

def toSignedWithSign (value : ℕ) (negative : Bool) : Result ℤ :=
  if negative then toOppositeSigned value else toSigned value

/-- The absolute difference of two values. -/
def diff (left right : ℕ) : ℕ := (left - right) + (right - left)

def checkedSignedSub (left right : ℕ) : Result ℤ :=
  if right ≤ left then toSigned (diff left right)
  else toOppositeSigned (diff left right)

def checkedAddWithSigned (value : ℕ) (delta : ℤ) : Option ℕ :=
  if 0 < delta then checkedAdd value delta.natAbs
  else checkedSub value delta.natAbs

def checkedSubWithSigned (value : ℕ) (delta : ℤ) : Option ℕ :=
  if 0 < delta then checkedSub value delta.natAbs
  else checkedAdd value delta.natAbs

def checkedMulWithSigned (value : ℕ) (factor : ℤ) : Option ℤ := do
  let product ← checkedMul value factor.natAbs
  let signed ← (toSigned product).toOption
  if factor < 0 then signedNeg signed else some signed

def checkedMulDivWithSignedNumerator (value : ℕ) (numerator : ℤ)
    (denominator : ℕ) : Option ℤ := do
  let quotient ← checkedMulDiv value numerator.natAbs denominator
  let signed ← (toSigned quotient).toOption
  if 0 < numerator then some signed else signedNeg signed

def asDivisorToRoundUpMagnitudeDiv (divisor : ℕ) (dividend : ℤ) : Option ℤ :=
  if divisor = 0 then none
  else do
    let signedDivisor ← (toSigned divisor).toOption
    if dividend < 0 then
      let shifted ← signedSub dividend signedDivisor
      let numerator ← signedAdd shifted 1
      signedDiv numerator signedDivisor
    else
      let shifted ← signedAdd dividend signedDivisor
      let numerator ← signedSub shifted 1
      signedDiv numerator signedDivisor

def boundMagnitude (value : ℤ) (min max : ℕ) : Result ℤ :=
  if min > max then .error (.invalidArgument "min > max")
  else if value.natAbs < min then toSignedWithSign min (value < 0)
  else if value.natAbs > max then toSignedWithSign max (value < 0)
  else .ok value

/-! ## Fixed-point operations -/

/-- The repeated multiplication of `checked_pow_fixed`. -/
def powUnits (base : ℕ) : ℕ → Option ℕ
  | 0 => some unit
  | count + 1 => do
      let power ← powUnits base count
      checkedMulDiv power base unit

def checkedPowFixed (base exponent : ℕ) : Option ℕ :=
  if exponent % unit = 0 then powUnits base (exponent / unit)
  else MarketNum.checkedPowd base exponent

/-- `x ^ E`; values below one are flushed to zero. -/
def applyExponentFactor (value exponentFactor : ℕ) : Option ℕ :=
  if value < unit then some 0
  else if value = unit then some unit
  else if exponentFactor = 0 then some unit
  else if exponentFactor = unit then some value
  else checkedPowFixed value exponentFactor

/-- `A * x ^ E`. -/
def applyFactors (value factor exponentFactor : ℕ) : Result ℕ := do
  let power ← okOr (applyExponentFactor value exponentFactor) .powComputation
  okOr (checkedMulDiv power factor unit) .overflow

/-- `A * x`. -/
def applyFactor (value factor : ℕ) : Option ℕ := checkedMulDiv value factor unit

def divToFactor (value divisor : ℕ) (roundUpMagnitude : Bool) : Option ℕ :=
  if divisor = 0 then some 0
  else if roundUpMagnitude then checkedMulDivCeil value unit divisor
  else checkedMulDiv value unit divisor

def divToFactorSigned (value : ℤ) (divisor : ℕ) : Option ℤ :=
  if divisor = 0 then some 0
  else checkedMulDivWithSignedNumerator unit value divisor

def usdToMarketTokenAmount (usdValue poolValue supply divisor : ℕ) : Option ℕ :=
  if divisor = 0 then none
  else if supply = 0 ∧ poolValue = 0 then checkedDiv usdValue divisor
  else if supply = 0 ∧ poolValue ≠ 0 then do
    let total ← checkedAdd poolValue usdValue
    checkedDiv total divisor
  else checkedMulDiv supply usdValue poolValue

def marketTokenAmountToUsd (amount poolValue supply : ℕ) : Option ℕ :=
  checkedMulDiv poolValue amount supply

/-! ## When the operations succeed -/

theorem narrow_eq_some {value result : ℕ} :
    narrow value = some result ↔ value ≤ maxUnsigned ∧ value = result := by
  simp [narrow]

theorem narrowSigned_eq_some {value result : ℤ} :
    narrowSigned value = some result ↔
      (minSigned ≤ value ∧ value ≤ maxSigned) ∧ value = result := by
  simp [narrowSigned]

theorem checkedAdd_eq_some {left right result : ℕ} :
    checkedAdd left right = some result ↔
      left + right ≤ maxUnsigned ∧ left + right = result :=
  narrow_eq_some

omit [MarketNum] in
theorem checkedSub_eq_some {left right result : ℕ} :
    checkedSub left right = some result ↔ right ≤ left ∧ left - right = result := by
  simp [checkedSub]

theorem checkedMul_eq_some {left right result : ℕ} :
    checkedMul left right = some result ↔
      left * right ≤ maxUnsigned ∧ left * right = result :=
  narrow_eq_some

omit [MarketNum] in
theorem checkedDiv_eq_some {left right result : ℕ} :
    checkedDiv left right = some result ↔ right ≠ 0 ∧ left / right = result := by
  simp [checkedDiv]

theorem checkedMulDiv_eq_some {value numerator denominator result : ℕ} :
    checkedMulDiv value numerator denominator = some result ↔
      denominator ≠ 0 ∧ value * numerator / denominator ≤ maxUnsigned ∧
        value * numerator / denominator = result := by
  unfold checkedMulDiv
  split <;> simp_all [narrow_eq_some]

theorem checkedMulDivCeil_eq_some {value numerator denominator result : ℕ} :
    checkedMulDivCeil value numerator denominator = some result ↔
      denominator ≠ 0 ∧ (value * numerator) ⌈/⌉ denominator ≤ maxUnsigned ∧
        (value * numerator) ⌈/⌉ denominator = result := by
  unfold checkedMulDivCeil
  split <;> simp_all [narrow_eq_some]

/-- Rounding up by adding the predecessor of the divisor is the ceiling. -/
theorem checkedRoundUpDiv_eq_some {value divisor result : ℕ} :
    checkedRoundUpDiv value divisor = some result ↔
      divisor ≠ 0 ∧ value + divisor ≤ maxUnsigned ∧
        value ⌈/⌉ divisor = result := by
  unfold checkedRoundUpDiv
  by_cases zero : divisor = 0
  · simp [zero]
  · have positive : 1 ≤ value + divisor := by omega
    simp only [if_neg zero, option_bind_eq_some, checkedAdd_eq_some,
      checkedSub_eq_some, checkedDiv_eq_some, Nat.ceilDiv_eq_add_pred_div]
    constructor
    · rintro ⟨_, ⟨fits, rfl⟩, _, ⟨_, rfl⟩, _, rfl⟩
      exact ⟨zero, fits, rfl⟩
    · rintro ⟨_, fits, rfl⟩
      exact ⟨_, ⟨fits, rfl⟩, _, ⟨positive, rfl⟩, zero, rfl⟩

theorem applyFactor_eq_some {value factor result : ℕ} :
    applyFactor value factor = some result ↔
      value * factor / unit ≤ maxUnsigned ∧ value * factor / unit = result := by
  simp [applyFactor, checkedMulDiv_eq_some, unit_pos.ne']

theorem signedAdd_eq_some {left right result : ℤ} :
    signedAdd left right = some result ↔
      (minSigned ≤ left + right ∧ left + right ≤ maxSigned) ∧
        left + right = result :=
  narrowSigned_eq_some

theorem signedSub_eq_some {left right result : ℤ} :
    signedSub left right = some result ↔
      (minSigned ≤ left - right ∧ left - right ≤ maxSigned) ∧
        left - right = result :=
  narrowSigned_eq_some

theorem signedNeg_eq_some {value result : ℤ} :
    signedNeg value = some result ↔
      (minSigned ≤ -value ∧ -value ≤ maxSigned) ∧ -value = result :=
  narrowSigned_eq_some

theorem toSigned_eq_ok {value : ℕ} {result : ℤ} :
    toSigned value = .ok result ↔ (value : ℤ) ≤ maxSigned ∧ (value : ℤ) = result := by
  unfold toSigned
  split <;> simp_all

theorem toOppositeSigned_eq_ok {value : ℕ} {result : ℤ} :
    toOppositeSigned value = .ok result ↔
      (value : ℤ) ≤ maxSigned ∧ -(value : ℤ) = result := by
  have lower : minSigned ≤ -maxSigned := by
    simp only [minSigned, maxSigned]
    omega
  have upper : (0 : ℤ) ≤ maxSigned := by
    simp only [maxSigned]
    have positive := pow_pos (show (0 : ℤ) < 2 by norm_num) (MarketNum.bits - 1)
    omega
  simp only [toOppositeSigned, bind_eq_ok, toSigned_eq_ok, okOr_eq_ok,
    signedNeg_eq_some]
  constructor
  · rintro ⟨_, ⟨fits, rfl⟩, _, rfl⟩
    exact ⟨fits, rfl⟩
  · rintro ⟨fits, rfl⟩
    exact ⟨_, ⟨fits, rfl⟩, ⟨by omega, by omega⟩, rfl⟩

omit [MarketNum] in
theorem natCast_diff_of_le {left right : ℕ} (ordered : right ≤ left) :
    ((diff left right : ℕ) : ℤ) = left - right := by
  unfold diff
  omega

omit [MarketNum] in
theorem natCast_diff_of_lt {left right : ℕ} (ordered : left < right) :
    ((diff left right : ℕ) : ℤ) = right - left := by
  unfold diff
  omega

theorem checkedSignedSub_eq_ok {left right : ℕ} {result : ℤ}
    (succeeds : checkedSignedSub left right = .ok result) :
    result = left - right := by
  unfold checkedSignedSub at succeeds
  split at succeeds
  · rename_i ordered
    rw [toSigned_eq_ok, natCast_diff_of_le ordered] at succeeds
    exact succeeds.2.symm
  · rename_i ordered
    rw [toOppositeSigned_eq_ok, natCast_diff_of_lt (by omega)] at succeeds
    omega

theorem checkedAddWithSigned_eq_some {value result : ℕ} {delta : ℤ}
    (succeeds : checkedAddWithSigned value delta = some result) :
    (result : ℤ) = value + delta := by
  unfold checkedAddWithSigned at succeeds
  split at succeeds
  · rw [checkedAdd_eq_some] at succeeds
    omega
  · rw [checkedSub_eq_some] at succeeds
    omega

end Operations

end Gmsol.Model
