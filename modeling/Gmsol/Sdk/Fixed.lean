import Gmsol.MarketGraph.Estimation

/-!
# Fixed-point numbers as decimals

Values and amounts are shown as decimals, whose mantissa has 96 bits and whose scale is
limited.  A number that has too many digits loses its last ones together with as many
places of its scale.
-/

namespace Gmsol.Sdk.Fixed

open Gmsol.Fallible

/-! ## Decimals -/

/-- The largest scale of a decimal. -/
def maxScale : ℕ := 28

structure Decimal where
  negative : Bool
  mantissa : ℕ
  scale : ℕ
  mantissa_le : mantissa ≤ maxRepr
  scale_le : scale ≤ maxScale
  deriving DecidableEq

/-- Why a conversion stops the program. -/
inductive Panic
  | arithmeticOverflow
  | invalidDecimal
  | expectFailed
  deriving DecidableEq, Repr

namespace Decimal

def zero : Decimal := ⟨false, 0, 0, Nat.zero_le _, Nat.zero_le _⟩

/-- The negation only flips the sign. -/
def neg (decimal : Decimal) : Decimal := { decimal with negative := !decimal.negative }

def magnitude (decimal : Decimal) : ℚ := decimal.mantissa / 10 ^ decimal.scale

def value (decimal : Decimal) : ℚ :=
  if decimal.negative then -decimal.magnitude else decimal.magnitude

/-- One unit in the last place. -/
def ulp (decimal : Decimal) : ℚ := 1 / 10 ^ decimal.scale

def tryFromI128WithScale (num : ℤ) (scale : ℕ) : Option Decimal :=
  if h : num.natAbs ≤ maxRepr ∧ scale ≤ maxScale then
    some ⟨decide (num < 0), num.natAbs, scale, h.1, h.2⟩
  else none

/-- This constructor stops the program where the other one fails. -/
def fromI128WithScale (num : ℤ) (scale : ℕ) : Except Panic Decimal :=
  okOr (tryFromI128WithScale num scale) .invalidDecimal

end Decimal

/-! ## Conversions -/

/-- The cast of a `u128` to an `i128`. -/
def asI128 (num : ℕ) : ℤ := if num < 2 ^ 127 then num else num - 2 ^ 128

def subOrPanic (left right : ℕ) : Except Panic ℕ :=
  if right ≤ left then .ok (left - right) else .error .arithmeticOverflow

/-- A power of ten in a type of the given number of bits. -/
def pow10 (bits exponent : ℕ) : Except Panic ℕ :=
  if 10 ^ exponent < 2 ^ bits then .ok (10 ^ exponent) else .error .arithmeticOverflow

def convertByChangeTheScale (num scale : ℕ) : Except Panic (Option Decimal) := do
  let digits := Nat.log 10 num
  let scaleDiff ← subOrPanic digits targetScale
  if scale < scaleDiff then return none
  else
    let power ← pow10 128 scaleDiff
    let decimal ← Decimal.fromI128WithScale (asI128 (num / power)) (scale - scaleDiff)
    return some decimal

def unsignedFixedToDecimal (num decimals : ℕ) : Except Panic (Option Decimal) :=
  if maxRepr < num then convertByChangeTheScale num decimals
  else .ok (Decimal.tryFromI128WithScale (asI128 num) decimals)

def withSign (isNegative : Bool) (decimal : Decimal) : Decimal :=
  if isNegative then decimal.neg else decimal

def signedFixedToDecimal (num : ℤ) (decimals : ℕ) : Except Panic (Option Decimal) := do
  let decimal ← unsignedFixedToDecimal num.natAbs decimals
  return decimal.map (withSign (num < 0))

def expectSome (decimal : Option Decimal) : Except Panic Decimal :=
  okOr decimal .expectFailed

def unsignedValueToDecimal (num : ℕ) : Except Panic Decimal := do
  let decimal ← unsignedFixedToDecimal num marketDecimals
  expectSome decimal

def signedValueToDecimal (num : ℤ) : Except Panic Decimal := do
  let decimal ← signedFixedToDecimal num marketDecimals
  expectSome decimal

def maxDecimals : ℕ := 28

def maxScaleForU64 : ℕ := 19

/-- An amount of too many decimals loses its last digits first. -/
def unsignedAmountToDecimal (num decimals : ℕ) : Except Panic Decimal :=
  if maxDecimals < decimals then
    let scaleDiff := decimals - maxDecimals
    if maxScaleForU64 < scaleDiff then .ok .zero
    else do
      let power ← pow10 64 scaleDiff
      let decimal ← unsignedFixedToDecimal (num / power) maxDecimals
      expectSome decimal
  else do
    let decimal ← unsignedFixedToDecimal num decimals
    expectSome decimal

def signedAmountToDecimal (num : ℤ) (decimals : ℕ) : Except Panic Decimal := do
  let decimal ← unsignedAmountToDecimal num.natAbs decimals
  return withSign (num < 0) decimal

example : (unsignedAmountToDecimal (2 ^ 64 - 1) 29).map Decimal.mantissa =
    .ok 1844674407370955161 := by
  decide +kernel

/-! ## Dropped digits -/

/-- How many digits a number loses. -/
def dropped (num : ℕ) : ℕ := if maxRepr < num then Nat.log 10 num - targetScale else 0

theorem targetScale_eq : targetScale = 27 := by
  have hlog : Nat.log 10 maxRepr = 28 :=
    Nat.log_eq_of_pow_le_of_lt_pow (by decide) (by decide)
  rw [targetScale, hlog]

/-- A number that is too large has from 29 to 39 digits. -/
theorem log_of_large {num : ℕ} (hlarge : maxRepr < num) (hnum : num < 2 ^ 128) :
    28 ≤ Nat.log 10 num ∧ Nat.log 10 num ≤ 38 := by
  have hlower : 10 ^ 28 ≤ num := le_trans (by decide) hlarge.le
  have hupper : num < 10 ^ 39 := hnum.trans (by decide)
  constructor
  · exact Nat.le_log_of_pow_le (show 1 < 10 by decide) hlower
  · have hlt : Nat.log 10 num < 39 := Nat.log_lt_of_lt_pow (by omega) hupper
    omega

theorem dropped_of_large {num : ℕ} (hlarge : maxRepr < num) :
    dropped num = Nat.log 10 num - 27 := by
  rw [dropped, if_pos hlarge, targetScale_eq]

theorem dropped_of_small {num : ℕ} (hsmall : num ≤ maxRepr) : dropped num = 0 := by
  rw [dropped, if_neg (not_lt.mpr hsmall)]

theorem dropped_le {num : ℕ} (hnum : num < 2 ^ 128) : dropped num ≤ 11 := by
  rcases le_or_gt num maxRepr with hsmall | hlarge
  · rw [dropped_of_small hsmall]
    exact Nat.zero_le _
  · have hlog := log_of_large hlarge hnum
    rw [dropped_of_large hlarge]
    omega

/-- The digits that are kept fit the mantissa. -/
theorem kept_le (num : ℕ) : num / 10 ^ dropped num ≤ maxRepr := by
  rcases le_or_gt num maxRepr with hsmall | hlarge
  · rw [dropped_of_small hsmall, pow_zero, Nat.div_one]
    exact hsmall
  · have hdigits : num < 10 ^ dropped num * 10 ^ 28 := by
      rw [dropped_of_large hlarge, ← pow_add]
      apply (Nat.lt_pow_succ_log_self (show 1 < 10 by decide) num).trans_le
      apply Nat.pow_le_pow_right (by decide)
      omega
    have hkept := Nat.div_lt_of_lt_mul hdigits
    exact hkept.le.trans (by decide)

theorem asI128_of_le {num : ℕ} (hle : num ≤ maxRepr) : asI128 num = num := by
  rw [asI128, if_pos (hle.trans_lt (by decide))]

/-- The decimal of the digits that are kept. -/
def keptDecimal (num decimals : ℕ) (hscale : decimals - dropped num ≤ maxScale) : Decimal :=
  ⟨false, num / 10 ^ dropped num, decimals - dropped num, kept_le num, hscale⟩

theorem tryFromI128WithScale_natCast {num scale : ℕ} (hnum : num ≤ maxRepr) :
    Decimal.tryFromI128WithScale num scale =
      if hscale : scale ≤ maxScale then some ⟨false, num, scale, hnum, hscale⟩ else none := by
  rw [Decimal.tryFromI128WithScale]
  by_cases hscale : scale ≤ maxScale
  · rw [dif_pos ⟨hnum, hscale⟩, dif_pos hscale]
    simp
  · rw [dif_neg fun hboth => hscale hboth.2, dif_neg hscale]

/-! ## What the conversion computes -/

theorem unsignedFixedToDecimal_of_small {num : ℕ} (hsmall : num ≤ maxRepr)
    (decimals : ℕ) :
    unsignedFixedToDecimal num decimals =
      .ok (if hscale : decimals - dropped num ≤ maxScale then
        some (keptDecimal num decimals hscale) else none) := by
  rw [unsignedFixedToDecimal, if_neg (not_lt.mpr hsmall), asI128_of_le hsmall,
    tryFromI128WithScale_natCast hsmall]
  simp only [keptDecimal, dropped_of_small hsmall, Nat.sub_zero, pow_zero, Nat.div_one]

/-- A number that is too large is refused where the scale is shorter than what is
dropped, and stops the program where it is still too long. -/
theorem unsignedFixedToDecimal_of_large {num : ℕ} (hlarge : maxRepr < num)
    (hnum : num < 2 ^ 128) (decimals : ℕ) :
    unsignedFixedToDecimal num decimals =
      if decimals < dropped num then .ok none
      else if hscale : decimals - dropped num ≤ maxScale then
        .ok (some (keptDecimal num decimals hscale))
      else .error .invalidDecimal := by
  have hlog := log_of_large hlarge hnum
  have hdropped := dropped_le hnum
  have hsub : subOrPanic (Nat.log 10 num) targetScale = .ok (dropped num) := by
    rw [subOrPanic, targetScale_eq, if_pos (by omega), dropped_of_large hlarge]
  have hpow : pow10 128 (dropped num) = .ok (10 ^ dropped num) := by
    rw [pow10, if_pos]
    calc 10 ^ dropped num ≤ 10 ^ 11 := Nat.pow_le_pow_right (by decide) hdropped
      _ < 2 ^ 128 := by decide
  rw [unsignedFixedToDecimal, if_pos hlarge, convertByChangeTheScale]
  simp only [hsub, ok_bind]
  split_ifs with hshort hscale
  · rfl
  · rw [hpow, ok_bind, asI128_of_le (kept_le num), Decimal.fromI128WithScale,
      tryFromI128WithScale_natCast (kept_le num), dif_pos hscale]
    rfl
  · rw [hpow, ok_bind, asI128_of_le (kept_le num), Decimal.fromI128WithScale,
      tryFromI128WithScale_natCast (kept_le num), dif_neg hscale]
    rfl

/-- The scale is not too long for a number that is too large. -/
def FitsScale (num decimals : ℕ) : Prop :=
  num ≤ maxRepr ∨ decimals ≤ maxScale + (Nat.log 10 num - targetScale)

theorem unsignedFixedToDecimal_returns_iff {num : ℕ} (hnum : num < 2 ^ 128)
    (decimals : ℕ) :
    (∃ result, unsignedFixedToDecimal num decimals = .ok result) ↔
      FitsScale num decimals := by
  rw [FitsScale, targetScale_eq]
  rcases le_or_gt num maxRepr with hsmall | hlarge
  · rw [unsignedFixedToDecimal_of_small hsmall]
    exact iff_of_true ⟨_, rfl⟩ (.inl hsmall)
  · have hdropped := dropped_of_large hlarge
    rw [unsignedFixedToDecimal_of_large hlarge hnum, ← hdropped]
    split_ifs with hshort hscale
    · exact iff_of_true ⟨_, rfl⟩ (.inr (by omega))
    · exact iff_of_true ⟨_, rfl⟩ (.inr (by omega))
    · apply iff_of_false
      · rintro ⟨result, hresult⟩
        exact absurd hresult (by simp)
      · omega

/-- A decimal that is returned has the digits that are kept. -/
theorem unsignedFixedToDecimal_eq_some {num decimals : ℕ} (hnum : num < 2 ^ 128)
    {decimal : Decimal} (hresult : unsignedFixedToDecimal num decimals = .ok (some decimal)) :
    dropped num ≤ decimals ∧ ∃ hscale, decimal = keptDecimal num decimals hscale := by
  rcases le_or_gt num maxRepr with hsmall | hlarge
  · rw [unsignedFixedToDecimal_of_small hsmall] at hresult
    split_ifs at hresult with hscale
    · refine ⟨?_, hscale, (Option.some.inj (Except.ok.inj hresult)).symm⟩
      exact (dropped_of_small hsmall).le.trans (Nat.zero_le _)
    · exact absurd hresult (by simp)
  · rw [unsignedFixedToDecimal_of_large hlarge hnum] at hresult
    split_ifs at hresult with hshort hscale
    · exact absurd hresult (by simp)
    · exact ⟨not_lt.mp hshort, hscale, (Option.some.inj (Except.ok.inj hresult)).symm⟩

theorem exists_unsignedFixedToDecimal {num decimals : ℕ} (hnum : num < 2 ^ 128)
    (hlong : dropped num ≤ decimals) (hscale : decimals - dropped num ≤ maxScale) :
    unsignedFixedToDecimal num decimals = .ok (some (keptDecimal num decimals hscale)) := by
  rcases le_or_gt num maxRepr with hsmall | hlarge
  · rw [unsignedFixedToDecimal_of_small hsmall, dif_pos hscale]
  · rw [unsignedFixedToDecimal_of_large hlarge hnum, if_neg (not_lt.mpr hlong),
      dif_pos hscale]

/-! ## Accuracy -/

/-- The number that a fixed-point number stands for. -/
def fixedValue (num decimals : ℕ) : ℚ := num / 10 ^ decimals

/-- The decimal is the number rounded down to its last place. -/
structure RoundsDown (num decimals : ℕ) (decimal : Decimal) : Prop where
  nonneg : 0 ≤ fixedValue num decimals - decimal.value
  below : fixedValue num decimals - decimal.value < decimal.ulp
  eq_of_small : num < 2 ^ 96 → decimal.value = fixedValue num decimals

theorem keptDecimal_roundsDown {num decimals : ℕ} (hlong : dropped num ≤ decimals)
    (hscale : decimals - dropped num ≤ maxScale) :
    RoundsDown num decimals (keptDecimal num decimals hscale) := by
  have hvalue : (keptDecimal num decimals hscale).value =
      (num / 10 ^ dropped num : ℕ) / 10 ^ (decimals - dropped num) := rfl
  have hexact : fixedValue num decimals =
      (num / 10 ^ dropped num : ℚ) / 10 ^ (decimals - dropped num) := by
    rw [fixedValue, div_div, ← pow_add, Nat.add_sub_cancel' hlong]
  have hscaled : (0 : ℚ) < 10 ^ (decimals - dropped num) := by positivity
  have hbelow : ((num / 10 ^ dropped num : ℕ) : ℚ) ≤ num / 10 ^ dropped num := by
    have hfloor := @Nat.cast_div_le ℚ _ _ _ num (10 ^ dropped num)
    rwa [Nat.cast_pow, Nat.cast_ofNat] at hfloor
  have habove : (num / 10 ^ dropped num : ℚ) < (num / 10 ^ dropped num : ℕ) + 1 := by
    have hrest : num < (num / 10 ^ dropped num + 1) * 10 ^ dropped num := by
      rw [Nat.add_one_mul]
      exact Nat.lt_div_mul_add (Nat.pow_pos (by decide))
    rw [div_lt_iff₀ (by positivity)]
    exact_mod_cast hrest
  constructor
  · rw [hvalue, hexact, ← sub_div]
    exact div_nonneg (sub_nonneg.mpr hbelow) hscaled.le
  · rw [hvalue, hexact, ← sub_div, Decimal.ulp]
    apply div_lt_div_of_pos_right _ hscaled
    linarith
  · intro hsmall
    have hnone : dropped num = 0 := dropped_of_small (Nat.le_sub_one_of_lt hsmall)
    rw [hvalue, hexact, hnone, pow_zero, pow_zero, Nat.div_one, div_one]

/-! ## Signs -/

theorem Decimal.value_neg (decimal : Decimal) : decimal.neg.value = -decimal.value := by
  rw [value, value]
  cases hsign : decimal.negative with
  | true => simp [neg, hsign, magnitude]
  | false => simp [neg, hsign, magnitude]

/-- The values that a conversion shows. -/
def shown (result : Except Panic (Option Decimal)) : Except Panic (Option ℚ) :=
  result.map (Option.map Decimal.value)

theorem signedFixedToDecimal_natCast (num decimals : ℕ) :
    signedFixedToDecimal num decimals = unsignedFixedToDecimal num decimals := by
  rw [signedFixedToDecimal, Int.natAbs_natCast]
  have hsign : decide ((num : ℤ) < 0) = false := decide_eq_false (by omega)
  have hsame : withSign false = id := rfl
  cases unsignedFixedToDecimal num decimals with
  | error stopped => rfl
  | ok result =>
      rw [ok_bind, hsign, hsame, Option.map_id]
      rfl

theorem shown_map_neg (result : Except Panic (Option Decimal)) :
    shown (result.map (Option.map Decimal.neg)) = (shown result).map (Option.map Neg.neg) := by
  cases result with
  | error stopped => rfl
  | ok found =>
      cases found with
      | none => rfl
      | some decimal =>
          show Except.ok (some decimal.neg.value) = Except.ok (some (-decimal.value))
          rw [Decimal.value_neg]

/-- The conversion of a negative number shows the negation of the positive one. -/
theorem signedFixedToDecimal_neg (num decimals : ℕ) :
    shown (signedFixedToDecimal (-(num : ℤ)) decimals) =
      (shown (unsignedFixedToDecimal num decimals)).map (Option.map Neg.neg) := by
  rcases Nat.eq_zero_or_pos num with rfl | hpositive
  · rw [Nat.cast_zero, neg_zero, ← Nat.cast_zero, signedFixedToDecimal_natCast,
      unsignedFixedToDecimal_of_small (Nat.zero_le _)]
    split_ifs
    · simp [shown, Except.map, Decimal.value, Decimal.magnitude, keptDecimal]
    · rfl
  · have hsign : decide (-(num : ℤ) < 0) = true := decide_eq_true (by omega)
    have hflip : withSign true = Decimal.neg := rfl
    have hsigned : signedFixedToDecimal (-(num : ℤ)) decimals =
        (unsignedFixedToDecimal num decimals).map (Option.map Decimal.neg) := by
      rw [signedFixedToDecimal, Int.natAbs_neg, Int.natAbs_natCast, hsign, hflip]
      cases unsignedFixedToDecimal num decimals <;> rfl
    rw [hsigned, shown_map_neg]

/-! ## Values and amounts -/

theorem exists_unsignedValueToDecimal {num : ℕ} (hnum : num < 2 ^ 128) :
    ∃ decimal, unsignedValueToDecimal num = .ok decimal := by
  have hdropped := dropped_le hnum
  have hlong : dropped num ≤ marketDecimals := hdropped.trans (by decide)
  have hscale : marketDecimals - dropped num ≤ maxScale :=
    (Nat.sub_le _ _).trans (by decide)
  have hresult := exists_unsignedFixedToDecimal hnum hlong hscale
  exact ⟨_, by rw [unsignedValueToDecimal, hresult]; rfl⟩

/-- The value that is shown is the one from which the market graph takes logarithms. -/
theorem unsignedValueToDecimal_value {num : ℕ} (hnum : num < 2 ^ 128) {decimal : Decimal}
    (hresult : unsignedValueToDecimal num = .ok decimal) :
    decimal.value = Sdk.unsignedValueToDecimal num := by
  simp only [unsignedValueToDecimal, bind_eq_ok, expectSome, okOr_eq_ok] at hresult
  obtain ⟨found, hfound, rfl⟩ := hresult
  obtain ⟨-, hscale, rfl⟩ := unsignedFixedToDecimal_eq_some hnum hfound
  have hvalue : (keptDecimal num marketDecimals hscale).value =
      (num / 10 ^ dropped num : ℕ) / 10 ^ (marketDecimals - dropped num) := rfl
  rw [hvalue, Sdk.unsignedValueToDecimal, dropped]
  split_ifs
  · rfl
  · rw [pow_zero, Nat.div_one, Nat.sub_zero]

/-- A signed conversion returns where the conversion of the magnitude does. -/
theorem exists_signedFixedToDecimal {num : ℤ} {decimals : ℕ} {decimal : Decimal}
    (hresult : unsignedFixedToDecimal num.natAbs decimals = .ok (some decimal)) :
    signedFixedToDecimal num decimals = .ok (some (withSign (num < 0) decimal)) := by
  rw [signedFixedToDecimal, hresult]
  rfl

theorem exists_signedValueToDecimal {num : ℤ} (hnum : num.natAbs < 2 ^ 128) :
    ∃ decimal, signedValueToDecimal num = .ok decimal := by
  have hdropped := dropped_le hnum
  have hlong : dropped num.natAbs ≤ marketDecimals := hdropped.trans (by decide)
  have hscale : marketDecimals - dropped num.natAbs ≤ maxScale :=
    (Nat.sub_le _ _).trans (by decide)
  have hresult := exists_signedFixedToDecimal
    (exists_unsignedFixedToDecimal hnum hlong hscale)
  exact ⟨_, by rw [signedValueToDecimal, hresult]; rfl⟩

/-- An amount of at most 28 decimals is shown as it is. -/
theorem exists_expectSome_small {num decimals : ℕ} (hnum : num < 2 ^ 64)
    (hdecimals : decimals ≤ maxDecimals) :
    ∃ decimal, (unsignedFixedToDecimal num decimals >>= expectSome) = .ok decimal := by
  have hsmall : num ≤ maxRepr := hnum.le.trans (by decide)
  have hscale : decimals - dropped num ≤ maxScale := (Nat.sub_le _ _).trans hdecimals
  rw [unsignedFixedToDecimal_of_small hsmall, dif_pos hscale]
  exact ⟨_, rfl⟩

theorem exists_unsignedAmountToDecimal {num : ℕ} (hnum : num < 2 ^ 64) (decimals : ℕ) :
    ∃ decimal, unsignedAmountToDecimal num decimals = .ok decimal := by
  rw [unsignedAmountToDecimal]
  dsimp only
  split_ifs with hmany hzero
  · exact ⟨_, rfl⟩
  · have hpow : pow10 64 (decimals - maxDecimals) = .ok (10 ^ (decimals - maxDecimals)) := by
      rw [pow10, if_pos]
      calc 10 ^ (decimals - maxDecimals) ≤ 10 ^ 19 :=
            Nat.pow_le_pow_right (by decide) (not_lt.mp hzero)
        _ < 2 ^ 64 := by decide
    rw [hpow, ok_bind]
    exact exists_expectSome_small ((Nat.div_le_self _ _).trans_lt hnum) le_rfl
  · exact exists_expectSome_small hnum (not_lt.mp hmany)

theorem exists_signedAmountToDecimal {num : ℤ} (hnum : num.natAbs < 2 ^ 64)
    (decimals : ℕ) : ∃ decimal, signedAmountToDecimal num decimals = .ok decimal := by
  obtain ⟨decimal, hresult⟩ := exists_unsignedAmountToDecimal hnum decimals
  exact ⟨_, by rw [signedAmountToDecimal, hresult]; rfl⟩

/-- The `expect` of no conversion of a value or an amount is hit. -/
structure NeverHitsExpect : Prop where
  unsignedValue : ∀ num : ℕ, num < 2 ^ 128 →
    ∃ decimal, unsignedValueToDecimal num = .ok decimal
  signedValue : ∀ num : ℤ, -2 ^ 127 ≤ num → num < 2 ^ 127 →
    ∃ decimal, signedValueToDecimal num = .ok decimal
  unsignedAmount : ∀ num decimals : ℕ, num < 2 ^ 64 →
    ∃ decimal, unsignedAmountToDecimal num decimals = .ok decimal
  signedAmount : ∀ (num : ℤ) (decimals : ℕ), -2 ^ 63 ≤ num → num < 2 ^ 63 →
    ∃ decimal, signedAmountToDecimal num decimals = .ok decimal

theorem neverHitsExpect : NeverHitsExpect where
  unsignedValue _ hnum := exists_unsignedValueToDecimal hnum
  signedValue _ hlower hupper := exists_signedValueToDecimal (by omega)
  unsignedAmount _ decimals hnum := exists_unsignedAmountToDecimal hnum decimals
  signedAmount _ decimals hlower hupper := exists_signedAmountToDecimal (by omega) decimals

/-- A conversion returns, is accurate, and is extended to negative numbers. -/
structure Faithful (num decimals : ℕ) : Prop where
  returns : ∃ result, unsignedFixedToDecimal num decimals = .ok result
  roundsDown : ∀ decimal, unsignedFixedToDecimal num decimals = .ok (some decimal) →
    RoundsDown num decimals decimal
  positive : signedFixedToDecimal num decimals = unsignedFixedToDecimal num decimals
  negative : shown (signedFixedToDecimal (-(num : ℤ)) decimals) =
    (shown (unsignedFixedToDecimal num decimals)).map (Option.map Neg.neg)

/-- A conversion is faithful exactly when the number has at most 96 bits or its scale
is not too long, and the values and amounts of the program always are shown. -/
theorem fixedToDecimal_faithful_iff (num decimals : ℕ) (hnum : num < 2 ^ 128) :
    (Faithful num decimals ↔ FitsScale num decimals) ∧ NeverHitsExpect := by
  refine ⟨⟨fun hfaithful => ?_, fun hfits => ?_⟩, neverHitsExpect⟩
  · exact (unsignedFixedToDecimal_returns_iff hnum decimals).mp hfaithful.returns
  · refine ⟨(unsignedFixedToDecimal_returns_iff hnum decimals).mpr hfits, ?_,
      signedFixedToDecimal_natCast num decimals, signedFixedToDecimal_neg num decimals⟩
    intro decimal hresult
    obtain ⟨hlong, hscale, rfl⟩ := unsignedFixedToDecimal_eq_some hnum hresult
    exact keptDecimal_roundsDown hlong hscale

/-- The largest value of 128 bits is shown with 9 of its 20 decimals. -/
theorem fixedToDecimal_faithful_max :
    (Faithful (2 ^ 128 - 1) 20 ↔ FitsScale (2 ^ 128 - 1) 20) ∧ NeverHitsExpect :=
  fixedToDecimal_faithful_iff (2 ^ 128 - 1) 20 (by decide)

/-- The smallest number of 97 bits stops the program at 30 decimals. -/
theorem fixedToDecimal_panics :
    unsignedFixedToDecimal (2 ^ 96) 30 = .error .invalidDecimal ∧
      ¬Faithful (2 ^ 96) 30 := by
  have hpanic : unsignedFixedToDecimal (2 ^ 96) 30 = .error .invalidDecimal := by
    decide +kernel
  refine ⟨hpanic, fun hfaithful => ?_⟩
  obtain ⟨result, hresult⟩ := hfaithful.returns
  exact absurd (hpanic.symm.trans hresult) (by simp)

end Gmsol.Sdk.Fixed
