import Gmsol.Library.Fallible

/-!
# Prices of feeds

A feed reports a price as an integer with a number of decimals.  The store
keeps it in 32 bits with a decimal multiplier, so that the kept value times the
multiplier is the price of one unit of the token.  This module embeds the
conversion and says when it is exact.
-/

namespace Gmsol.Oracle

open Gmsol.Fallible

/-- The type of the reported prices. -/
abbrev U128 := Fin (2 ^ 128)

structure Decimal where
  value : ℕ
  decimalMultiplier : ℕ
  deriving DecidableEq, Repr

inductive DecimalError
  | exceedMaxDecimals
  | exceedMaxDecimalMultiplier
  | overflow
  deriving DecidableEq, Repr

namespace Decimal

def maxDecimals : ℕ := 20

/-- The price of one unit, with `maxDecimals` decimals. -/
def toUnitPrice (decimal : Decimal) : ℕ :=
  decimal.value * 10 ^ decimal.decimalMultiplier

def decimalMultiplierFromPrecision (decimals precision : ℕ) : ℕ :=
  maxDecimals - decimals - precision

/-- `u128::checked_mul`. -/
def checkedMul (left right : ℕ) : Except DecimalError ℕ :=
  if left * right < 2 ^ 128 then .ok (left * right) else .error .overflow

/-- The price with at least the decimals of the token, and the exponent of the
divisor that is left when it has more. -/
def withTokenDecimals (price decimals tokenDecimals : ℕ) :
    Except DecimalError (ℕ × Option ℕ) :=
  if decimals = tokenDecimals then .ok (price, none)
  else if decimals < tokenDecimals then do
    let scaled ← checkedMul price (10 ^ (tokenDecimals - decimals))
    return (scaled, none)
  else .ok (price, some (decimals - tokenDecimals))

/-- The price with the decimals that the multiplier leaves. -/
def withPrecision (price : ℕ) (divisorExp : Option ℕ) (multiplier : ℕ) :
    Except DecimalError ℕ :=
  if multiplier ≤ maxDecimals then
    let exp := maxDecimals - multiplier
    match divisorExp with
    | some divisorExp =>
        if divisorExp ≤ exp then checkedMul price (10 ^ (exp - divisorExp))
        else .ok (price / 10 ^ (divisorExp - exp))
    | none => checkedMul price (10 ^ exp)
  else
    let scaled := price / 10 ^ (multiplier - maxDecimals)
    match divisorExp with
    | some divisorExp => .ok (scaled / 10 ^ divisorExp)
    | none => .ok scaled

def tryFromPrice (price : U128) (decimals tokenDecimals precision : ℕ) :
    Except DecimalError Decimal := do
  ensure (¬(maxDecimals < tokenDecimals ∨ maxDecimals < precision ∨
    maxDecimals < decimals)) .exceedMaxDecimals
  ensure (¬maxDecimals < tokenDecimals + precision) .exceedMaxDecimals
  let scaled ← withTokenDecimals price decimals tokenDecimals
  let decimalMultiplier := decimalMultiplierFromPrecision tokenDecimals precision
  let value ← withPrecision scaled.1 scaled.2 (2 * tokenDecimals + decimalMultiplier)
  -- the cast to `u32` keeps the low bits only
  return ⟨value % 2 ^ 32, decimalMultiplier⟩

/-! ## What the conversion computes -/

/-- The decimals the conversion accepts. -/
def WithinLimits (decimals tokenDecimals precision : ℕ) : Prop :=
  decimals ≤ maxDecimals ∧ tokenDecimals + precision ≤ maxDecimals

instance (decimals tokenDecimals precision : ℕ) :
    Decidable (WithinLimits decimals tokenDecimals precision) := by
  unfold WithinLimits
  infer_instance

/-- The price with the given precision, rounded down. -/
def floorPrice (price decimals precision : ℕ) : ℕ :=
  price * 10 ^ precision / 10 ^ decimals

/-- The largest intermediate product of the conversion. -/
def scaledPrice (price decimals tokenDecimals precision : ℕ) : ℕ :=
  price * 10 ^ (max tokenDecimals precision - decimals)

section Exponents

variable (price decimals tokenDecimals precision : ℕ)

/-- Decimals and precision can be raised together. -/
theorem floorPrice_add (shift : ℕ) :
    floorPrice price (decimals + shift) (precision + shift) =
      floorPrice price decimals precision := by
  rw [floorPrice, pow_add, pow_add, ← mul_assoc,
    Nat.mul_div_mul_right _ _ (by positivity), floorPrice]

theorem floorPrice_of_le (hle : decimals ≤ precision) :
    floorPrice price decimals precision = price * 10 ^ (precision - decimals) := by
  have hshift := floorPrice_add price 0 (precision - decimals) decimals
  rw [Nat.sub_add_cancel hle, zero_add] at hshift
  rw [hshift, floorPrice, pow_zero, Nat.div_one]

theorem floorPrice_of_ge (hle : precision ≤ decimals) :
    floorPrice price decimals precision = price / 10 ^ (decimals - precision) := by
  have hshift := floorPrice_add price (decimals - precision) 0 precision
  rw [Nat.sub_add_cancel hle, zero_add] at hshift
  rw [hshift, floorPrice, pow_zero, mul_one]

theorem multiplier_eq (hlimits : tokenDecimals + precision ≤ maxDecimals) :
    2 * tokenDecimals + decimalMultiplierFromPrecision tokenDecimals precision =
      maxDecimals + tokenDecimals - precision := by
  unfold decimalMultiplierFromPrecision
  omega

end Exponents

/-- A multiplication followed by an exact check of the product. -/
theorem checkedMul_eq (left right : ℕ) :
    checkedMul left right =
      if left * right < 2 ^ 128 then .ok (left * right) else .error .overflow :=
  rfl

section Conversion

variable {price decimals tokenDecimals precision : ℕ}

/-- The two scalings in a row. -/
def scale (price decimals tokenDecimals precision : ℕ) :
    Except DecimalError ℕ := do
  let scaled ← withTokenDecimals price decimals tokenDecimals
  withPrecision scaled.1 scaled.2 (maxDecimals + tokenDecimals - precision)

/-- What the scalings amount to. -/
def ScalesTo (price decimals tokenDecimals precision : ℕ) : Prop :=
  scale price decimals tokenDecimals precision =
    if scaledPrice price decimals tokenDecimals precision < 2 ^ 128 then
      .ok (floorPrice price decimals precision)
    else .error .overflow

theorem withPrecision_of_le {divisorExp : Option ℕ}
    (hle : tokenDecimals ≤ precision) (hlimit : precision ≤ maxDecimals) :
    withPrecision price divisorExp (maxDecimals + tokenDecimals - precision) =
      match divisorExp with
      | some divisorExp =>
          if divisorExp ≤ precision - tokenDecimals then
            checkedMul price (10 ^ (precision - tokenDecimals - divisorExp))
          else .ok (price / 10 ^ (divisorExp - (precision - tokenDecimals)))
      | none => checkedMul price (10 ^ (precision - tokenDecimals)) := by
  have hexp : maxDecimals - (maxDecimals + tokenDecimals - precision) =
      precision - tokenDecimals := by omega
  rw [withPrecision, if_pos (by omega), hexp]

theorem withPrecision_of_gt {divisorExp : Option ℕ}
    (hlt : precision < tokenDecimals) :
    withPrecision price divisorExp (maxDecimals + tokenDecimals - precision) =
      match divisorExp with
      | some divisorExp =>
          .ok (price / 10 ^ (tokenDecimals - precision) / 10 ^ divisorExp)
      | none => .ok (price / 10 ^ (tokenDecimals - precision)) := by
  have hexp : maxDecimals + tokenDecimals - precision - maxDecimals =
      tokenDecimals - precision := by omega
  rw [withPrecision, if_neg (by omega), hexp]

theorem scalesTo_of_eq (hprice : price < 2 ^ 128)
    (hlimit : precision ≤ maxDecimals) :
    ScalesTo price tokenDecimals tokenDecimals precision := by
  rw [ScalesTo, scale, withTokenDecimals, if_pos rfl]
  simp only [bind, Except.bind]
  rcases le_or_gt tokenDecimals precision with hle | hlt
  · rw [withPrecision_of_le hle hlimit, scaledPrice, max_eq_right hle,
      floorPrice_of_le _ _ _ hle]
    rfl
  · rw [withPrecision_of_gt hlt, scaledPrice, max_eq_left hlt.le, Nat.sub_self,
      pow_zero, mul_one, if_pos hprice, floorPrice_of_ge _ _ _ hlt.le]

theorem scalesTo_of_lt (hless : decimals < tokenDecimals)
    (hlimit : precision ≤ maxDecimals) :
    ScalesTo price decimals tokenDecimals precision := by
  rw [ScalesTo, scale, withTokenDecimals, if_neg hless.ne, if_pos hless,
    checkedMul_eq]
  rcases le_or_gt tokenDecimals precision with hle | hlt
  · have hproduct : price * 10 ^ (tokenDecimals - decimals) *
        10 ^ (precision - tokenDecimals) = price * 10 ^ (precision - decimals) := by
      rw [mul_assoc, ← pow_add]
      congr 2
      omega
    rw [scaledPrice, max_eq_right hle, floorPrice_of_le _ _ _ (hless.le.trans hle)]
    by_cases hfits : price * 10 ^ (tokenDecimals - decimals) < 2 ^ 128
    · rw [if_pos hfits]
      simp only [bind, Except.bind, pure, Except.pure]
      rw [withPrecision_of_le hle hlimit]
      simp only [checkedMul_eq, hproduct]
    · have hgrows : price * 10 ^ (tokenDecimals - decimals) ≤
          price * 10 ^ (precision - decimals) :=
        Nat.mul_le_mul_left _ (Nat.pow_le_pow_right (by norm_num) (by omega))
      rw [if_neg hfits, if_neg fun h => hfits (hgrows.trans_lt h)]
      rfl
  · rw [scaledPrice, max_eq_left hlt.le]
    split
    · simp only [bind, Except.bind, pure, Except.pure]
      rw [withPrecision_of_gt hlt]
      -- both sides are the same fraction with other exponents
      have hleft := floorPrice_add price (tokenDecimals - precision)
        (tokenDecimals - decimals) (decimals + precision)
      have hright := floorPrice_add price decimals precision tokenDecimals
      rw [show tokenDecimals - precision + (decimals + precision) =
          decimals + tokenDecimals by omega,
        show tokenDecimals - decimals + (decimals + precision) =
          precision + tokenDecimals by omega, hright] at hleft
      rw [hleft, floorPrice]
    · rfl

theorem scalesTo_of_gt (hprice : price < 2 ^ 128)
    (hmore : tokenDecimals < decimals) (hlimit : precision ≤ maxDecimals) :
    ScalesTo price decimals tokenDecimals precision := by
  rw [ScalesTo, scale, withTokenDecimals, if_neg hmore.ne', if_neg hmore.not_gt]
  simp only [bind, Except.bind]
  rcases le_or_gt tokenDecimals precision with hle | hlt
  · rw [withPrecision_of_le hle hlimit, scaledPrice, max_eq_right hle]
    by_cases hprecision : decimals ≤ precision
    · simp only
      rw [if_pos (by omega), floorPrice_of_le _ _ _ hprecision, checkedMul_eq,
        show precision - tokenDecimals - (decimals - tokenDecimals) =
          precision - decimals by omega]
    · simp only
      rw [if_neg (by omega), floorPrice_of_ge _ _ _ (by omega),
        show precision - decimals = 0 by omega, pow_zero, mul_one, if_pos hprice,
        show decimals - tokenDecimals - (precision - tokenDecimals) =
          decimals - precision by omega]
  · rw [withPrecision_of_gt hlt, scaledPrice, max_eq_left hlt.le,
      show tokenDecimals - decimals = 0 by omega, pow_zero, mul_one,
      if_pos hprice, floorPrice_of_ge _ _ _ (by omega)]
    simp only
    rw [Nat.div_div_eq_div_mul, ← pow_add,
      show tokenDecimals - precision + (decimals - tokenDecimals) =
        decimals - precision by omega]

/-- The scalings are one multiplication or one division, and fail exactly when
the product they go through does not fit. -/
theorem scalesTo (hprice : price < 2 ^ 128) (hlimit : precision ≤ maxDecimals) :
    ScalesTo price decimals tokenDecimals precision := by
  rcases lt_trichotomy decimals tokenDecimals with hless | rfl | hmore
  · exact scalesTo_of_lt hless hlimit
  · exact scalesTo_of_eq hprice hlimit
  · exact scalesTo_of_gt hprice hmore hlimit

end Conversion

section TryFromPrice

variable (price : U128) (decimals tokenDecimals precision : ℕ)

/-- The conversion keeps the low 32 bits of the rounded price. -/
theorem tryFromPrice_eq :
    tryFromPrice price decimals tokenDecimals precision =
      if WithinLimits decimals tokenDecimals precision then
        if scaledPrice price decimals tokenDecimals precision < 2 ^ 128 then
          .ok ⟨floorPrice price decimals precision % 2 ^ 32,
            decimalMultiplierFromPrecision tokenDecimals precision⟩
        else .error .overflow
      else .error .exceedMaxDecimals := by
  by_cases hlimits : WithinLimits decimals tokenDecimals precision
  · obtain ⟨hdecimals, hsum⟩ := hlimits
    have hscale : scale price decimals tokenDecimals precision = _ :=
      scalesTo price.isLt (by omega)
    rw [if_pos ⟨hdecimals, hsum⟩]
    rw [scale, ← multiplier_eq _ _ hsum] at hscale
    simp only [tryFromPrice, ensure_of (show ¬(maxDecimals < tokenDecimals ∨
        maxDecimals < precision ∨ maxDecimals < decimals) by omega),
      ensure_of (not_lt.mpr hsum)]
    cases hscaled : withTokenDecimals price decimals tokenDecimals with
    | error stopped =>
        simp only [hscaled, bind, Except.bind] at hscale ⊢
        split_ifs at hscale ⊢ with hfits
        rw [Except.error.injEq] at hscale ⊢
        exact hscale
    | ok scaled =>
        simp only [hscaled, bind, Except.bind] at hscale ⊢
        rw [hscale]
        split_ifs <;> rfl
  · rw [if_neg hlimits, tryFromPrice]
    by_cases hsingle : maxDecimals < tokenDecimals ∨ maxDecimals < precision ∨
        maxDecimals < decimals
    · rw [ensure, if_neg (not_not.mpr hsingle)]
      rfl
    · have hsum : maxDecimals < tokenDecimals + precision := by
        by_contra hle
        exact hlimits ⟨by omega, by omega⟩
      rw [ensure_of hsingle, ensure, if_neg (not_not.mpr hsum)]
      rfl

/-- The price of one unit, with `maxDecimals` decimals. -/
def truePrice : ℚ :=
  price * 10 ^ maxDecimals / (10 ^ decimals * 10 ^ tokenDecimals)

/-- The conversion yields the rounded price when it fits, and fails otherwise;
the rounding loses less than one step of the multiplier. -/
def ExactOrFails : Prop :=
  ∀ decimal, (tryFromPrice price decimals tokenDecimals precision = .ok decimal ↔
      WithinLimits decimals tokenDecimals precision ∧
        floorPrice price decimals precision < 2 ^ 32 ∧
        decimal = ⟨floorPrice price decimals precision,
          decimalMultiplierFromPrecision tokenDecimals precision⟩) ∧
    (tryFromPrice price decimals tokenDecimals precision = .ok decimal →
      |truePrice price decimals tokenDecimals - decimal.toUnitPrice| <
        10 ^ decimal.decimalMultiplier)

/-- The low 32 bits are the price, or the conversion does not get to them. -/
def FitsOrStops : Prop :=
  ¬WithinLimits decimals tokenDecimals precision ∨
    floorPrice price decimals precision < 2 ^ 32 ∨
    2 ^ 128 ≤ scaledPrice price decimals tokenDecimals precision

variable {price decimals tokenDecimals precision}

/-- A product that overflows is far above what 32 bits hold. -/
theorem le_floorPrice_of_scaledPrice {price : ℕ} (hprice : price < 2 ^ 128)
    (hlimits : WithinLimits decimals tokenDecimals precision)
    (hscaled : 2 ^ 128 ≤ scaledPrice price decimals tokenDecimals precision) :
    2 ^ 32 ≤ floorPrice price decimals precision := by
  obtain ⟨hdecimals, hsum⟩ := hlimits
  unfold scaledPrice at hscaled
  have hmore : decimals < max tokenDecimals precision := by
    by_contra hle
    rw [Nat.sub_eq_zero_of_le (not_lt.mp hle), pow_zero, mul_one] at hscaled
    exact absurd hprice (not_lt.mpr hscaled)
  have hshift : price * 10 ^ (max tokenDecimals precision - decimals) *
      10 ^ decimals ≤ price * 10 ^ precision * 10 ^ maxDecimals := by
    rw [mul_assoc, ← pow_add, mul_assoc, ← pow_add]
    apply Nat.mul_le_mul_left
    apply Nat.pow_le_pow_right (by norm_num)
    omega
  have hlow : 2 ^ 128 * 10 ^ decimals ≤ price * 10 ^ precision * 10 ^ maxDecimals :=
    (Nat.mul_le_mul_right _ hscaled).trans hshift
  have hconstant : 2 ^ 32 * 10 ^ maxDecimals ≤ 2 ^ 128 := by decide
  have hbound := (Nat.mul_le_mul_right (10 ^ decimals) hconstant).trans hlow
  rw [mul_right_comm] at hbound
  rw [floorPrice, Nat.le_div_iff_mul_le (by positivity)]
  exact Nat.le_of_mul_le_mul_right hbound (by positivity)

/-- Rounding down loses less than one step of the multiplier. -/
theorem floorPrice_close
    (hlimits : WithinLimits decimals tokenDecimals precision) :
    |truePrice price decimals tokenDecimals -
        (⟨floorPrice price decimals precision,
          decimalMultiplierFromPrecision tokenDecimals precision⟩ :
            Decimal).toUnitPrice| <
      10 ^ decimalMultiplierFromPrecision tokenDecimals precision := by
  obtain ⟨-, hsum⟩ := hlimits
  have hexponent : decimalMultiplierFromPrecision tokenDecimals precision +
      precision + tokenDecimals = maxDecimals := by
    unfold decimalMultiplierFromPrecision
    omega
  generalize decimalMultiplierFromPrecision tokenDecimals precision =
    multiplier at hexponent ⊢
  obtain ⟨quotient, hquotient⟩ : ∃ quotient : ℚ, quotient =
      (((price : ℕ) * 10 ^ precision : ℕ) : ℚ) / ((10 ^ decimals : ℕ) : ℚ) :=
    ⟨_, rfl⟩
  have hfraction : truePrice price decimals tokenDecimals =
      quotient * 10 ^ multiplier := by
    rw [truePrice, ← hexponent, pow_add, pow_add, hquotient]
    push_cast
    field_simp
  have hlow : ((floorPrice price decimals precision : ℕ) : ℚ) ≤ quotient := by
    rw [hquotient]
    exact Nat.cast_div_le
  have hhigh : quotient < (floorPrice price decimals precision : ℕ) + 1 := by
    have hnext : (price : ℕ) * 10 ^ precision <
        (floorPrice price decimals precision + 1) * 10 ^ decimals := by
      rw [mul_comm (floorPrice price decimals precision + 1)]
      exact Nat.lt_mul_div_succ _ (by positivity)
    rw [hquotient, div_lt_iff₀ (by positivity)]
    exact_mod_cast hnext
  have hstep : (0 : ℚ) < 10 ^ multiplier := by positivity
  simp only [hfraction, toUnitPrice, Nat.cast_mul, Nat.cast_pow, Nat.cast_ofNat]
  rw [← sub_mul, abs_mul, abs_of_pos hstep, abs_of_nonneg (sub_nonneg.mpr hlow)]
  have hless : quotient - floorPrice price decimals precision < 1 := by linarith
  calc (quotient - floorPrice price decimals precision) * 10 ^ multiplier
      < 1 * 10 ^ multiplier := by gcongr
    _ = 10 ^ multiplier := one_mul _

theorem exactOrFails_of_fitsOrStops
    (hfits : FitsOrStops price decimals tokenDecimals precision) :
    ExactOrFails price decimals tokenDecimals precision := by
  intro decimal
  rw [tryFromPrice_eq]
  by_cases hlimits : WithinLimits decimals tokenDecimals precision
  · rw [if_pos hlimits]
    rcases hfits.resolve_left (not_not.mpr hlimits) with hfloor | hstops
    · have hscaled : scaledPrice price decimals tokenDecimals precision < 2 ^ 128 := by
        by_contra hexceeds
        exact absurd (le_floorPrice_of_scaledPrice price.isLt hlimits (not_lt.mp hexceeds))
          (not_le.mpr hfloor)
      rw [if_pos hscaled, Nat.mod_eq_of_lt hfloor, Except.ok.injEq]
      refine ⟨⟨fun h => ⟨hlimits, hfloor, h.symm⟩, fun h => h.2.2.symm⟩, ?_⟩
      rintro rfl
      exact floorPrice_close hlimits
    · have hfloor := le_floorPrice_of_scaledPrice price.isLt hlimits hstops
      rw [if_neg (not_lt.mpr hstops)]
      exact ⟨⟨fun h => absurd h (by simp), fun h => absurd h.2.1 (not_lt.mpr hfloor)⟩,
        fun h => absurd h (by simp)⟩
  · rw [if_neg hlimits]
    exact ⟨⟨fun h => absurd h (by simp), fun h => absurd h.1 hlimits⟩,
      fun h => absurd h (by simp)⟩

theorem fitsOrStops_of_exactOrFails
    (hexact : ExactOrFails price decimals tokenDecimals precision) :
    FitsOrStops price decimals tokenDecimals precision := by
  by_cases hlimits : WithinLimits decimals tokenDecimals precision
  · refine .inr ?_
    by_cases hscaled : scaledPrice price decimals tokenDecimals precision < 2 ^ 128
    · have hresult := tryFromPrice_eq price decimals tokenDecimals precision
      rw [if_pos hlimits, if_pos hscaled] at hresult
      exact .inl ((hexact _).1.mp hresult).2.1
    · exact .inr (not_lt.mp hscaled)
  · exact .inl hlimits

theorem floorPrice_mono {lower : U128} (hle : lower ≤ price) :
    floorPrice lower decimals precision ≤ floorPrice price decimals precision :=
  Nat.div_le_div_right (Nat.mul_le_mul_right _ hle)

/-- The conversion is exact exactly where the price fits or the conversion
stops; among such prices it is monotone. -/
theorem tryFromPrice_exactOrFails_iff (price : U128)
    (decimals tokenDecimals precision : ℕ) :
    (ExactOrFails price decimals tokenDecimals precision ↔
      FitsOrStops price decimals tokenDecimals precision) ∧
    ∀ lower ≤ price, FitsOrStops lower decimals tokenDecimals precision →
      FitsOrStops price decimals tokenDecimals precision →
      ∀ least decimal,
        tryFromPrice lower decimals tokenDecimals precision = .ok least →
        tryFromPrice price decimals tokenDecimals precision = .ok decimal →
        least.toUnitPrice ≤ decimal.toUnitPrice := by
  refine ⟨⟨fitsOrStops_of_exactOrFails, exactOrFails_of_fitsOrStops⟩, ?_⟩
  intro lower hle hlower hprice least decimal hleast hdecimal
  obtain ⟨-, -, rfl⟩ := (exactOrFails_of_fitsOrStops hlower least).1.mp hleast
  obtain ⟨-, -, rfl⟩ := (exactOrFails_of_fitsOrStops hprice decimal).1.mp hdecimal
  exact Nat.mul_le_mul_right _ (floorPrice_mono hle)

/-- A price of 5000 kept with six digits of precision becomes 705.032704. -/
theorem tryFromPrice_wraps :
    tryFromPrice 500000000000 8 8 6 = .ok ⟨705032704, 6⟩ ∧
      ¬ExactOrFails 500000000000 8 8 6 := by
  have hresult : tryFromPrice 500000000000 8 8 6 = .ok ⟨705032704, 6⟩ := by
    decide +kernel
  refine ⟨hresult, fun hexact => ?_⟩
  have hfloor := ((hexact _).1.mp hresult).2.1
  revert hfloor
  decide +kernel

end TryFromPrice

end Decimal

end Gmsol.Oracle
