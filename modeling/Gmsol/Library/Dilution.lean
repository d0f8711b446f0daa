import Mathlib

/-!
# The value of a share

A value belongs to the holders of a supply of shares.  Whoever buys shares for no less
than they are worth, and whoever sells them for no more, does not dilute the others: the
value of a share never falls.
-/

namespace Gmsol.Dilution

/-- The value of one share. -/
def perShare (value : ℤ) (supply : ℕ) : ℚ := value / supply

variable {value other gained paid : ℤ} {supply next minted burned : ℕ}

theorem perShare_le_iff (hsupply : 0 < supply) (hnext : 0 < next) :
    perShare value supply ≤ perShare other next ↔ value * next ≤ other * supply := by
  have hpositive : (0 : ℚ) < supply := Nat.cast_pos.mpr hsupply
  have hnextPositive : (0 : ℚ) < next := Nat.cast_pos.mpr hnext
  rw [perShare, perShare, div_le_div_iff₀ hpositive hnextPositive]
  exact_mod_cast Iff.rfl

/-- A larger value is worth more by the share. -/
theorem perShare_mono (hle : value ≤ other) : perShare value supply ≤ perShare other supply := by
  have hcast : (value : ℚ) ≤ other := Int.cast_le.mpr hle
  exact div_le_div_of_nonneg_right hcast (Nat.cast_nonneg supply)

/-- Shares that are minted for what is gained dilute nobody. -/
theorem perShare_le_mint (hsupply : 0 < supply) (hminted : minted * value ≤ supply * gained) :
    perShare value supply ≤ perShare (value + gained) (supply + minted) := by
  rw [perShare_le_iff hsupply (Nat.add_pos_left hsupply minted)]
  push_cast
  calc value * (supply + minted) = value * supply + minted * value := by ring
    _ ≤ value * supply + supply * gained := by
        apply Int.add_le_add_left
        exact hminted
    _ = (value + gained) * supply := by ring

/-- Shares that are burned for what is paid dilute nobody. -/
theorem perShare_le_burn (hburned : burned < supply) (hpaid : paid * supply ≤ value * burned) :
    perShare value supply ≤ perShare (value - paid) (supply - burned) := by
  rw [perShare_le_iff (Nat.zero_lt_of_lt hburned) (Nat.sub_pos_of_lt hburned),
    Nat.cast_sub hburned.le]
  calc value * ((supply : ℤ) - burned) = value * supply - value * burned := by ring
    _ ≤ value * supply - paid * supply := by
        apply Int.sub_le_sub_left
        exact hpaid
    _ = (value - paid) * supply := by ring

end Gmsol.Dilution
