import Mathlib

/-!
# Shares of a shrinking balance

A balance is shared among claims: each claim takes its floored share of what
is left, over the claims that are left.  The dust of a floor stays in the
balance, so the rate never falls, and the last claim takes everything.
-/

namespace Gmsol.ProRata

/-- The floored share of a claim in a balance that belongs to `total` claims. -/
def share (balance claim total : ℕ) : ℕ := balance * claim / total

variable {initial total balance claim remaining : ℕ}

theorem share_le (hclaim : claim ≤ total) : share balance claim total ≤ balance := by
  rcases Nat.eq_zero_or_pos total with hzero | hpos
  · simp [share, hzero]
  · exact Nat.div_le_of_le_mul
      ((Nat.mul_le_mul_left balance hclaim).trans (Nat.mul_comm _ _).le)

theorem share_zero_balance : share 0 claim total = 0 := by
  rw [share, zero_mul, Nat.zero_div]

/-- The whole claim takes the whole balance. -/
theorem share_self (hpos : 0 < total) : share balance total total = balance :=
  Nat.mul_div_cancel balance hpos

/-- What is left for each remaining claim is at least what there was for each
claim at the start. -/
def Covers (initial total balance remaining : ℕ) : Prop :=
  initial * remaining ≤ balance * total

theorem Covers.start : Covers initial total initial total := Nat.le_refl _

/-- A claim takes at least its share of the initial balance. -/
theorem Covers.share_le (hcovers : Covers initial total balance remaining)
    (hremaining : 0 < remaining) :
    share initial claim total ≤ share balance claim remaining := by
  rcases Nat.eq_zero_or_pos total with hzero | hpos
  · simp [share, hzero]
  unfold share
  rw [Nat.le_div_iff_mul_le hremaining]
  apply Nat.le_of_mul_le_mul_right _ hpos
  calc initial * claim / total * remaining * total
      = initial * claim / total * total * remaining := by ring
    _ ≤ initial * claim * remaining :=
        Nat.mul_le_mul_right _ (Nat.div_mul_le_self _ _)
    _ = initial * remaining * claim := by ring
    _ ≤ balance * total * claim := Nat.mul_le_mul_right _ hcovers
    _ = balance * claim * total := by ring

/-- Taking a share does not lower the rate for the claims that are left. -/
theorem Covers.step (hcovers : Covers initial total balance remaining)
    (hremaining : 0 < remaining) :
    Covers initial total (balance - share balance claim remaining)
      (remaining - claim) := by
  have htaken : balance * (remaining - claim) ≤
      (balance - share balance claim remaining) * remaining := by
    have hfloor : share balance claim remaining * remaining ≤ balance * claim :=
      Nat.div_mul_le_self _ _
    rw [Nat.mul_sub, Nat.sub_mul]
    omega
  unfold Covers at hcovers ⊢
  apply Nat.le_of_mul_le_mul_right _ hremaining
  calc initial * (remaining - claim) * remaining
      = initial * remaining * (remaining - claim) := by ring
    _ ≤ balance * total * (remaining - claim) := Nat.mul_le_mul_right _ hcovers
    _ = balance * (remaining - claim) * total := by ring
    _ ≤ (balance - share balance claim remaining) * remaining * total :=
        Nat.mul_le_mul_right _ htaken
    _ = (balance - share balance claim remaining) * total * remaining := by ring

/-- Floored shares of amounts are worth at most the claim, when the total is what the
amounts are worth. -/
theorem worth_shares_le {entries : List (ℕ × ℕ)} (hpos : 0 < total)
    (htotal : (entries.map fun entry => entry.1 * entry.2).sum = total) :
    (entries.map fun entry => share entry.1 claim total * entry.2).sum ≤ claim := by
  have hscaled : ∀ shared : List (ℕ × ℕ),
      (shared.map fun entry => share entry.1 claim total * entry.2).sum * total ≤
        claim * (shared.map fun entry => entry.1 * entry.2).sum := by
    intro shared
    induction shared with
    | nil => simp
    | cons entry rest ih =>
        have hfloor : share entry.1 claim total * total ≤ entry.1 * claim :=
          Nat.div_mul_le_self _ _
        simp only [List.map_cons, List.sum_cons, Nat.add_mul, Nat.mul_add]
        apply Nat.add_le_add _ ih
        calc share entry.1 claim total * entry.2 * total
            = share entry.1 claim total * total * entry.2 := by ring
          _ ≤ entry.1 * claim * entry.2 := Nat.mul_le_mul_right _ hfloor
          _ = claim * (entry.1 * entry.2) := by ring
  have hentries := hscaled entries
  rw [htotal] at hentries
  exact Nat.le_of_mul_le_mul_right hentries hpos

end Gmsol.ProRata
