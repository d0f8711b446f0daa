import Mathlib

/-!
# Baskets of shares

A basket holds shares of several funds.  It is worth what its holdings are worth, each of
them rounded down on its own.  Adding shares to a holding adds at least their own rounded
worth, and shares taken out for a value cost the basket no more than that value.
-/

namespace Gmsol.Basket

universe u

/-- A fund with its value and the supply of its shares. -/
structure Fund (κ : Type u) where
  key : κ
  value : ℤ
  supply : ℕ

variable {κ : Type u}

namespace Fund

/-- What a number of shares is worth, rounded down. -/
def share (fund : Fund κ) (shares : ℕ) : ℤ := fund.value * shares / fund.supply

theorem share_mono {fund other : Fund κ} (hvalue : fund.value ≤ other.value)
    (hsupply : fund.supply = other.supply) (shares : ℕ) :
    fund.share shares ≤ other.share shares := by
  rw [share, share, hsupply]
  rcases Nat.eq_zero_or_pos other.supply with hzero | hpositive
  · simp [hzero]
  · apply Int.ediv_le_ediv (Nat.cast_pos.mpr hpositive)
    exact mul_le_mul_of_nonneg_right hvalue (Nat.cast_nonneg _)

/-- Two holdings are worth no more apart than together. -/
theorem share_add_le (fund : Fund κ) (shares added : ℕ) :
    fund.share shares + fund.share added ≤ fund.share (shares + added) := by
  simp only [share]
  rcases Nat.eq_zero_or_pos fund.supply with hzero | hpositive
  · simp [hzero]
  · rw [Int.le_ediv_iff_mul_le (Nat.cast_pos.mpr hpositive), add_mul]
    push_cast
    rw [mul_add]
    exact add_le_add (Int.ediv_mul_le _ (Nat.cast_pos.mpr hpositive).ne')
      (Int.ediv_mul_le _ (Nat.cast_pos.mpr hpositive).ne')

/-- Shares that are taken for at least their worth. -/
theorem share_sub_le {fund : Fund κ} {shares taken paid : ℕ} (htaken : taken ≤ shares)
    (hpaid : 0 < fund.supply → taken * fund.value ≤ paid * fund.supply) :
    fund.share shares - paid ≤ fund.share (shares - taken) := by
  simp only [share]
  rcases Nat.eq_zero_or_pos fund.supply with hzero | hpositive
  · simp [hzero]
  · have hsupply : (0 : ℤ) < fund.supply := Nat.cast_pos.mpr hpositive
    rw [Int.le_ediv_iff_mul_le hsupply, Nat.cast_sub htaken, mul_sub, sub_mul]
    have hshare := Int.ediv_mul_le (fund.value * shares) hsupply.ne'
    have hvalue := hpaid hpositive
    rw [mul_comm (taken : ℤ)] at hvalue
    exact sub_le_sub hshare hvalue

end Fund

/-- What a basket of funds is worth. -/
def worth (funds : List (Fund κ)) (holding : κ → ℕ) : ℤ :=
  (funds.map fun fund => fund.share (holding fund.key)).sum

/-- The same shares in funds of lower value. -/
def Below (funds others : List (Fund κ)) : Prop :=
  List.Forall₂ (fun fund other => fund.key = other.key ∧ fund.supply = other.supply ∧
    fund.value ≤ other.value) funds others

theorem worth_mono {funds others : List (Fund κ)} (hbelow : Below funds others)
    (holding : κ → ℕ) : worth funds holding ≤ worth others holding := by
  induction hbelow with
  | nil => exact le_rfl
  | cons hhead _ ih =>
      simp only [worth, List.map_cons, List.sum_cons]
      apply add_le_add _ ih
      rw [hhead.1]
      exact Fund.share_mono hhead.2.2 hhead.2.1 _

variable [DecidableEq κ]

theorem worth_update_of_not_mem {funds : List (Fund κ)} {key : κ}
    (habsent : key ∉ funds.map Fund.key) (holding : κ → ℕ) (next : ℕ) :
    worth funds (Function.update holding key next) = worth funds holding := by
  unfold worth
  congr 1
  apply List.map_congr_left
  intro fund hfund
  rw [Function.update_of_ne]
  rintro rfl
  exact habsent (List.mem_map_of_mem hfund)

theorem worth_update {funds : List (Fund κ)} (hnodup : (funds.map Fund.key).Nodup)
    {fund : Fund κ} (hfund : fund ∈ funds) (holding : κ → ℕ) (next : ℕ) :
    worth funds (Function.update holding fund.key next) =
      worth funds holding + (fund.share next - fund.share (holding fund.key)) := by
  induction funds with
  | nil => exact absurd hfund List.not_mem_nil
  | cons first rest ih =>
      rw [List.map_cons, List.nodup_cons] at hnodup
      simp only [worth, List.map_cons, List.sum_cons] at ih ⊢
      rcases List.mem_cons.mp hfund with rfl | hrest
      · have hsame := worth_update_of_not_mem hnodup.1 holding next
        simp only [worth] at hsame
        rw [hsame, Function.update_self]
        ring
      · have hne : first.key ≠ fund.key := by
          intro heq
          exact hnodup.1 (heq ▸ List.mem_map_of_mem hrest)
        rw [ih hnodup.2 hrest, Function.update_of_ne hne]
        ring

variable {funds : List (Fund κ)} {fund : Fund κ} {holding : κ → ℕ}

/-- Shares that are put into a basket add their worth. -/
theorem worth_put (hnodup : (funds.map Fund.key).Nodup) (hfund : fund ∈ funds)
    (holding : κ → ℕ) (added : ℕ) :
    worth funds holding + fund.share added ≤
      worth funds (Function.update holding fund.key (holding fund.key + added)) := by
  rw [worth_update hnodup hfund]
  apply add_le_add_right
  exact le_sub_iff_add_le'.mpr (fund.share_add_le _ _)

/-- Shares that are taken out of a basket for what they are worth. -/
theorem worth_take (hnodup : (funds.map Fund.key).Nodup) (hfund : fund ∈ funds)
    {taken paid : ℕ} (htaken : taken ≤ holding fund.key)
    (hpaid : 0 < fund.supply → taken * fund.value ≤ paid * fund.supply) :
    worth funds holding - paid ≤
      worth funds (Function.update holding fund.key (holding fund.key - taken)) := by
  rw [worth_update hnodup hfund, sub_eq_add_neg]
  apply add_le_add_right
  have htake := Fund.share_sub_le htaken hpaid
  linarith

end Gmsol.Basket
