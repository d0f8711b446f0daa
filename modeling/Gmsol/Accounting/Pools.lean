import Gmsol.System.World

/-!
# Token amounts of pools

The amount a pool holds of one token.  A pure pool shows half of its amount on
each side, so the amount of its single token is the sum of both sides; with
this reading a delta changes pure and ordinary pools in the same way.
-/

namespace Gmsol.Model

open Gmsol.Fallible Gmsol.System

variable {isPure : Bool}

/-- A signed amount of the token of one side, seen from one of the tokens. -/
def signedInToken (isPure side token : Bool) (amount : ℤ) : ℤ :=
  if isPure || side == token then amount else 0

section SignedInToken

variable (side token : Bool) (left right : ℤ)

theorem signedInToken_add :
    signedInToken isPure side token (left + right) =
      signedInToken isPure side token left +
        signedInToken isPure side token right := by
  unfold signedInToken
  split <;> simp

theorem signedInToken_neg :
    signedInToken isPure side token (-left) =
      -signedInToken isPure side token left := by
  unfold signedInToken
  split <;> simp

@[simp]
theorem signedInToken_zero : signedInToken isPure side token 0 = 0 := by
  unfold signedInToken
  split <;> rfl

theorem natCast_inToken (amount : ℕ) :
    ((inToken isPure side token amount : ℕ) : ℤ) =
      signedInToken isPure side token amount := by
  unfold inToken signedInToken
  split <;> simp

/-- The two sides of a pure market hold the same token. -/
theorem signedInToken_of_pure (other : Bool) (hpure : isPure = true) :
    signedInToken isPure side token left =
      signedInToken isPure other token left := by
  simp [signedInToken, hpure]

/-- A nonzero amount is seen from the token of its own side. -/
@[simp]
theorem signedInToken_self : signedInToken isPure side side left = left := by
  simp [signedInToken]

end SignedInToken

namespace Pool

def tokenAmount (pool : Pool isPure) (token : Bool) : ℕ :=
  if isPure then pool.longAmount + pool.shortAmount else pool.amount token

/-- The total of both sides. -/
def total (pool : Pool isPure) : ℕ := pool.longAmount + pool.shortAmount

theorem halves_add (amount : ℕ) : amount ⌈/⌉ 2 + amount / 2 = amount := by
  rw [Nat.ceilDiv_eq_add_pred_div]
  omega

theorem tokenAmount_pure (pool : Pool true) (token : Bool) :
    pool.tokenAmount token = pool.longTokenAmount := by
  simp [tokenAmount, longAmount, shortAmount, halves_add]

theorem tokenAmount_mixed (pool : Pool false) (token : Bool) :
    pool.tokenAmount token = pool.amount token := by
  simp [tokenAmount]

theorem total_pure (pool : Pool true) : pool.total = pool.longTokenAmount := by
  simp [total, longAmount, shortAmount, halves_add]

theorem total_mixed (pool : Pool false) :
    pool.total = pool.tokenAmount true + pool.tokenAmount false := by
  simp [total, tokenAmount, amount]

@[simp]
theorem tokenAmount_empty (token : Bool) :
    (empty : Pool isPure).tokenAmount token = 0 := by
  cases isPure <;> cases token <;>
    simp [tokenAmount, empty, amount, longAmount, shortAmount]

@[simp]
theorem total_empty : (empty : Pool isPure).total = 0 := by
  cases isPure <;> simp [total, empty, longAmount, shortAmount]

variable [MarketNum]

theorem checkedAddSigned_eq_some {value result : ℕ} {delta : ℤ}
    (hadd : checkedAddSigned value delta = some result) :
    (result : ℤ) = value + delta := by
  unfold checkedAddSigned at hadd
  split at hadd
  · rw [narrow_eq_some] at hadd
    omega
  · exact absurd hadd (by simp)

theorem applyDeltaToLongAmount_eq_ok {pool next : Pool isPure} {delta : ℤ}
    (happly : pool.applyDeltaToLongAmount delta = .ok next) :
    (next.longTokenAmount : ℤ) = pool.longTokenAmount + delta ∧
      next.shortTokenAmount = pool.shortTokenAmount := by
  simp only [applyDeltaToLongAmount, bind_eq_ok, okOr_eq_ok, pure_eq_ok] at happly
  obtain ⟨amount, hadd, rfl⟩ := happly
  exact ⟨checkedAddSigned_eq_some hadd, rfl⟩

/-- One pool delta, for both kinds of pools. -/
theorem applyDeltaAmount_tokenAmount {pool next : Pool isPure} {side : Bool}
    {delta : ℤ} (happly : pool.applyDeltaAmount side delta = .ok next)
    (token : Bool) :
    (next.tokenAmount token : ℤ) =
      pool.tokenAmount token + signedInToken isPure side token delta := by
  cases isPure with
  | true =>
      rw [tokenAmount_pure, tokenAmount_pure]
      cases side with
      | true => simpa [signedInToken] using (applyDeltaToLongAmount_eq_ok happly).1
      | false =>
          simp only [applyDeltaAmount, applyDeltaToShortAmount, bind_eq_ok,
            okOr_eq_ok, pure_eq_ok, if_true, Bool.false_eq_true, if_false] at happly
          obtain ⟨amount, hadd, rfl⟩ := happly
          simpa [signedInToken] using checkedAddSigned_eq_some hadd
  | false =>
      rw [tokenAmount_mixed, tokenAmount_mixed]
      cases side with
      | true =>
          have hlong := applyDeltaToLongAmount_eq_ok happly
          cases token <;>
            simp [signedInToken, amount, longAmount, shortAmount, hlong]
      | false =>
          simp only [applyDeltaAmount, applyDeltaToShortAmount, bind_eq_ok,
            okOr_eq_ok, pure_eq_ok, Bool.false_eq_true, if_false] at happly
          obtain ⟨amount, hadd, rfl⟩ := happly
          have hshort := checkedAddSigned_eq_some hadd
          cases token <;>
            simp [signedInToken, Pool.amount, longAmount, shortAmount, hshort]

theorem longDelta_tokenAmount {pool next : Pool isPure} {delta : ℤ}
    (happly : pool.applyDeltaToLongAmount delta = .ok next) (token : Bool) :
    (next.tokenAmount token : ℤ) =
      pool.tokenAmount token + signedInToken isPure true token delta := by
  apply applyDeltaAmount_tokenAmount
  exact happly

theorem shortDelta_tokenAmount {pool next : Pool isPure} {delta : ℤ}
    (happly : pool.applyDeltaToShortAmount delta = .ok next) (token : Bool) :
    (next.tokenAmount token : ℤ) =
      pool.tokenAmount token + signedInToken isPure false token delta := by
  apply applyDeltaAmount_tokenAmount
  exact happly

theorem applyDeltaAmount_total {pool next : Pool isPure} {side : Bool}
    {delta : ℤ} (happly : pool.applyDeltaAmount side delta = .ok next) :
    (next.total : ℤ) = pool.total + delta := by
  cases isPure with
  | true =>
      have hamount := applyDeltaAmount_tokenAmount happly true
      rw [tokenAmount_pure, tokenAmount_pure] at hamount
      rw [total_pure, total_pure]
      simpa [signedInToken] using hamount
  | false =>
      have hlong := applyDeltaAmount_tokenAmount happly true
      have hshort := applyDeltaAmount_tokenAmount happly false
      rw [total_mixed, total_mixed]
      cases side <;> simp [signedInToken] at hlong hshort <;> omega

/-- A pool that is not pure keeps the other side. -/
theorem applyDeltaAmount_amount {pool next : Pool false} {side : Bool}
    {delta : ℤ} (happly : pool.applyDeltaAmount side delta = .ok next)
    (other : Bool) :
    (next.amount other : ℤ) =
      pool.amount other + if side = other then delta else 0 := by
  have hamount := applyDeltaAmount_tokenAmount happly other
  rw [tokenAmount_mixed, tokenAmount_mixed] at hamount
  simpa [signedInToken] using hamount

theorem checkedApplyDelta_oneSide {pool next : Pool isPure} {side : Bool}
    {delta : ℤ}
    (happly : pool.checkedApplyDelta (.newOneSide side delta) = .ok next) :
    pool.applyDeltaAmount side delta = .ok next := by
  cases side with
  | true =>
      simp only [checkedApplyDelta, Delta.newOneSide, if_true, bind_eq_ok] at happly
      obtain ⟨middle, hlong, heq⟩ := happly
      obtain rfl : middle = next := by simpa using heq
      exact hlong
  | false =>
      simp only [checkedApplyDelta, Delta.newOneSide, Bool.false_eq_true,
        if_false, bind_eq_ok] at happly
      obtain ⟨middle, heq, hshort⟩ := happly
      obtain rfl : pool = middle := by simpa using heq
      exact hshort

theorem checkedApplyDelta_bothSides {pool next : Pool isPure} {side : Bool}
    {first second : ℤ}
    (happly : pool.checkedApplyDelta (.newBothSides side first second) = .ok next)
    (token : Bool) :
    (next.tokenAmount token : ℤ) =
      pool.tokenAmount token + signedInToken isPure side token first +
        signedInToken isPure (!side) token second := by
  cases side with
  | true =>
      simp only [checkedApplyDelta, Delta.newBothSides, if_true, bind_eq_ok] at happly
      obtain ⟨middle, hlong, hshort⟩ := happly
      have hfirst := longDelta_tokenAmount hlong token
      have hsecond := shortDelta_tokenAmount hshort token
      simp only [Bool.not_true]
      omega
  | false =>
      simp only [checkedApplyDelta, Delta.newBothSides, Bool.false_eq_true,
        if_false, bind_eq_ok] at happly
      obtain ⟨middle, hlong, hshort⟩ := happly
      have hfirst := longDelta_tokenAmount hlong token
      have hsecond := shortDelta_tokenAmount hshort token
      simp only [Bool.not_false]
      omega

end Pool

end Gmsol.Model
