import Mathlib

/-!
# Totals of a family of accounts

A total tracks a family when it is the sum of what the accounts contribute.
Replacing one account keeps the total tracked as long as the total moves by the
difference of the two contributions. Owners that each track a family of their own
are kept one by one.
-/

namespace Gmsol

open Finset

universe u v w

variable {ι : Type u} {β : Type v} {M : Type w} [Fintype ι] [AddCommGroup M]

/-- The sum of what a family contributes. -/
def contributed (contribution : β → M) (family : ι → β) : M :=
  ∑ index, contribution (family index)

theorem contributed_eq_zero {contribution : β → M} {family : ι → β}
    (hzero : ∀ index, contribution (family index) = 0) :
    contributed contribution family = 0 :=
  sum_eq_zero fun index _ => hzero index

theorem contributed_update [DecidableEq ι] (contribution : β → M)
    (family : ι → β) (index : ι) (next : β) :
    contributed contribution (Function.update family index next) =
      contributed contribution family +
        (contribution next - contribution (family index)) := by
  have hupdate : (fun other => contribution (Function.update family index next other)) =
      Function.update (fun other => contribution (family other)) index
        (contribution next) := by
    funext other
    exact Function.apply_update (fun _ => contribution) family index next other
  unfold contributed
  rw [hupdate, sum_update_of_mem (mem_univ index), sdiff_singleton_eq_erase,
    ← add_sum_erase univ _ (mem_univ index)]
  abel

theorem contributed_add (left right : β → M) (family : ι → β) :
    contributed (fun account => left account + right account) family =
      contributed left family + contributed right family :=
  sum_add_distrib

theorem contributed_mul {R : Type w} [Ring R] (factor : R) (contribution : β → R)
    (family : ι → β) :
    contributed (fun account => factor * contribution account) family =
      factor * contributed contribution family :=
  (mul_sum _ _ _).symm

theorem contributed_le [PartialOrder M] [IsOrderedAddMonoid M]
    {left right : β → M} {family : ι → β}
    (hle : ∀ index, left (family index) ≤ right (family index)) :
    contributed left family ≤ contributed right family :=
  sum_le_sum fun index _ => hle index

/-- `total` is the sum of the contributions of the family. -/
def Tracks (total : M) (contribution : β → M) (family : ι → β) : Prop :=
  total = contributed contribution family

theorem Tracks.update [DecidableEq ι] {total next : M} {contribution : β → M}
    {family : ι → β} {index : ι} {account : β}
    (htracks : Tracks total contribution family)
    (hnext : next = total +
      (contribution account - contribution (family index))) :
    Tracks next contribution (Function.update family index account) := by
  unfold Tracks at htracks ⊢
  rw [contributed_update, hnext, htracks]

omit [Fintype ι] in
/-- What all accounts and the next one have, all accounts have afterwards. -/
theorem forall_update [DecidableEq ι] (holds : ι → β → Prop) {family : ι → β}
    {index : ι} {next : β} (hnext : holds index next)
    (hbefore : ∀ other, holds other (family other)) (other : ι) :
    holds other (Function.update family index next other) :=
  (Function.forall_update_iff family holds).mpr
    ⟨hnext, fun other _ => hbefore other⟩ other

theorem Tracks.update_pair {κ γ : Type*} [DecidableEq κ] [DecidableEq ι]
    {total : γ → M} {contribution : β → M} {owners : κ → γ} {families : κ × ι → β}
    {owner : κ} {index : ι} {next : γ} {account : β}
    (htracks : ∀ other, Tracks (total (owners other)) contribution
      fun holder => families (other, holder))
    (hnext : total next = total (owners owner) +
      (contribution account - contribution (families (owner, index))))
    (other : κ) : Tracks (total (Function.update owners owner next other))
      contribution fun holder =>
        Function.update families (owner, index) account (other, holder) := by
  by_cases hsame : other = owner
  · subst hsame
    have hfamily : (fun holder =>
        Function.update families (other, index) account (other, holder)) =
        Function.update (fun holder => families (other, holder)) index account := by
      funext holder
      by_cases hholder : holder = index
      · subst hholder
        simp
      · simp [hholder]
    rw [hfamily, Function.update_self]
    exact (htracks other).update hnext
  · simpa [hsame] using htracks other

end Gmsol
