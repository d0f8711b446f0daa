import Mathlib

/-!
# Books over a shared vault

Several members keep books of what they hold of each asset, while the assets lie in one
vault together.  The vault backs the books as long as every change of a book comes with
the same change of the vault, or with the opposite change of another book.
-/

namespace Gmsol

universe u v

/-- The books of the members, and what the vault holds of each asset. -/
structure SharedVault (ι : Type u) (τ : Type v) where
  members : Finset ι
  book : ι → τ → ℕ
  held : τ → ℕ

namespace SharedVault

variable {ι : Type u} {τ : Type v}

def booked (vault : SharedVault ι τ) (asset : τ) : ℕ :=
  ∑ member ∈ vault.members, vault.book member asset

/-- The vault holds what is booked, and what it was given besides. -/
def Backed (vault : SharedVault ι τ) (given : τ → ℕ) : Prop :=
  ∀ asset, vault.held asset = vault.booked asset + given asset

/-- What is held changes by as much as what is booked. -/
def Balanced (before after : SharedVault ι τ) : Prop :=
  ∀ asset, after.held asset + before.booked asset = before.held asset + after.booked asset

variable {vault before after : SharedVault ι τ} {given : τ → ℕ}

theorem Balanced.trans {first second third : SharedVault ι τ} (hleft : first.Balanced second)
    (hright : second.Balanced third) : first.Balanced third := by
  intro asset
  have hfirst := hleft asset
  have hsecond := hright asset
  omega

theorem Backed.of_balanced (hbacked : before.Backed given)
    (hbalanced : before.Balanced after) : after.Backed given := by
  intro asset
  have hheld := hbacked asset
  have hsame := hbalanced asset
  omega

/-- The vault is given more of the assets. -/
theorem Backed.give (hbacked : before.Backed given) {held more : τ → ℕ}
    (hheld : ∀ asset, held asset = before.held asset + more asset) :
    Backed { before with held } (given + more) := by
  intro asset
  show held asset = before.booked asset + (given asset + more asset)
  rw [hheld asset, hbacked asset, add_assoc]

/-- No book is larger than the vault. -/
theorem Backed.book_le (hbacked : vault.Backed given) {member : ι}
    (hmember : member ∈ vault.members) (asset : τ) :
    vault.book member asset ≤ vault.held asset :=
  calc vault.book member asset
      ≤ vault.booked asset := Finset.single_le_sum
        (f := (vault.book · asset)) (fun _ _ => Nat.zero_le _) hmember
    _ ≤ vault.booked asset + given asset := Nat.le_add_right _ _
    _ = vault.held asset := (hbacked asset).symm

/-- Only the books of some members change. -/
theorem booked_move {moved : Finset ι} (hmembers : after.members = before.members)
    (hmoved : moved ⊆ before.members)
    (hothers : ∀ other, other ∉ moved → after.book other = before.book other) (asset : τ) :
    after.booked asset + ∑ member ∈ moved, before.book member asset =
      before.booked asset + ∑ member ∈ moved, after.book member asset := by
  classical
  have hrest : ∑ other ∈ before.members \ moved, after.book other asset =
      ∑ other ∈ before.members \ moved, before.book other asset :=
    Finset.sum_congr rfl fun other hother =>
      congrFun (hothers other (Finset.mem_sdiff.mp hother).2) asset
  unfold booked
  rw [hmembers, ← Finset.sum_sdiff hmoved, ← Finset.sum_sdiff hmoved, hrest]
  ring

/-- Only the book of one member changes. -/
theorem booked_change {member : ι} (hmembers : after.members = before.members)
    (hmember : member ∈ before.members)
    (hothers : ∀ other, other ≠ member → after.book other = before.book other) (asset : τ) :
    after.booked asset + before.book member asset =
      before.booked asset + after.book member asset := by
  have hmove := booked_move hmembers (Finset.singleton_subset_iff.mpr hmember)
    (fun other hother => hothers other fun heq => hother (Finset.mem_singleton.mpr heq)) asset
  rwa [Finset.sum_singleton, Finset.sum_singleton] at hmove

/-- A new member with an empty book. -/
theorem booked_join {member : ι} [DecidableEq ι] (hmember : member ∉ before.members)
    (hmembers : after.members = insert member before.members)
    (hempty : ∀ asset, after.book member asset = 0)
    (hothers : ∀ other, other ≠ member → after.book other = before.book other) (asset : τ) :
    after.booked asset = before.booked asset := by
  unfold booked
  rw [hmembers, Finset.sum_insert hmember, hempty, zero_add]
  apply Finset.sum_congr rfl
  intro other hother
  have hne : other ≠ member := by
    rintro rfl
    exact hmember hother
  rw [hothers other hne]

end SharedVault

end Gmsol
