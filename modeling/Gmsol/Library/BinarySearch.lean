import Mathlib

/-!
# Binary search

The search that the standard library of the program performs on a sorted
slice.  A comparison tells for each index whether its element is below, at or
above the target; the search halves the candidates without looking for an early
match and compares the last one.
-/

namespace Gmsol

/-- The index that is left when the candidates have been halved to one. -/
def lastCandidate (compare : ℕ → Ordering) : ℕ → ℕ → ℕ → ℕ
  | 0, base, _ => base
  | fuel + 1, base, size =>
    if 1 < size then
      lastCandidate compare fuel
        (if compare (base + size / 2) = .gt then base else base + size / 2)
        (size - size / 2)
    else base

/-- The index of a match, or where the target would have to be inserted. -/
def binarySearchBy (compare : ℕ → Ordering) (size : ℕ) : Except ℕ ℕ :=
  if size = 0 then .error 0
  else
    let base := lastCandidate compare size 0 size
    match compare base with
    | .eq => .ok base
    | .lt => .error (base + 1)
    | .gt => .error base

/-- The elements below the target come first and the ones above it last. -/
structure SortedBy (compare : ℕ → Ordering) (size : ℕ) : Prop where
  lt_of_lt : ∀ {first second}, first ≤ second → second < size →
    compare second = .lt → compare first = .lt
  gt_of_gt : ∀ {first second}, first ≤ second → second < size →
    compare first = .gt → compare second = .gt

section Search

variable {compare : ℕ → Ordering} {total : ℕ}

/-- Only the candidate `base` is left: everything after it is above the target,
and it is not above the target unless it is the first element. -/
structure IsLast (compare : ℕ → Ordering) (total base : ℕ) : Prop where
  base_lt : base < total
  base_le : base = 0 ∨ compare base ≠ .gt
  above : ∀ index, base < index → index < total → compare index = .gt

theorem lastCandidate_isLast (hsorted : SortedBy compare total)
    (fuel base size : ℕ) (hfuel : size ≤ fuel) (hpos : 0 < size)
    (hbounds : base + size ≤ total) (hbase : base = 0 ∨ compare base ≠ .gt)
    (habove : ∀ index, base + size ≤ index → index < total →
      compare index = .gt) :
    IsLast compare total (lastCandidate compare fuel base size) := by
  induction fuel generalizing base size with
  | zero => exact absurd hpos (by omega)
  | succ fuel ih =>
      unfold lastCandidate
      by_cases hsize : 1 < size
      · rw [if_pos hsize]
        by_cases hmiddle : compare (base + size / 2) = .gt
        · rw [if_pos hmiddle]
          apply ih
          · omega
          · omega
          · omega
          · exact hbase
          · intro index hindex htotal
            exact hsorted.gt_of_gt (by omega) htotal hmiddle
        · rw [if_neg hmiddle]
          apply ih
          · omega
          · omega
          · omega
          · exact .inr hmiddle
          · intro index hindex htotal
            exact habove index (by omega) htotal
      · rw [if_neg hsize]
        exact ⟨by omega, hbase, fun index hindex htotal =>
          habove index (by omega) htotal⟩

/-- What a search in a sorted slice returns: a match, or the only place where
the target can be inserted. -/
theorem binarySearchBy_spec (hsorted : SortedBy compare total) :
    match binarySearchBy compare total with
    | .ok index => index < total ∧ compare index = .eq
    | .error index => index ≤ total ∧
        (∀ below, below < index → compare below = .lt) ∧
        ∀ above, index ≤ above → above < total → compare above = .gt := by
  unfold binarySearchBy
  by_cases hempty : total = 0
  · rw [if_pos hempty]
    exact ⟨Nat.zero_le _, by omega, by omega⟩
  · rw [if_neg hempty]
    have hlast := lastCandidate_isLast hsorted total 0 total le_rfl (by omega)
      (by omega) (.inl rfl) (by omega)
    dsimp only
    generalize lastCandidate compare total 0 total = base at hlast ⊢
    cases hcompare : compare base with
    | eq => exact ⟨hlast.base_lt, hcompare⟩
    | lt =>
        refine ⟨hlast.base_lt, fun below hbelow => ?_, hlast.above⟩
        exact hsorted.lt_of_lt (by omega) hlast.base_lt hcompare
    | gt =>
        have hzero : base = 0 := hlast.base_le.resolve_right (absurd hcompare)
        refine ⟨hlast.base_lt.le, by omega, fun above hle habove => ?_⟩
        exact hsorted.gt_of_gt hle habove hcompare

end Search

end Gmsol
