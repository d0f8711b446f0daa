import Mathlib

/-!
# Bitmaps

A bitmap of a fixed width reads and writes one bit at a time.
-/

namespace Gmsol

abbrev Bitmap (width : ℕ) : Type := BitVec width

namespace Bitmap

variable {width : ℕ}

def get (bitmap : Bitmap width) (index : ℕ) : Bool := bitmap.getLsbD index

def set (bitmap : Bitmap width) (index : ℕ) (value : Bool) : Bitmap width :=
  if value then bitmap ||| BitVec.twoPow width index
  else bitmap &&& ~~~BitVec.twoPow width index

def isEmpty (bitmap : Bitmap width) : Bool := bitmap = 0

theorem get_set (bitmap : Bitmap width) {index : ℕ} (other : ℕ) (value : Bool)
    (hindex : index < width) :
    (bitmap.set index value).get other =
      if other = index then value else bitmap.get other := by
  cases value with
  | true =>
      by_cases hsame : other = index
      · simp [get, set, hsame, hindex]
      · simp [get, set, hsame, BitVec.getLsbD_twoPow, Ne.symm hsame]
  | false =>
      by_cases hsame : other = index
      · simp [get, set, hsame, hindex]
      · simp only [get, set, BitVec.getLsbD_and, BitVec.getLsbD_not,
          BitVec.getLsbD_twoPow, Bool.false_eq_true, ↓reduceIte, hsame]
        by_cases hother : other < width
        · simp [hother, Ne.symm hsame]
        · simp [BitVec.getLsbD_of_ge bitmap other (not_lt.mp hother)]

theorem get_zero (index : ℕ) : get (0 : Bitmap width) index = false := by
  simp [get]

theorem isEmpty_iff {bitmap : Bitmap width} :
    bitmap.isEmpty = true ↔ bitmap = 0 := by
  simp [isEmpty]

theorem exists_get_of_ne_zero {bitmap : Bitmap width} (hne : bitmap ≠ 0) :
    ∃ index, index < width ∧ bitmap.get index = true := by
  by_contra hnone
  apply hne
  apply BitVec.eq_of_getLsbD_eq
  intro index hindex
  by_contra hbit
  exact hnone ⟨index, hindex, by simpa [get] using hbit⟩

end Bitmap

end Gmsol
