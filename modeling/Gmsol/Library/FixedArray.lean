import Gmsol.Library.Fallible

/-!
# Arrays of a fixed size

An index that is out of bounds stops the program, and so does a counter that
leaves its range.  The loops below move a block of slots by one place; their
specifications say what every slot holds afterwards, and when they stop.
-/

namespace Gmsol.FixedArray

open Fallible

/-- Why a program stops without returning. -/
inductive Panic
  | indexOutOfBounds
  | arithmeticOverflow
  | expectFailed
deriving DecidableEq, Repr

variable {α : Type} {N : ℕ}

def readAt (slots : Vector α N) (index : ℕ) : Except Panic α :=
  okOr slots[index]? .indexOutOfBounds

def writeAt (slots : Vector α N) (index : ℕ) (value : α) :
    Except Panic (Vector α N) :=
  if h : index < N then .ok (slots.set index value)
  else .error .indexOutOfBounds

theorem readAt_eq_ok {slots : Vector α N} {index : ℕ} {value : α} :
    readAt slots index = .ok value ↔ slots[index]? = some value :=
  okOr_eq_ok

theorem writeAt_eq_ok {slots after : Vector α N} {index : ℕ} {value : α} :
    writeAt slots index value = .ok after ↔
      ∃ h : index < N, slots.set index value = after := by
  unfold writeAt
  split_ifs with h
  · simp [h]
  · simp [h]

theorem getElem?_set (slots : Vector α N) (index other : ℕ) (h : index < N)
    (value : α) :
    (slots.set index value)[other]? =
      if other = index then some value else slots[other]? := by
  by_cases hsame : other = index
  · subst hsame
    simp [h]
  · rw [if_neg hsame, Vector.getElem?_set_ne h (Ne.symm hsame)]

theorem exists_getElem? (slots : Vector α N) {index : ℕ} (h : index < N) :
    ∃ value, slots[index]? = some value :=
  ⟨slots[index], by simp [h]⟩

/-! ## Loops -/

/-- Moves the `steps` slots from `index` on up by one, the last slot first. -/
def shiftUp (index : ℕ) : ℕ → Vector α N → Except Panic (Vector α N)
  | 0, slots => .ok slots
  | steps + 1, slots => do
    let value ← readAt slots (index + steps)
    let slots ← writeAt slots (index + steps + 1) value
    shiftUp index steps slots

/-- Overwrites each of the `steps` slots from `index` on by its successor, the
first slot first. -/
def shiftDown : ℕ → ℕ → Vector α N → Except Panic (Vector α N)
  | _, 0, slots => .ok slots
  | index, steps + 1, slots => do
    let value ← readAt slots (index + 1)
    let slots ← writeAt slots index value
    shiftDown (index + 1) steps slots

/-- Writes one value to each of the `steps` slots from `index` on. -/
def fill (value : α) : ℕ → ℕ → Vector α N → Except Panic (Vector α N)
  | _, 0, slots => .ok slots
  | index, steps + 1, slots => do
    let slots ← writeAt slots index value
    fill value (index + 1) steps slots

theorem shiftUp_spec (index steps : ℕ) (slots : Vector α N)
    (hbound : index + steps < N) :
    ∃ after, shiftUp index steps slots = .ok after ∧
      ∀ slot, after[slot]? =
        if index < slot ∧ slot ≤ index + steps then slots[slot - 1]?
        else slots[slot]? := by
  induction steps generalizing slots with
  | zero =>
      refine ⟨slots, rfl, fun slot => ?_⟩
      rw [if_neg (by omega)]
  | succ steps ih =>
      obtain ⟨value, hvalue⟩ :=
        exists_getElem? slots (show index + steps < N by omega)
      obtain ⟨after, hafter, hslots⟩ :=
        ih (slots.set (index + steps + 1) value) (by omega)
      refine ⟨after, ?_, fun slot => ?_⟩
      · simp only [shiftUp, bind_eq_ok, readAt_eq_ok, writeAt_eq_ok]
        exact ⟨value, hvalue, _, ⟨hbound, rfl⟩, hafter⟩
      · rw [hslots slot, getElem?_set, getElem?_set]
        by_cases hlast : slot = index + steps + 1
        · subst hlast
          rw [if_neg (by omega), if_pos rfl, if_pos (by omega)]
          exact hvalue.symm
        · rw [if_neg hlast]
          by_cases hmoved : index < slot ∧ slot ≤ index + steps
          · rw [if_pos hmoved, if_neg (by omega), if_pos (by omega)]
          · rw [if_neg hmoved, if_neg (by omega)]

theorem shiftDown_spec (index steps : ℕ) (slots : Vector α N)
    (hbound : index + steps < N) :
    ∃ after, shiftDown index steps slots = .ok after ∧
      ∀ slot, after[slot]? =
        if index ≤ slot ∧ slot < index + steps then slots[slot + 1]?
        else slots[slot]? := by
  induction steps generalizing index slots with
  | zero =>
      refine ⟨slots, rfl, fun slot => ?_⟩
      rw [if_neg (by omega)]
  | succ steps ih =>
      obtain ⟨value, hvalue⟩ :=
        exists_getElem? slots (show index + 1 < N by omega)
      obtain ⟨after, hafter, hslots⟩ :=
        ih (index + 1) (slots.set index value) (by omega)
      refine ⟨after, ?_, fun slot => ?_⟩
      · simp only [shiftDown, bind_eq_ok, readAt_eq_ok, writeAt_eq_ok]
        exact ⟨value, hvalue, _, ⟨by omega, rfl⟩, hafter⟩
      · rw [hslots slot, getElem?_set, getElem?_set]
        by_cases hfirst : slot = index
        · subst hfirst
          rw [if_neg (by omega), if_pos rfl, if_pos (by omega)]
          exact hvalue.symm
        · rw [if_neg hfirst]
          by_cases hmoved : index + 1 ≤ slot ∧ slot < index + 1 + steps
          · rw [if_pos hmoved, if_neg (by omega), if_pos (by omega)]
          · rw [if_neg hmoved, if_neg (by omega)]

/-- A block that ends at the end of the array has no successor to read. -/
theorem shiftDown_panics (index steps : ℕ) (slots : Vector α N)
    (hend : index + steps = N) (hpos : 0 < steps) :
    shiftDown index steps slots = .error .indexOutOfBounds := by
  induction steps generalizing index slots with
  | zero => exact absurd hpos (lt_irrefl 0)
  | succ steps ih =>
      by_cases hlast : steps = 0
      · have hread : readAt slots (index + 1) = .error .indexOutOfBounds := by
          simp [readAt, okOr, show N ≤ index + 1 by omega]
        simp [shiftDown, hread, bind, Except.bind]
      · obtain ⟨value, hvalue⟩ :=
          exists_getElem? slots (show index + 1 < N by omega)
        have hread := readAt_eq_ok.mpr hvalue
        have hwrite := writeAt_eq_ok.mpr
          ⟨show index < N by omega, Eq.refl (slots.set index value)⟩
        simp only [shiftDown, hread, hwrite, bind, Except.bind]
        exact ih (index + 1) _ (by omega) (by omega)

theorem fill_spec (value : α) (index steps : ℕ) (slots : Vector α N)
    (hbound : index + steps ≤ N) :
    ∃ after, fill value index steps slots = .ok after ∧
      ∀ slot, after[slot]? =
        if index ≤ slot ∧ slot < index + steps then some value
        else slots[slot]? := by
  induction steps generalizing index slots with
  | zero =>
      refine ⟨slots, rfl, fun slot => ?_⟩
      rw [if_neg (by omega)]
  | succ steps ih =>
      obtain ⟨after, hafter, hslots⟩ :=
        ih (index + 1) (slots.set index value) (by omega)
      refine ⟨after, ?_, fun slot => ?_⟩
      · simp only [fill, bind_eq_ok, writeAt_eq_ok]
        exact ⟨_, ⟨by omega, rfl⟩, hafter⟩
      · rw [hslots slot, getElem?_set]
        by_cases hfirst : slot = index
        · rw [if_neg (by omega), if_pos hfirst, if_pos (by omega)]
        · rw [if_neg hfirst]
          by_cases hfilled : index + 1 ≤ slot ∧ slot < index + 1 + steps
          · rw [if_pos hfilled, if_pos (by omega)]
          · rw [if_neg hfilled, if_neg (by omega)]

end Gmsol.FixedArray
