import Mathlib

/-!
# Plain data in byte buffers

A plain data type has a representation of a fixed number of bytes.  Values of
such a type stand one after the other in a buffer, and each is read and written
at its index.
-/

namespace Gmsol.Layout

abbrev Byte : Type := Fin 256

instance byteValues : NeZero 256 := ⟨by decide⟩

/-- A type whose values are represented by a fixed number of bytes. -/
structure Pod (T : Type) where
  size : ℕ
  encode : T → List Byte
  decode : List Byte → T
  length_encode : ∀ value, (encode value).length = size
  decode_encode : ∀ value, decode (encode value) = value

namespace Pod

variable {A B T : Type}

/-! ## Numbers -/

/-- The bytes of a number, the least significant first. -/
def bytesOf : ℕ → ℕ → List Byte
  | 0, _ => []
  | width + 1, number => Fin.ofNat 256 number :: bytesOf width (number / 256)

def numberOf : List Byte → ℕ
  | [] => 0
  | byte :: bytes => byte + 256 * numberOf bytes

theorem length_bytesOf (width number : ℕ) :
    (bytesOf width number).length = width := by
  induction width generalizing number with
  | zero => rfl
  | succ width ih => rw [bytesOf, List.length_cons, ih]

theorem numberOf_bytesOf {width number : ℕ} (hlt : number < 256 ^ width) :
    numberOf (bytesOf width number) = number := by
  induction width generalizing number with
  | zero =>
      rw [pow_zero, Nat.lt_one_iff] at hlt
      rw [hlt]
      rfl
  | succ width ih =>
      have hrest : number / 256 < 256 ^ width := by
        rw [Nat.div_lt_iff_lt_mul (by norm_num), ← pow_succ]
        exact hlt
      rw [bytesOf, numberOf, ih hrest]
      exact Nat.mod_add_div number 256

/-- An unsigned number in little-endian order. -/
def unsigned (width : ℕ) : Pod (Fin (256 ^ width)) where
  size := width
  encode number := bytesOf width number
  decode bytes := Fin.ofNat _ (numberOf bytes)
  length_encode number := length_bytesOf width number
  decode_encode number := by
    rw [numberOf_bytesOf number.isLt]
    exact Fin.ofNat_val_eq_self number

/-- A number in big-endian order, such as one that spells an address. -/
def bigEndian (width : ℕ) : Pod (Fin (256 ^ width)) where
  size := width
  encode number := (bytesOf width number).reverse
  decode bytes := Fin.ofNat _ (numberOf bytes.reverse)
  length_encode number := by rw [List.length_reverse, length_bytesOf]
  decode_encode number := by
    rw [List.reverse_reverse, numberOf_bytesOf number.isLt]
    exact Fin.ofNat_val_eq_self number

/-- Numbers on both sides of zero. -/
abbrev Signed (half : ℕ) : Type :=
  {number : ℤ // -(half : ℤ) ≤ number ∧ number < half}

def toUnsigned {width half : ℕ} (number : Signed half) : Fin (256 ^ width) :=
  Fin.ofNat _ (if 0 ≤ number.val then number.val.toNat
    else (number.val + 2 * half).toNat)

def ofUnsigned {width half : ℕ} (hrange : 256 ^ width = 2 * half)
    (number : Fin (256 ^ width)) : Signed half :=
  if h : number.val < half then ⟨number.val, by omega, by omega⟩
  else ⟨number.val - 2 * half, by omega, by omega⟩

theorem ofUnsigned_toUnsigned {width half : ℕ} (hrange : 256 ^ width = 2 * half)
    (number : Signed half) :
    ofUnsigned hrange (toUnsigned number) = number := by
  obtain ⟨number, hlow, hhigh⟩ := number
  apply Subtype.ext
  by_cases hsign : 0 ≤ number
  · have hval : (toUnsigned ⟨number, hlow, hhigh⟩ :
        Fin (256 ^ width)).val = number.toNat := by
      have hlt : number.toNat < 256 ^ width := by omega
      rw [toUnsigned, if_pos hsign, Fin.val_ofNat]
      exact Nat.mod_eq_of_lt hlt
    rw [ofUnsigned, dif_pos (by omega)]
    simp only [hval]
    omega
  · have hval : (toUnsigned ⟨number, hlow, hhigh⟩ :
        Fin (256 ^ width)).val = (number + 2 * half).toNat := by
      have hlt : (number + 2 * half).toNat < 256 ^ width := by omega
      rw [toUnsigned, if_neg hsign, Fin.val_ofNat]
      exact Nat.mod_eq_of_lt hlt
    rw [ofUnsigned, dif_neg (by omega)]
    simp only [hval]
    omega

/-- Two's complement. -/
def signed (width half : ℕ) (hrange : 256 ^ width = 2 * half) :
    Pod (Signed half) where
  size := width
  encode number := (unsigned width).encode (toUnsigned number)
  decode bytes := ofUnsigned hrange ((unsigned width).decode bytes)
  length_encode number := (unsigned width).length_encode (toUnsigned number)
  decode_encode number := by
    rw [(unsigned width).decode_encode, ofUnsigned_toUnsigned]

/-! ## Records -/

def byte : Pod Byte where
  size := 1
  encode value := [value]
  decode bytes := bytes.headD 0
  length_encode _ := rfl
  decode_encode _ := rfl

def reserved (width : ℕ) : Pod (Vector Byte width) where
  size := width
  encode bytes := bytes.toList
  decode bytes := Vector.ofFn fun slot => bytes.getD slot 0
  length_encode bytes := by simp
  decode_encode bytes := by
    ext slot hslot
    simp

/-- Two fields, one after the other. -/
def pair (first : Pod A) (second : Pod B) : Pod (A × B) where
  size := first.size + second.size
  encode value := first.encode value.1 ++ second.encode value.2
  decode bytes := (first.decode (bytes.take first.size),
    second.decode (bytes.drop first.size))
  length_encode value := by
    rw [List.length_append, first.length_encode, second.length_encode]
  decode_encode value := by
    rw [List.take_left' (first.length_encode value.1),
      List.drop_left' (first.length_encode value.1), first.decode_encode,
      second.decode_encode]

/-- The same bytes read as another type. -/
def map (pod : Pod A) (into : T → A) (build : A → T)
    (hbuild : ∀ value, build (into value) = value) : Pod T where
  size := pod.size
  encode value := pod.encode (into value)
  decode bytes := build (pod.decode bytes)
  length_encode value := pod.length_encode (into value)
  decode_encode value := by rw [pod.decode_encode, hbuild]

/-! ## Buffers -/

variable (pod : Pod T)

def get (data : List Byte) (index : ℕ) : Option T :=
  if data.length < index * pod.size + pod.size then none
  else some (pod.decode ((data.drop (index * pod.size)).take pod.size))

/-- The buffer after the value at an index was written. -/
def write (data : List Byte) (index : ℕ) (value : T) : Option (List Byte) :=
  if data.length < index * pod.size + pod.size then none
  else some (data.take (index * pod.size) ++
    (pod.encode value ++ data.drop (index * pod.size + pod.size)))

variable {pod} {data after : List Byte} {index other : ℕ} {value : T}

theorem get_isSome (hfits : index * pod.size + pod.size ≤ data.length) :
    ∃ value, pod.get data index = some value :=
  ⟨_, if_neg (not_lt.mpr hfits)⟩

theorem write_eq_some (hfits : index * pod.size + pod.size ≤ data.length)
    (value : T) : ∃ after, pod.write data index value = some after :=
  ⟨_, if_neg (not_lt.mpr hfits)⟩

theorem write_spec (hwrite : pod.write data index value = some after) :
    index * pod.size + pod.size ≤ data.length ∧
      after = data.take (index * pod.size) ++
        (pod.encode value ++ data.drop (index * pod.size + pod.size)) := by
  rw [write] at hwrite
  split_ifs at hwrite with hshort
  exact ⟨not_lt.mp hshort, (Option.some.inj hwrite).symm⟩

theorem length_write (hwrite : pod.write data index value = some after) :
    after.length = data.length := by
  obtain ⟨hfits, rfl⟩ := write_spec hwrite
  have hbefore : (data.take (index * pod.size)).length = index * pod.size :=
    List.length_take_of_le (by omega)
  rw [List.length_append, List.length_append, pod.length_encode,
    List.length_drop, hbefore]
  omega

theorem get_write_same (hwrite : pod.write data index value = some after) :
    pod.get after index = some value := by
  have hlength := length_write hwrite
  obtain ⟨hfits, rfl⟩ := write_spec hwrite
  have hbefore : (data.take (index * pod.size)).length = index * pod.size :=
    List.length_take_of_le (by omega)
  rw [get, if_neg (by omega), List.drop_left' hbefore,
    List.take_left' (pod.length_encode value), pod.decode_encode]

/-- A longer buffer holds the same values. -/
theorem get_append (extra : List Byte)
    (hfits : index * pod.size + pod.size ≤ data.length) :
    pod.get (data ++ extra) index = pod.get data index := by
  rw [get, get, if_neg (by rw [List.length_append]; omega), if_neg (not_lt.mpr hfits),
    List.drop_append_of_le_length (by omega),
    List.take_append_of_le_length (by rw [List.length_drop]; omega)]

/-- The slots of two indices do not overlap. -/
theorem slots_disjoint (size : ℕ) {index other : ℕ} (hne : other ≠ index) :
    other * size + size ≤ index * size ∨ index * size + size ≤ other * size := by
  rcases lt_or_gt_of_ne hne with hlt | hgt
  · left
    calc other * size + size = (other + 1) * size := (Nat.succ_mul other size).symm
      _ ≤ index * size := Nat.mul_le_mul_right size hlt
  · right
    calc index * size + size = (index + 1) * size := (Nat.succ_mul index size).symm
      _ ≤ other * size := Nat.mul_le_mul_right size hgt

theorem get_write_other (hwrite : pod.write data index value = some after)
    (hne : other ≠ index) : pod.get after other = pod.get data other := by
  have hlength := length_write hwrite
  obtain ⟨hfits, hafter⟩ := write_spec hwrite
  have hbefore : (data.take (index * pod.size)).length = index * pod.size :=
    List.length_take_of_le (by omega)
  have hslot : (after.drop (other * pod.size)).take pod.size =
      (data.drop (other * pod.size)).take pod.size := by
    rw [hafter]
    rcases slots_disjoint pod.size hne with hlow | hhigh
    · rw [List.drop_append_of_le_length (by omega),
        List.take_append_of_le_length (by rw [List.length_drop]; omega),
        List.drop_take, List.take_take, Nat.min_eq_left (by omega)]
    · have hskip : other * pod.size = index * pod.size +
          (pod.size + (other * pod.size - (index * pod.size + pod.size))) := by
        omega
      rw [hskip, ← List.drop_drop, List.drop_left' hbefore, ← List.drop_drop,
        List.drop_left' (pod.length_encode value), List.drop_drop]
      congr 2
      omega
  rw [get, get, hlength, hslot]

end Pod

end Gmsol.Layout
