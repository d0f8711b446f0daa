import Gmsol.Store.Roles

/-!
# Names of a fixed size

The names of roles, markets and tokens are strings that are kept padded with zeros.
A name ends where it is as long as the array when it is stored, but at the first zero
when it is read, and there has to be one.
-/

namespace Gmsol.Store.FixedStr

open Gmsol.Fallible Gmsol.Layout

/-! ## Strings and bytes -/

def asBytes (name : String) : List Byte := name.toByteArray.data.toList.map UInt8.toFin

/-- Only valid UTF-8 is a string. -/
def fromUtf8 (bytes : List Byte) : Result String :=
  okOr (String.fromUTF8? ⟨(bytes.map UInt8.ofFin).toArray⟩) .invalidArgument

/-- A string whose bytes fit the array is padded with zeros. -/
def fixedStrToBytes (maxLen : ℕ) (name : String) : Result (Vector Byte maxLen) :=
  Store.fixedStrToBytes maxLen (asBytes name)

/-- The bytes before the first zero are read as a string. -/
def bytesToFixedStr {maxLen : ℕ} (bytes : Vector Byte maxLen) : Result String := do
  let validBytes ← Store.bytesToFixedStr bytes
  fromUtf8 validBytes

theorem length_asBytes (name : String) : (asBytes name).length = name.utf8ByteSize := by
  rw [asBytes, List.length_map, Array.length_toList]
  rfl

theorem fromUtf8_eq_ok {bytes : List Byte} {name : String} :
    fromUtf8 bytes = .ok name ↔ bytes = asBytes name := by
  rw [fromUtf8, okOr_eq_ok, String.fromUTF8?, asBytes]
  constructor
  · intro hread
    split_ifs at hread with hvalid
    obtain rfl := Option.some.inj hread
    show bytes = (bytes.map UInt8.ofFin).map UInt8.toFin
    rw [List.map_map]
    exact (List.map_id bytes).symm
  · rintro rfl
    have hbytes : (⟨((name.toByteArray.data.toList.map UInt8.toFin).map
        UInt8.ofFin).toArray⟩ : ByteArray) = name.toByteArray := by
      have hsame : UInt8.ofFin ∘ UInt8.toFin = id := rfl
      rw [List.map_map, hsame, List.map_id, Array.toArray_toList]
    rw [hbytes, dif_pos name.isValidUTF8]
    rfl

theorem ofNat_ne_zero (value : ℕ) (hpositive : 0 < value) (hsmall : value < 256) :
    (0 : UInt8) ≠ UInt8.ofNat value := by
  intro hzero
  have htoNat := congrArg UInt8.toNat hzero
  rw [UInt8.toNat_ofNat', Nat.mod_eq_of_lt hsmall] at htoNat
  exact hpositive.ne htoNat

theorem eq_null_iff (char : Char) : char = '\x00' ↔ char.val.toNat = 0 := by
  constructor
  · rintro rfl
    rfl
  · intro hzero
    apply Char.ext
    exact UInt32.toNat_inj.mp hzero

/-- The only character with a zero among its bytes is the null character. -/
theorem zero_mem_utf8EncodeChar (char : Char) :
    0 ∈ String.utf8EncodeChar char ↔ char = '\x00' := by
  rw [eq_null_iff, String.utf8EncodeChar]
  generalize char.val.toNat = value
  split_ifs with hone htwo hthree
  · rw [List.mem_singleton]
    constructor
    · intro hzero
      by_contra hvalue
      exact ofNat_ne_zero value (Nat.pos_of_ne_zero hvalue) (by omega) hzero
    · rintro rfl
      rfl
  · have hfirst := ofNat_ne_zero (value / 64 % 0x20 + 0xc0) (by omega) (by omega)
    have hlast := ofNat_ne_zero (value % 0x40 + 0x80) (by omega) (by omega)
    simp only [List.mem_cons, hfirst, hlast, List.not_mem_nil, or_self, false_iff]
    omega
  · have hfirst := ofNat_ne_zero (value / 4096 % 0x10 + 0xe0) (by omega) (by omega)
    have hsecond := ofNat_ne_zero (value / 64 % 0x40 + 0x80) (by omega) (by omega)
    have hlast := ofNat_ne_zero (value % 0x40 + 0x80) (by omega) (by omega)
    simp only [List.mem_cons, hfirst, hsecond, hlast, List.not_mem_nil, or_self, false_iff]
    omega
  · have hfirst := ofNat_ne_zero (value / 262144 % 0x08 + 0xf0) (by omega) (by omega)
    have hsecond := ofNat_ne_zero (value / 4096 % 0x40 + 0x80) (by omega) (by omega)
    have hthird := ofNat_ne_zero (value / 64 % 0x40 + 0x80) (by omega) (by omega)
    have hlast := ofNat_ne_zero (value % 0x40 + 0x80) (by omega) (by omega)
    simp only [List.mem_cons, hfirst, hsecond, hthird, hlast, List.not_mem_nil, or_self,
      false_iff]
    omega

theorem zero_mem_asBytes (name : String) : 0 ∈ asBytes name ↔ '\x00' ∈ name.toList := by
  have hzero : (0 : Byte) = UInt8.toFin 0 := rfl
  have hencoded : name.toByteArray.data.toList =
      name.toList.flatMap String.utf8EncodeChar := by
    rw [← String.utf8Encode_toList, List.utf8Encode, List.data_toByteArray]
  rw [asBytes, hzero, List.mem_map_of_injective UInt8.toFin_injective, hencoded,
    List.mem_flatMap]
  simp only [zero_mem_utf8EncodeChar, exists_eq_right]

/-! ## Padding -/

variable {maxLen : ℕ} {bytes : Vector Byte maxLen}

theorem toList_padded {name : List Byte} (hfits : name.length ≤ maxLen) :
    (Vector.ofFn fun slot : Fin maxLen => name.getD slot 0).toList =
      name ++ List.replicate (maxLen - name.length) 0 := by
  apply List.ext_getElem
  · simp
    omega
  · intro index hleft hright
    rw [List.getElem_append]
    split_ifs with hname
    · simp [hname]
    · simp [not_lt.mp hname]

/-- A padded name is read back exactly when a zero follows it and none is in it. -/
theorem bytesToFixedStr_padded {name : List Byte}
    (hpad : Store.fixedStrToBytes maxLen name = .ok bytes) :
    Store.bytesToFixedStr bytes = .ok name ↔ name.length < maxLen ∧ 0 ∉ name := by
  simp only [Store.fixedStrToBytes, bind_eq_ok, ensure_eq_ok, Except.ok.injEq] at hpad
  obtain ⟨_, hfits, rfl⟩ := hpad
  rw [Store.bytesToFixedStr, toList_padded hfits, List.findIdx?_append,
    List.findIdx?_replicate]
  cases hzero : name.findIdx? (fun byte => decide (byte = 0)) with
  | none =>
      have hnone : 0 ∉ name := by
        intro hmem
        rw [List.findIdx?_eq_none_iff] at hzero
        exact absurd (hzero 0 hmem) (by decide)
      rw [Option.none_or]
      split_ifs with hroom
      · simp [hnone]
        omega
      · have hfull : ¬name.length < maxLen := fun hlt => hroom ⟨by omega, rfl⟩
        simp [hfull]
  | some index =>
      rw [Option.some_or]
      obtain ⟨hlt, hfound, -⟩ := List.findIdx?_eq_some_iff_getElem.mp hzero
      have hmem : 0 ∈ name := by
        rw [← of_decide_eq_true hfound]
        exact List.getElem_mem hlt
      constructor
      · intro hread
        have hlength := congrArg List.length (Except.ok.inj hread)
        rw [List.length_take_of_le (by simp; omega)] at hlength
        omega
      · rintro ⟨-, hnone⟩
        exact absurd hmem hnone

/-- The name of a role is read back under the same condition. -/
theorem roleMetadata_name {name : RoleName} {index : ℕ} {metadata : RoleMetadata}
    (hnew : RoleMetadata.new name index = .ok metadata) :
    metadata.name = .ok name ↔ name.length < maxRoleNameLen ∧ 0 ∉ name := by
  simp only [RoleMetadata.new, bind_eq_ok, Except.ok.injEq] at hnew
  obtain ⟨nameBytes, hpad, rfl⟩ := hnew
  exact bytesToFixedStr_padded hpad

/-! ## Round trips -/

/-- A string shorter than the array and without a null character. -/
def ReadsBack (maxLen : ℕ) (name : String) : Prop :=
  name.utf8ByteSize < maxLen ∧ '\x00' ∉ name.toList

theorem bytesToFixedStr_eq_ok {name : String}
    (hwrite : fixedStrToBytes maxLen name = .ok bytes) :
    bytesToFixedStr bytes = .ok name ↔ ReadsBack maxLen name := by
  rw [ReadsBack, ← length_asBytes, ← zero_mem_asBytes, ← bytesToFixedStr_padded hwrite,
    bytesToFixedStr, bind_eq_ok]
  simp only [fromUtf8_eq_ok, exists_eq_right]

/-- Exactly the stored names that are shorter than the array and have no null character
are read back, and no two of these are stored alike. -/
theorem fixedStr_roundTrips_iff (maxLen : ℕ) (name : String) (bytes : Vector Byte maxLen)
    (hwrite : fixedStrToBytes maxLen name = .ok bytes) :
    (bytesToFixedStr bytes = .ok name ↔ ReadsBack maxLen name) ∧
      (ReadsBack maxLen name → ∀ other, fixedStrToBytes maxLen other = .ok bytes →
        ReadsBack maxLen other → other = name) := by
  refine ⟨bytesToFixedStr_eq_ok hwrite, fun hname other hother hreads => ?_⟩
  have hread := (bytesToFixedStr_eq_ok hwrite).mpr hname
  have hotherRead := (bytesToFixedStr_eq_ok hother).mpr hreads
  exact Except.ok.inj (hotherRead.symm.trans hread)

theorem fixedStr_roundTrips_market_keeper : ∃ bytes,
    fixedStrToBytes maxRoleNameLen "MARKET_KEEPER" = .ok bytes ∧
      bytesToFixedStr bytes = .ok "MARKET_KEEPER" := by
  have hok : (fixedStrToBytes maxRoleNameLen "MARKET_KEEPER").isOk = true := by
    decide +kernel
  obtain ⟨bytes, hwrite⟩ := exists_of_isOk hok
  exact ⟨bytes, hwrite,
    (fixedStr_roundTrips_iff maxRoleNameLen "MARKET_KEEPER" bytes hwrite).1.mpr
      ⟨by decide +kernel, by decide +kernel⟩⟩

/-- A role name of 32 bytes is accepted but never read back, and a null character at
the end of a name is lost. -/
theorem fixedStr_not_read_back :
    (∃ bytes,
      fixedStrToBytes maxRoleNameLen "GT_CONTROLLER_OF_THE_FIRST_STORE" = .ok bytes ∧
        bytesToFixedStr bytes = .error .invalidArgument) ∧
    fixedStrToBytes maxRoleNameLen "ORDER_KEEPER\x00" =
      fixedStrToBytes maxRoleNameLen "ORDER_KEEPER" := by
  constructor
  · exact exists_ok_iff_any.mpr (by decide +kernel)
  · decide +kernel

end Gmsol.Store.FixedStr
