import Gmsol.Library.Fallible
import Gmsol.Library.Layout

/-!
# Full reports

A full report is the ABI encoding of three words of context and a byte string:
the context, a word with the offset of the byte string, and at that offset a
word with its length and then the bytes.  The decoder reads both words from the
payload itself, and may stop by a panic where it slices or adds without a
check.
-/

namespace Gmsol.Oracle

open Gmsol.Fallible Gmsol.Layout

/-- The bytes of a slice; no slice is longer than `isize::MAX`. -/
structure Payload where
  bytes : List Byte
  length_lt : bytes.length < 2 ^ 63

inductive ReportError
  | dataTooShort (message : String)
  | invalidLength (field : String)
  | parseError (field : String)
  deriving DecidableEq, Repr

/-- How decoding stops without a report. -/
inductive Failure
  | error (error : ReportError)
  | panic (message : String)
  deriving DecidableEq, Repr

abbrev Word : Type := List.Vector Byte 32

namespace Report

def wordSize : ℕ := 32

/-- `bytes[start..stop]`. -/
def slice (bytes : List Byte) (start stop : ℕ) : Except Failure (List Byte) :=
  if start ≤ stop ∧ stop ≤ bytes.length then
    .ok ((bytes.drop start).take (stop - start))
  else .error (.panic "slice index out of range")

/-- Addition on a 64-bit `usize`, with overflow checks. -/
def addUsize (left right : ℕ) : Except Failure ℕ :=
  if left + right < 2 ^ 64 then .ok (left + right)
  else .error (.panic "attempt to add with overflow")

def toWord (bytes : List Byte) (field : String) : Except Failure Word :=
  if h : bytes.length = 32 then .ok ⟨bytes, h⟩
  else .error (.error (.parseError field))

/-- `usize::from_be_bytes`. -/
def usizeFromBeBytes (bytes : List Byte) (field : String) : Except Failure ℕ :=
  if bytes.length = 8 then .ok (Pod.numberOf bytes.reverse)
  else .error (.error (.parseError field))

def readContext (bytes : List Byte) (index : ℕ) : Except Failure Word := do
  let word ← slice bytes (index * wordSize) ((index + 1) * wordSize)
  toWord word "report_context"

def readUsize (bytes : List Byte) (start stop : ℕ) (field : String) :
    Except Failure ℕ := do
  let word ← slice bytes start stop
  let low ← slice word 24 wordSize
  usizeFromBeBytes low field

/-- The three words of context. -/
abbrev Context : Type := Word × Word × Word

def readContexts (bytes : List Byte) : Except Failure Context := do
  let first ← readContext bytes 0
  let second ← readContext bytes 1
  let third ← readContext bytes 2
  return (first, second, third)

/-- The bytes that the given offset leads to. -/
def decodeBlob (bytes : List Byte) (offset : ℕ) : Except Failure (List Byte) := do
  ensure (¬(offset < 128 ∨ bytes.length ≤ offset))
    (.error (.invalidLength "offset"))
  let start ← addUsize offset 32
  let length ← readUsize bytes offset start "length as usize"
  let blobStart ← addUsize offset wordSize
  let blobStop ← addUsize blobStart length
  ensure (¬bytes.length < blobStop) (.error (.invalidLength "bytes data"))
  slice bytes blobStart blobStop

def decodeFullReport (payload : Payload) :
    Except Failure (Context × List Byte) := do
  ensure (¬payload.bytes.length < 128)
    (.error (.dataTooShort "Payload is too short"))
  let context ← readContexts payload.bytes
  let offset ← readUsize payload.bytes 96 128 "offset as usize"
  let blob ← decodeBlob payload.bytes offset
  return (context, blob)

/-! ## Words -/

/-- The number a word of the payload spells. -/
def wordAt (bytes : List Byte) (position : ℕ) : ℕ :=
  Pod.numberOf ((bytes.drop position).take 32).reverse

/-- The number its last eight bytes spell. -/
def lowWordAt (bytes : List Byte) (position : ℕ) : ℕ :=
  Pod.numberOf ((bytes.drop (position + 24)).take 8).reverse

theorem numberOf_append (low high : List Byte) :
    Pod.numberOf (low ++ high) =
      Pod.numberOf low + 256 ^ low.length * Pod.numberOf high := by
  induction low with
  | nil => simp [Pod.numberOf]
  | cons byte low ih =>
      rw [List.cons_append, Pod.numberOf, ih, Pod.numberOf, List.length_cons,
        pow_succ]
      ring

theorem numberOf_lt (bytes : List Byte) :
    Pod.numberOf bytes < 256 ^ bytes.length := by
  induction bytes with
  | nil => simp [Pod.numberOf]
  | cons byte bytes ih =>
      have hbyte := byte.isLt
      rw [Pod.numberOf, List.length_cons, pow_succ]
      omega

/-- The decoder reads a word modulo `2 ^ 64`. -/
theorem lowWordAt_eq {bytes : List Byte} {position : ℕ}
    (hinside : position + 32 ≤ bytes.length) :
    lowWordAt bytes position = wordAt bytes position % 2 ^ 64 := by
  have hsplit : (bytes.drop position).take 32 =
      (bytes.drop position).take 24 ++ (bytes.drop (position + 24)).take 8 := by
    rw [← List.drop_drop, ← List.take_add]
  have hlength : ((bytes.drop (position + 24)).take 8).reverse.length = 8 := by
    rw [List.length_reverse, List.length_take, List.length_drop]
    omega
  have hlow := numberOf_lt ((bytes.drop (position + 24)).take 8).reverse
  rw [hlength] at hlow
  rw [wordAt, hsplit, List.reverse_append, numberOf_append, hlength, lowWordAt]
  omega

/-! ## What the decoder computes -/

section Decoder

variable {bytes : List Byte}

theorem slice_of_le {start stop : ℕ} (hstart : start ≤ stop)
    (hstop : stop ≤ bytes.length) :
    slice bytes start stop = .ok ((bytes.drop start).take (stop - start)) :=
  if_pos ⟨hstart, hstop⟩

theorem slice_of_gt {start stop : ℕ} (hstop : bytes.length < stop) :
    slice bytes start stop = .error (.panic "slice index out of range") :=
  if_neg fun h => absurd h.2 (not_le.mpr hstop)

theorem readContext_of_le {index : ℕ}
    (hinside : index * 32 + 32 ≤ bytes.length) :
    ∃ word : Word, readContext bytes index = .ok word ∧
      word.toList = (bytes.drop (index * 32)).take 32 := by
  have hlength : ((bytes.drop (index * 32)).take 32).length = 32 := by
    rw [List.length_take, List.length_drop]
    omega
  refine ⟨⟨_, hlength⟩, ?_, rfl⟩
  have hsize : (index + 1) * wordSize - index * wordSize = 32 := by
    rw [← Nat.sub_mul, Nat.add_sub_cancel_left, one_mul, wordSize]
  rw [readContext, slice_of_le (Nat.mul_le_mul_right _ (Nat.le_succ _))
    (by rw [wordSize]; omega), hsize]
  exact dif_pos hlength

/-- The bytes of the context. -/
def contextBytes (context : Context) : List Byte :=
  context.1.toList ++ context.2.1.toList ++ context.2.2.toList

theorem readContexts_of_le (hlong : 128 ≤ bytes.length) :
    ∃ context, readContexts bytes = .ok context ∧
      contextBytes context = bytes.take 96 := by
  obtain ⟨first, hfirst, hfirstBytes⟩ := readContext_of_le
    (show 0 * 32 + 32 ≤ bytes.length by omega)
  obtain ⟨second, hsecond, hsecondBytes⟩ := readContext_of_le
    (show 1 * 32 + 32 ≤ bytes.length by omega)
  obtain ⟨third, hthird, hthirdBytes⟩ := readContext_of_le
    (show 2 * 32 + 32 ≤ bytes.length by omega)
  refine ⟨(first, second, third), ?_, ?_⟩
  · simp only [readContexts, hfirst, hsecond, hthird, bind, Except.bind, pure,
      Except.pure]
  · rw [contextBytes, hfirstBytes, hsecondBytes, hthirdBytes, zero_mul,
      List.drop_zero, show 96 = 32 + 32 + 32 by rfl, List.take_add, List.take_add]

theorem readUsize_of_le {start stop : ℕ} {field : String}
    (hstop : stop = start + 32) (hinside : start + 32 ≤ bytes.length) :
    readUsize bytes start stop field = .ok (lowWordAt bytes start) := by
  subst hstop
  have hlow : (((bytes.drop start).take 32).drop 24).take 8 =
      (bytes.drop (start + 24)).take 8 := by
    rw [List.drop_take, List.drop_drop, List.take_take]
    rfl
  have hword : ((bytes.drop start).take 32).length = 32 := by
    rw [List.length_take, List.length_drop]
    omega
  have hlength : ((bytes.drop (start + 24)).take 8).length = 8 := by
    rw [List.length_take, List.length_drop]
    omega
  rw [readUsize, slice_of_le (by omega) hinside, Nat.add_sub_cancel_left]
  simp only [bind, Except.bind]
  rw [slice_of_le (by rw [wordSize]; omega) (by rw [hword, wordSize])]
  simp only [wordSize, Nat.reduceSub, hlow]
  rw [usizeFromBeBytes, if_pos hlength, lowWordAt]

theorem readUsize_of_gt {start stop : ℕ} {field : String}
    (hstop : bytes.length < stop) :
    readUsize bytes start stop field =
      .error (.panic "slice index out of range") := by
  rw [readUsize, slice_of_gt hstop]
  rfl

/-- The four ways a blob is looked for inside the payload. -/
theorem decodeBlob_eq (hlt : bytes.length < 2 ^ 63) (offset : ℕ) :
    decodeBlob bytes offset =
      if offset < 128 ∨ bytes.length ≤ offset then
        .error (.error (.invalidLength "offset"))
      else if bytes.length < offset + 32 then
        .error (.panic "slice index out of range")
      else if 2 ^ 64 ≤ offset + 32 + lowWordAt bytes offset then
        .error (.panic "attempt to add with overflow")
      else if bytes.length < offset + 32 + lowWordAt bytes offset then
        .error (.error (.invalidLength "bytes data"))
      else .ok ((bytes.drop (offset + 32)).take (lowWordAt bytes offset)) := by
  unfold decodeBlob
  by_cases hoffset : offset < 128 ∨ bytes.length ≤ offset
  · rw [if_pos hoffset, ensure, if_neg (not_not.mpr hoffset)]
    rfl
  have hstart : addUsize offset 32 = .ok (offset + 32) := if_pos (by omega)
  simp only [if_neg hoffset, ensure_of hoffset, wordSize, hstart, bind, Except.bind]
  by_cases hshort : bytes.length < offset + 32
  · rw [readUsize_of_gt hshort, if_pos hshort]
  rw [readUsize_of_le rfl (not_lt.mp hshort), if_neg hshort]
  simp only
  by_cases hoverflow : 2 ^ 64 ≤ offset + 32 + lowWordAt bytes offset
  · rw [if_pos hoverflow, addUsize, if_neg (not_lt.mpr hoverflow)]
  rw [if_neg hoverflow, addUsize, if_pos (not_le.mp hoverflow)]
  simp only
  by_cases hblob : bytes.length < offset + 32 + lowWordAt bytes offset
  · rw [if_pos hblob, ensure, if_neg (not_not.mpr hblob)]
  · rw [if_neg hblob, ensure_of hblob]
    simp only
    rw [slice_of_le (Nat.le_add_right _ _) (not_lt.mp hblob),
      Nat.add_sub_cancel_left]

/-- Decoding a payload that is long enough decodes the blob its offset word
leads to. -/
theorem decodeFullReport_of_le {payload : Payload}
    (hlong : 128 ≤ payload.bytes.length) :
    ∃ context, contextBytes context = payload.bytes.take 96 ∧
      decodeFullReport payload =
        (decodeBlob payload.bytes (lowWordAt payload.bytes 96)).map
          fun blob => (context, blob) := by
  obtain ⟨context, hcontext, hbytes⟩ := readContexts_of_le hlong
  refine ⟨context, hbytes, ?_⟩
  rw [decodeFullReport, ensure_of (not_lt.mpr hlong), hcontext,
    readUsize_of_le rfl (by omega)]
  rfl

end Decoder

/-! ## Total and exact -/

/-- The payload has room for the words the encoding starts with, and its offset
and length, read as whole words, stay inside it. -/
def WellFormed (bytes : List Byte) : Prop :=
  128 ≤ bytes.length ∧ 128 ≤ wordAt bytes 96 ∧
    wordAt bytes 96 + 32 ≤ bytes.length ∧
    wordAt bytes 96 + 32 + wordAt bytes (wordAt bytes 96) ≤ bytes.length

/-- The decoder never panics and accepts exactly the well-formed payloads. -/
def TotalAndExact (payload : Payload) : Prop :=
  (∀ message, decodeFullReport payload ≠ .error (.panic message)) ∧
    ∀ context blob, decodeFullReport payload = .ok (context, blob) ↔
      WellFormed payload.bytes ∧
        contextBytes context = payload.bytes.take 96 ∧
        blob = (payload.bytes.drop (wordAt payload.bytes 96 + 32)).take
          (wordAt payload.bytes (wordAt payload.bytes 96))

/-- The offset is refused, or the length word lies inside the payload and either
the blob it announces is refused without an overflow, or both words fit in their
last eight bytes. -/
def SafeWords (payload : Payload) : Prop :=
  let bytes := payload.bytes
  let offset := lowWordAt bytes 96
  let blobStop := offset + 32 + lowWordAt bytes offset
  bytes.length < 128 ∨ offset < 128 ∨ bytes.length ≤ offset ∨
    offset + 32 ≤ bytes.length ∧
      (bytes.length < blobStop ∧ blobStop < 2 ^ 64 ∨
        blobStop ≤ bytes.length ∧ wordAt bytes 96 < 2 ^ 64 ∧
          wordAt bytes offset < 2 ^ 64)

theorem contextBytes_injective : Function.Injective contextBytes := by
  rintro ⟨⟨first, hfirst⟩, ⟨second, hsecond⟩, third⟩
    ⟨⟨first', hfirst'⟩, ⟨second', hsecond'⟩, third'⟩ hbytes
  simp only [contextBytes, List.Vector.toList, List.append_assoc] at hbytes
  obtain ⟨rfl, hrest⟩ := List.append_inj hbytes (hfirst.trans hfirst'.symm)
  obtain ⟨rfl, hlast⟩ := List.append_inj hrest (hsecond.trans hsecond'.symm)
  obtain rfl : third = third' := Subtype.ext hlast
  rfl

section TotalAndExact

variable {payload : Payload}

/-- The property is one of the blob: the context is always the first words. -/
theorem totalAndExact_iff (hlong : 128 ≤ payload.bytes.length) :
    TotalAndExact payload ↔
      (∀ message, decodeBlob payload.bytes (lowWordAt payload.bytes 96) ≠
        .error (.panic message)) ∧
      ∀ blob, decodeBlob payload.bytes (lowWordAt payload.bytes 96) = .ok blob ↔
        WellFormed payload.bytes ∧
          blob = (payload.bytes.drop (wordAt payload.bytes 96 + 32)).take
            (wordAt payload.bytes (wordAt payload.bytes 96)) := by
  obtain ⟨context, hcontext, hdecode⟩ := decodeFullReport_of_le hlong
  have hunique : ∀ other, contextBytes other = payload.bytes.take 96 ↔
      context = other := by
    intro other
    rw [← hcontext, contextBytes_injective.eq_iff, eq_comm]
  rw [TotalAndExact, hdecode]
  simp only [hunique]
  cases hblob : decodeBlob payload.bytes (lowWordAt payload.bytes 96) with
  | error stopped =>
      simp only [Except.map, ne_eq, Except.error.injEq, reduceCtorEq, false_iff,
        not_and]
      apply and_congr_right'
      constructor
      · intro hnone blob hformed hblob
        exact hnone context blob hformed rfl hblob
      · intro hnone other blob hformed _
        exact hnone blob hformed
  | ok found =>
      simp only [Except.map, ne_eq, reduceCtorEq, not_false_eq_true,
        implies_true, Except.ok.injEq, Prod.mk.injEq, true_and]
      constructor
      · intro hexact blob
        simpa using hexact context blob
      · intro hexact other blob
        rw [hexact blob]
        exact ⟨fun h => ⟨h.2.1, h.1, h.2.2⟩, fun h => ⟨h.2.1, h.1, h.2.2⟩⟩

/-- A word whose value is small is read in full. -/
theorem lowWordAt_eq_wordAt {bytes : List Byte} {position : ℕ}
    (hinside : position + 32 ≤ bytes.length)
    (hsmall : wordAt bytes position < 2 ^ 64) :
    lowWordAt bytes position = wordAt bytes position := by
  rw [lowWordAt_eq hinside, Nat.mod_eq_of_lt hsmall]

/-- The words of a well-formed payload are read in full. -/
theorem WellFormed.words {bytes : List Byte} (hformed : WellFormed bytes)
    (hlt : bytes.length < 2 ^ 63) :
    lowWordAt bytes 96 = wordAt bytes 96 ∧
      lowWordAt bytes (wordAt bytes 96) = wordAt bytes (wordAt bytes 96) := by
  obtain ⟨hlong, -, hoffset, hblob⟩ := hformed
  exact ⟨lowWordAt_eq_wordAt hlong (by omega),
    lowWordAt_eq_wordAt hoffset (by omega)⟩

/-- A well-formed payload is decoded. -/
theorem decodeBlob_of_wellFormed (hformed : WellFormed payload.bytes) :
    decodeBlob payload.bytes (lowWordAt payload.bytes 96) =
      .ok ((payload.bytes.drop (wordAt payload.bytes 96 + 32)).take
        (wordAt payload.bytes (wordAt payload.bytes 96))) := by
  have hlt := payload.length_lt
  obtain ⟨hoffset, hlength⟩ := hformed.words hlt
  obtain ⟨hlong, hlow, hinside, hblob⟩ := hformed
  rw [hoffset, decodeBlob_eq hlt, hlength, if_neg (by omega), if_neg (by omega),
    if_neg (by omega), if_neg (by omega)]

theorem safeWords_of_totalAndExact (hexact : TotalAndExact payload) :
    SafeWords payload := by
  simp only [SafeWords]
  by_contra hbad
  simp only [not_or, not_lt, not_le] at hbad
  obtain ⟨hlong, hlow, hhigh, hwords⟩ := hbad
  obtain ⟨htotal, hok⟩ := (totalAndExact_iff hlong).mp hexact
  have hdecode := decodeBlob_eq payload.length_lt (lowWordAt payload.bytes 96)
  rw [if_neg (by omega)] at hdecode
  split_ifs at hdecode with hshort hoverflow hblob
  · exact htotal _ hdecode
  · exact htotal _ hdecode
  · exact hwords ⟨not_lt.mp hshort, .inl ⟨hblob, not_le.mp hoverflow⟩⟩
  · have hformed := ((hok _).mp hdecode).1
    have hlt := payload.length_lt
    obtain ⟨hoffset, hlength⟩ := hformed.words hlt
    obtain ⟨-, -, hinside, hend⟩ := hformed
    refine hwords ⟨not_lt.mp hshort, .inr ⟨not_lt.mp hblob, by omega, ?_⟩⟩
    rw [hoffset]
    omega

theorem totalAndExact_of_safeWords (hsafe : SafeWords payload) :
    TotalAndExact payload := by
  have hlt := payload.length_lt
  by_cases hlong : 128 ≤ payload.bytes.length
  · rw [totalAndExact_iff hlong]
    simp only [SafeWords] at hsafe
    have hdecode := decodeBlob_eq hlt (lowWordAt payload.bytes 96)
    -- a refused blob is not well formed, as that one would be decoded
    have hrefused : ∀ field, decodeBlob payload.bytes
        (lowWordAt payload.bytes 96) = .error (.error (.invalidLength field)) →
        (∀ message, decodeBlob payload.bytes (lowWordAt payload.bytes 96) ≠
          .error (.panic message)) ∧
        ∀ blob, decodeBlob payload.bytes (lowWordAt payload.bytes 96) = .ok blob ↔
          WellFormed payload.bytes ∧
            blob = (payload.bytes.drop (wordAt payload.bytes 96 + 32)).take
              (wordAt payload.bytes (wordAt payload.bytes 96)) := by
      intro field hfield
      refine ⟨by simp [hfield], fun blob => ⟨by simp [hfield], ?_⟩⟩
      rintro ⟨hformed, -⟩
      rw [decodeBlob_of_wellFormed hformed] at hfield
      exact absurd hfield (by simp)
    by_cases houtside : lowWordAt payload.bytes 96 < 128 ∨
        payload.bytes.length ≤ lowWordAt payload.bytes 96
    · rw [if_pos houtside] at hdecode
      exact hrefused _ hdecode
    · obtain ⟨hinside, hblob⟩ : _ ∧ _ := by
        rcases hsafe with hshort | hlow | hhigh | hinside
        · omega
        · exact absurd (.inl hlow) houtside
        · exact absurd (.inr hhigh) houtside
        · exact hinside
      rw [if_neg houtside, if_neg (not_lt.mpr hinside)] at hdecode
      rcases hblob with ⟨hbeyond, hfits⟩ | ⟨hwithin, hoffset, hlength⟩
      · rw [if_neg (not_le.mpr hfits), if_pos hbeyond] at hdecode
        exact hrefused _ hdecode
      · have hoffsetEq := lowWordAt_eq_wordAt hlong hoffset
        rw [hoffsetEq] at hinside hwithin hlength houtside
        rw [lowWordAt_eq_wordAt hinside hlength] at hwithin
        have hformed : WellFormed payload.bytes :=
          ⟨hlong, by omega, hinside, hwithin⟩
        rw [decodeBlob_of_wellFormed hformed]
        simp [hformed, eq_comm]
  · have hshort : decodeFullReport payload =
        .error (.error (.dataTooShort "Payload is too short")) := by
      rw [decodeFullReport, ensure, if_neg (not_not.mpr (not_le.mp hlong))]
      rfl
    rw [TotalAndExact, hshort]
    exact ⟨by simp, fun context blob =>
      ⟨by simp, fun h => absurd h.1.1 hlong⟩⟩

end TotalAndExact

/-! ## The ABI encoding -/

/-- A word in big-endian order. -/
def wordBytes (number : ℕ) : List Byte := (Pod.bytesOf 32 number).reverse

/-- The context, the offset of the blob, its length, and the blob filled up to
whole words. -/
def abiEncode (context : Context) (blob : List Byte) : List Byte :=
  contextBytes context ++ (wordBytes 128 ++ (wordBytes blob.length ++
    (blob ++ List.replicate ((32 - blob.length % 32) % 32) 0)))

theorem length_wordBytes (number : ℕ) : (wordBytes number).length = 32 := by
  rw [wordBytes, List.length_reverse, Pod.length_bytesOf]

theorem length_contextBytes (context : Context) :
    (contextBytes context).length = 96 := by
  simp [contextBytes]

/-- A number that starts with a word is read back from it. -/
theorem wordAt_of_drop {bytes rest : List Byte} {position number : ℕ}
    (hdrop : bytes.drop position = wordBytes number ++ rest)
    (hsmall : number < 256 ^ 32) : wordAt bytes position = number := by
  rw [wordAt, hdrop, List.take_left' (length_wordBytes number), wordBytes,
    List.reverse_reverse, Pod.numberOf_bytesOf hsmall]

theorem decodeFullReport_abiEncode {payload : Payload} {context : Context}
    {blob : List Byte} (hencoded : payload.bytes = abiEncode context blob) :
    decodeFullReport payload = .ok (context, blob) := by
  obtain ⟨rest, hrest⟩ : ∃ rest, payload.bytes = contextBytes context ++
      (wordBytes 128 ++ (wordBytes blob.length ++ (blob ++ rest))) :=
    ⟨_, hencoded⟩
  have hlt := payload.length_lt
  have htotal : payload.bytes.length = 160 + blob.length + rest.length := by
    rw [hrest]
    simp only [List.length_append, length_contextBytes, length_wordBytes]
    omega
  have hcontext : payload.bytes.take 96 = contextBytes context := by
    rw [hrest, List.take_left' (length_contextBytes context)]
  have hoffset : payload.bytes.drop 96 =
      wordBytes 128 ++ (wordBytes blob.length ++ (blob ++ rest)) := by
    rw [hrest, List.drop_left' (length_contextBytes context)]
  have hlength : payload.bytes.drop 128 =
      wordBytes blob.length ++ (blob ++ rest) := by
    rw [show 128 = 96 + 32 by rfl, ← List.drop_drop, hoffset,
      List.drop_left' (length_wordBytes 128)]
  have hblob : payload.bytes.drop 160 = blob ++ rest := by
    rw [show 160 = 128 + 32 by rfl, ← List.drop_drop, hlength,
      List.drop_left' (length_wordBytes blob.length)]
  have hfirst : wordAt payload.bytes 96 = 128 :=
    wordAt_of_drop hoffset (by norm_num)
  have hsecond : wordAt payload.bytes 128 = blob.length :=
    wordAt_of_drop hlength (by omega)
  have hformed : WellFormed payload.bytes := by
    rw [WellFormed, hfirst, hsecond]
    exact ⟨by omega, le_refl _, by omega, by omega⟩
  obtain ⟨decoded, hdecoded, hdecode⟩ := decodeFullReport_of_le hformed.1
  obtain rfl : decoded = context :=
    contextBytes_injective (hdecoded.trans hcontext)
  rw [hdecode, decodeBlob_of_wellFormed hformed, hfirst, hsecond, hblob,
    List.take_left]
  rfl

/-- The decoder is total and exact on the payloads with safe words, and it
inverts the encoding. -/
theorem decodeFullReport_totalAndExact_iff (payload : Payload) :
    (TotalAndExact payload ↔ SafeWords payload) ∧
      ∀ context blob, payload.bytes = abiEncode context blob →
        decodeFullReport payload = .ok (context, blob) :=
  ⟨⟨safeWords_of_totalAndExact, totalAndExact_of_safeWords⟩,
    fun _ _ hencoded => decodeFullReport_abiEncode hencoded⟩

/-- One byte follows the offset word, which points at that byte. -/
def cutPayload : Payload where
  bytes := List.replicate 96 0 ++ wordBytes 128 ++ [0]
  length_lt := by simp [length_wordBytes]

theorem decodeFullReport_panics :
    decodeFullReport cutPayload = .error (.panic "slice index out of range") ∧
      ¬TotalAndExact cutPayload := by
  have hpanic : decodeFullReport cutPayload =
      .error (.panic "slice index out of range") := by
    decide +kernel
  exact ⟨hpanic, fun hexact => hexact.1 _ hpanic⟩

end Report

end Gmsol.Oracle
