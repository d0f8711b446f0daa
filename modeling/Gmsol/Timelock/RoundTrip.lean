import Gmsol.Timelock.Instruction

/-!
# The round trip of an instruction buffer

A buffer that was written holds the header, the data and the accounts at the
places where both readers look for them.  The reader of the clients returns
the instruction that was written; the reader of the program does so only when
there are no accounts, because it compares the length of the account area with
the number of the accounts.
-/

namespace Gmsol.Timelock

open Gmsol.Container Gmsol.Fallible Gmsol.FixedArray Gmsol.Layout Gmsol.Store

/-! ## The layout of a buffer -/

/-- The bytes of an initialized buffer. -/
def layout (discriminator : Vector Byte 8) (header : InstructionHeader)
    (data area : List Byte) : List Byte :=
  discriminator.toList ++ (InstructionHeader.pod.encode header ++ (data ++ area))

theorem splitAt_append {before after : List Byte} {middle : ℕ}
    (hlength : before.length = middle) :
    splitAt (before ++ after) middle = .ok (before, after) := by
  rw [splitAt, if_pos (by rw [List.length_append]; omega),
    List.take_left' hlength, List.drop_left' hlength]

section Layout

variable {discriminator : Vector Byte 8} {header : InstructionHeader}
  {data area : List Byte}

theorem splitAt_layout :
    splitAt (layout discriminator header data area) 8 = .ok
      (discriminator.toList,
        InstructionHeader.pod.encode header ++ (data ++ area)) :=
  splitAt_append (Vector.length_toList)

theorem splitAt_header :
    splitAt (InstructionHeader.pod.encode header ++ (data ++ area))
      InstructionHeader.pod.size =
      .ok (InstructionHeader.pod.encode header, data ++ area) :=
  splitAt_append (InstructionHeader.pod.length_encode header)

theorem headerOf_layout :
    headerOf (layout discriminator header data area) = .ok header := by
  simp only [headerOf, splitAt_layout, splitAt_header, bind, Except.bind,
    InstructionHeader.pod.decode_encode]

theorem length_layout :
    (layout discriminator header data area).length =
      8 + (InstructionHeader.pod.size + (data.length + area.length)) := by
  simp only [layout, List.length_append, Vector.length_toList,
    InstructionHeader.pod.length_encode]

theorem checkDiscriminator_layout :
    checkDiscriminator discriminator (layout discriminator header data area) =
      .ok () := by
  have hlong : 8 ≤ (layout discriminator header data area).length := by
    rw [length_layout]
    omega
  have hdisc : (layout discriminator header data area).take 8 =
      discriminator.toList := List.take_left' Vector.length_toList
  rw [checkDiscriminator, ensure_of hlong, ensure_of hdisc]
  rfl

theorem load_layout :
    load discriminator (layout discriminator header data area) = .ok header := by
  simp only [load, checkDiscriminator_layout, bind, Except.bind, headerOf_layout]

variable (hdata : data.length = header.dataLen)

include hdata

/-- The reader of the program wants as many bytes as there are accounts. -/
theorem loadInstruction_layout :
    loadInstruction discriminator (layout discriminator header data area) =
      if area.length = header.numAccounts then .ok { header, data, accounts := area }
      else .error (.core .internal) := by
  simp only [loadInstruction, load_layout, splitAt_layout, splitAt_header, bind,
    Except.bind, InstructionHeader.pod.decode_encode, splitAt_append hdata]
  by_cases hlength : area.length = header.numAccounts
  · simp [hlength, ensure]
  · simp [hlength, ensure]

theorem tryDeserialize_layout :
    tryDeserialize discriminator (layout discriminator header data area) =
      .ok { header, data, accounts := area } := by
  have hlong : 8 + InstructionHeader.pod.size ≤
      (layout discriminator header data area).length := by
    rw [length_layout]
    omega
  rw [tryDeserialize, checkDiscriminator_layout, ensure_of hlong]
  simp only [headerOf_layout, splitAt_layout, splitAt_header, bind, Except.bind,
    splitAt_append hdata]

end Layout

/-! ## Writing the accounts -/

def isSigner (signers : List U16) (index : ℕ) : Bool :=
  signers.any fun signer => signer.val = index

/-- The account as the instruction names it. -/
def metaOf (signers : List U16) (index : ℕ) (account : AccountInfo) :
    AccountMeta where
  pubkey := account.key
  isSigner := isSigner signers index
  isWritable := account.isWritable

/-- The entries of the signer list that are the index of an account point at
the wallet. -/
def SignersAllowed (wallet : Pubkey) (signers : List U16)
    (accounts : List AccountInfo) : Prop :=
  ∀ signer ∈ signers, ∀ account, accounts[signer.val]? = some account →
    account.key = wallet

theorem toMeta_assign (slot : InstructionAccount) (account : AccountInfo)
    (signs : Bool) :
    (InstructionAccount.assign slot account signs).toMeta =
      { pubkey := account.key, isSigner := signs,
        isWritable := account.isWritable } := by
  simp only [InstructionAccount.toMeta, InstructionAccount.assign,
    InstructionAccountFlag.toIndex]
  rw [Bitmap.get_set _ _ _ (by decide), Bitmap.get_set _ _ _ (by decide),
    Bitmap.get_set _ _ _ (by decide)]
  simp

theorem decide_mem_eq_isSigner (signers : List U16) {index : ℕ}
    (hindex : index < 256 ^ 2) :
    decide ((⟨index, hindex⟩ : U16) ∈ signers) = isSigner signers index := by
  rw [Bool.eq_iff_iff, decide_eq_true_iff, isSigner, List.any_eq_true]
  constructor
  · intro hmem
    exact ⟨_, hmem, by simp⟩
  · rintro ⟨signer, hmem, hsame⟩
    have heq : signer = ⟨index, hindex⟩ := Fin.ext (by simpa using hsame)
    exact heq ▸ hmem

/-- From an index on, every account is written at its own index, and no slot
before is touched. -/
theorem writeAccounts_spec (wallet : Pubkey) (signers : List U16) (index : ℕ)
    (accounts : List AccountInfo) (area : List Byte)
    (hindex : index + accounts.length ≤ 256 ^ 2)
    (hroom : (index + accounts.length) * InstructionAccount.pod.size ≤ area.length)
    (hsigners : ∀ offset account, accounts[offset]? = some account →
      isSigner signers (index + offset) = true → account.key = wallet) :
    ∃ after, writeAccounts wallet signers index accounts area = .ok after ∧
      after.length = area.length ∧
      (∀ slot, slot < index → InstructionAccount.pod.get after slot =
        InstructionAccount.pod.get area slot) ∧
      ∀ offset account, accounts[offset]? = some account →
        ∃ written, InstructionAccount.pod.get after (index + offset) =
            some written ∧
          written.toMeta = metaOf signers (index + offset) account := by
  induction accounts generalizing index area with
  | nil =>
      refine ⟨area, rfl, rfl, fun _ _ => rfl, ?_⟩
      intro offset account hnone
      exact absurd hnone (by simp)
  | cons account rest ih =>
      rw [List.length_cons] at hindex hroom
      have hplace : index < 256 ^ 2 := by omega
      have hfits : index * InstructionAccount.pod.size +
          InstructionAccount.pod.size ≤ area.length := by
        rw [← Nat.succ_mul]
        exact (Nat.mul_le_mul_right _ (by omega)).trans hroom
      obtain ⟨slot, hslot⟩ := Pod.get_isSome hfits
      obtain ⟨next, hnext⟩ := Pod.write_eq_some hfits
        (slot.assign account (isSigner signers index))
      have hlength := Pod.length_write hnext
      have hsigner : requireSigner wallet account (isSigner signers index) =
          .ok () := by
        cases hsigns : isSigner signers index with
        | false => rfl
        | true =>
            have hkey := hsigners 0 account rfl hsigns
            exact ensure_eq_ok.mpr hkey.symm
      obtain ⟨after, hafter, hlengthAfter, hbefore, hwritten⟩ :=
        ih (index + 1) next (by omega)
          (by rw [hlength, show index + 1 + rest.length =
            index + (rest.length + 1) by omega]; exact hroom)
          (by
            intro offset other hother hsigns
            apply hsigners (offset + 1) other hother
            rwa [show index + (offset + 1) = index + 1 + offset by omega])
      refine ⟨after, ?_, hlengthAfter.trans hlength, ?_, ?_⟩
      · simp only [writeAccounts, tryIntoU16, hplace, ↓reduceDIte,
          Except.toOption, okOr, bind, Except.bind, hslot,
          decide_mem_eq_isSigner signers hplace, hsigner, hnext, hafter]
      · intro other hother
        rw [hbefore other (by omega),
          Pod.get_write_other hnext (by omega)]
      · intro offset other hother
        cases offset with
        | zero =>
            obtain rfl : account = other := by simpa using hother
            refine ⟨_, ?_, toMeta_assign slot account (isSigner signers index)⟩
            rw [Nat.add_zero, hbefore index (Nat.lt_succ_self index)]
            exact Pod.get_write_same hnext
        | succ offset =>
            obtain ⟨written, hget, hmeta⟩ := hwritten offset other hother
            refine ⟨written, ?_, ?_⟩
            · rw [show index + (offset + 1) = index + 1 + offset by omega]
              exact hget
            · rw [show index + (offset + 1) = index + 1 + offset by omega]
              exact hmeta

/-! ## Writing a buffer -/

/-- The header of a new buffer. -/
def newHeader (executor : Pubkey) (walletBump : Byte)
    (rentReceiver programId : Pubkey) (numAccounts dataLen : U16) :
    InstructionHeader :=
  { InstructionHeader.pod.decode (List.replicate InstructionHeader.pod.size 0) with
    walletBump, executor, programId, numAccounts, dataLen, rentReceiver }

def instructionOf (programId : Pubkey) (data : List Byte)
    (accounts : List AccountInfo) (signers : List U16) : Instruction where
  programId := programId
  accounts := accounts.mapIdx (metaOf signers)
  data := data

section Write

variable {discriminator : Vector Byte 8}
  {createExecutorWalletPda : Pubkey → Byte → Pubkey} {executor : Pubkey}
  {walletBump : Byte} {rentReceiver programId : Pubkey} {data : List Byte}
  {accounts : List AccountInfo} {signers : List U16} {numAccounts dataLen : U16}

theorem emptyBuffer_eq (numAccounts dataLen : U16) :
    emptyBuffer numAccounts dataLen =
      List.replicate 8 0 ++ (List.replicate InstructionHeader.pod.size 0 ++
        (List.replicate dataLen 0 ++
          List.replicate (numAccounts * InstructionAccount.pod.size) 0)) := by
  rw [emptyBuffer, InstructionHeader.initSpace, List.replicate_append_replicate,
    List.replicate_append_replicate, List.replicate_append_replicate]
  congr 1
  omega

theorem loadInit_emptyBuffer :
    loadInit (emptyBuffer numAccounts dataLen) = .ok
      (InstructionHeader.pod.decode
        (List.replicate InstructionHeader.pod.size 0)) := by
  rw [emptyBuffer_eq]
  simp only [loadInit, headerOf, splitAt_append List.length_replicate, bind,
    Except.bind, ensure_of]

theorem initHeader_emptyBuffer (hdata : data.length = dataLen)
    (haccounts : accounts.length = numAccounts) :
    initHeader discriminator executor walletBump rentReceiver programId data
      accounts (emptyBuffer numAccounts dataLen) =
      .ok (layout discriminator
        (newHeader executor walletBump rentReceiver programId numAccounts dataLen)
        (List.replicate dataLen 0)
        (List.replicate (numAccounts * InstructionAccount.pod.size) 0)) := by
  have htryData : tryIntoU16 data.length = .ok dataLen := by
    simp only [hdata, tryIntoU16, dataLen.isLt, ↓reduceDIte]
  have htryAccounts : tryIntoU16 accounts.length = .ok numAccounts := by
    simp only [haccounts, tryIntoU16, numAccounts.isLt, ↓reduceDIte]
  simp only [initHeader, htryData, htryAccounts, loadInit_emptyBuffer, bind,
    Except.bind, writeHeader, layout, newHeader]
  rw [emptyBuffer_eq, List.take_left' List.length_replicate,
    List.drop_left' List.length_replicate, ← List.drop_drop,
    List.drop_left' List.length_replicate, List.drop_left' List.length_replicate]

theorem initRemaining_layout {header : InstructionHeader}
    {before area after : List Byte} (hbefore : before.length = header.dataLen)
    (hdata : data.length = header.dataLen)
    (hwrite : writeAccounts (header.wallet createExecutorWalletPda) signers 0
      accounts area = .ok after) :
    initRemaining discriminator createExecutorWalletPda data accounts signers
      (layout discriminator header before area) =
      .ok (layout discriminator header data after) := by
  simp only [initRemaining, load_layout, splitAt_layout, splitAt_header, bind,
    Except.bind, InstructionHeader.pod.decode_encode, splitAt_append hbefore,
    ensure_of (hbefore.trans hdata.symm), hwrite]
  rfl

variable (discriminator createExecutorWalletPda rentReceiver programId) in
/-- What the written buffer holds. -/
theorem written_layout (hdata : data.length = dataLen)
    (haccounts : accounts.length = numAccounts)
    (hsigners : SignersAllowed (createExecutorWalletPda executor walletBump)
      signers accounts) :
    ∃ area, area.length = numAccounts * InstructionAccount.pod.size ∧
      (∀ index account, accounts[index]? = some account →
        ∃ written, InstructionAccount.pod.get area index = some written ∧
          written.toMeta = metaOf signers index account) ∧
      initBuffer discriminator createExecutorWalletPda executor walletBump
        rentReceiver programId data accounts signers
        (emptyBuffer numAccounts dataLen) =
        .ok (layout discriminator (newHeader executor walletBump rentReceiver
          programId numAccounts dataLen) data area) := by
  obtain ⟨area, harea, hlength, -, hwritten⟩ :=
    writeAccounts_spec (createExecutorWalletPda executor walletBump) signers 0
      accounts (List.replicate (numAccounts * InstructionAccount.pod.size) 0)
      (by omega) (by rw [List.length_replicate, haccounts, Nat.zero_add])
      (by
        intro offset account haccount hsigns
        rw [isSigner, List.any_eq_true] at hsigns
        obtain ⟨signer, hmem, hsame⟩ := hsigns
        apply hsigners signer hmem account
        rw [of_decide_eq_true hsame, Nat.zero_add]
        exact haccount)
  refine ⟨area, hlength.trans List.length_replicate, ?_, ?_⟩
  · intro index account haccount
    simpa only [Nat.zero_add] using hwritten index account haccount
  · rw [initBuffer, initHeader_emptyBuffer hdata haccounts]
    exact initRemaining_layout List.length_replicate hdata harea

variable (createExecutorWalletPda data) in
/-- The accounts that are read back are the ones that were written. -/
theorem toInstruction_written {header : InstructionHeader} {area : List Byte}
    (hprogram : header.programId = programId)
    (hcount : accounts.length = header.numAccounts)
    (hwritten : ∀ index account, accounts[index]? = some account →
      ∃ written, InstructionAccount.pod.get area index = some written ∧
        written.toMeta = metaOf signers index account) :
    InstructionRef.toInstruction createExecutorWalletPda
      { header, data, accounts := area } false =
      .ok (instructionOf programId data accounts signers) := by
  have hall : ∀ index ∈ List.range header.numAccounts, ∃ value,
      okOr (InstructionAccount.pod.get area index)
        (TimelockError.panic .expectFailed) = .ok value ∧
      some value.toMeta = (accounts.mapIdx (metaOf signers))[index]? := by
    intro index hindex
    have hlt : index < accounts.length := by
      rw [hcount]
      exact List.mem_range.mp hindex
    obtain ⟨written, hget, hmeta⟩ :=
      hwritten index accounts[index] (List.getElem?_eq_getElem hlt)
    refine ⟨written, okOr_eq_ok.mpr hget, ?_⟩
    rw [List.getElem?_mapIdx, List.getElem?_eq_getElem hlt, hmeta]
    rfl
  obtain ⟨values, hvalues, hmetas⟩ := exists_mapM_eq_ok hall
  have hlength : values.length = accounts.length := by
    have := congrArg List.length hmetas
    rwa [List.length_map, List.length_map, List.length_range, ← hcount] at this
  have hlist : values.map InstructionAccount.toMeta =
      accounts.mapIdx (metaOf signers) := by
    apply List.ext_getElem?
    intro index
    by_cases hlt : index < accounts.length
    · have hat := congrArg (fun metas => metas[index]?) hmetas
      simp only [List.getElem?_map, List.getElem?_range (hcount ▸ hlt),
        Option.map_some] at hat
      rw [List.getElem?_map]
      rw [List.getElem?_eq_getElem (by omega)] at hat ⊢
      simpa using hat
    · rw [List.getElem?_eq_none (by rw [List.length_map]; omega),
        List.getElem?_eq_none (by rw [List.length_mapIdx]; omega)]
  simp only [InstructionRef.toInstruction, InstructionRef.accountList, hvalues,
    bind, Except.bind, hlist, hprogram, instructionOf, Bool.false_eq_true,
    ↓reduceIte]

/-- Clients read back the instruction that was written. -/
theorem client_roundTrip (hdata : data.length = dataLen)
    (haccounts : accounts.length = numAccounts)
    (hsigners : SignersAllowed (createExecutorWalletPda executor walletBump)
      signers accounts) :
    ∃ bytes parts, initBuffer discriminator createExecutorWalletPda executor
        walletBump rentReceiver programId data accounts signers
        (emptyBuffer numAccounts dataLen) = .ok bytes ∧
      tryDeserialize discriminator bytes = .ok parts ∧
      parts.toInstruction createExecutorWalletPda false =
        .ok (instructionOf programId data accounts signers) := by
  obtain ⟨area, -, hwritten, hbytes⟩ := written_layout discriminator
    createExecutorWalletPda rentReceiver programId hdata haccounts hsigners
  exact ⟨_, _, hbytes, tryDeserialize_layout hdata,
    toInstruction_written createExecutorWalletPda data rfl haccounts hwritten⟩

theorem loadAndInitInstruction_eq_ok {before bytes : List Byte}
    {parts : InstructionRef}
    (hbytes : initBuffer discriminator createExecutorWalletPda executor walletBump
      rentReceiver programId data accounts signers before = .ok bytes)
    (hload : loadInstruction discriminator bytes = .ok parts) :
    loadAndInitInstruction discriminator createExecutorWalletPda executor walletBump
      rentReceiver programId data accounts signers before = .ok (bytes, parts) := by
  rw [loadAndInitInstruction, hbytes]
  simp only [bind, Except.bind, hload]

/-- The program refuses to load what it has just written, unless there are no
accounts. -/
theorem loadAndInitInstruction_eq (hdata : data.length = dataLen)
    (haccounts : accounts.length = numAccounts)
    (hsigners : SignersAllowed (createExecutorWalletPda executor walletBump)
      signers accounts) (hsome : accounts ≠ []) :
    loadAndInitInstruction discriminator createExecutorWalletPda executor
      walletBump rentReceiver programId data accounts signers
      (emptyBuffer numAccounts dataLen) = .error (.core .internal) := by
  obtain ⟨area, hlength, -, hbytes⟩ := written_layout discriminator
    createExecutorWalletPda rentReceiver programId hdata haccounts hsigners
  have hpos : 0 < accounts.length := List.length_pos_iff.mpr hsome
  have hsize : InstructionAccount.pod.size = 33 := rfl
  have hne : area.length ≠ numAccounts := by
    rw [hlength, hsize, ← haccounts]
    omega
  have hrefused : loadInstruction discriminator (layout discriminator (newHeader
      executor walletBump rentReceiver programId numAccounts dataLen) data area) =
      .error (.core .internal) := by
    rw [loadInstruction_layout hdata]
    exact if_neg hne
  rw [loadAndInitInstruction, hbytes]
  simp only [bind, Except.bind, hrefused]

end Write

/-! ## The round trip -/

/-- The program and the clients both read back the instruction that was
written to a new buffer. -/
def RoundTrips (discriminator : Vector Byte 8)
    (createExecutorWalletPda : Pubkey → Byte → Pubkey) (executor : Pubkey)
    (walletBump : Byte) (rentReceiver programId : Pubkey) (data : List Byte)
    (accounts : List AccountInfo) (signers : List U16)
    (numAccounts dataLen : U16) : Prop :=
  ∃ bytes parts, loadAndInitInstruction discriminator createExecutorWalletPda
      executor walletBump rentReceiver programId data accounts signers
      (emptyBuffer numAccounts dataLen) = .ok (bytes, parts) ∧
    (∃ loaded, loadInstruction discriminator bytes = .ok loaded ∧
      loaded.toInstruction createExecutorWalletPda false =
        .ok (instructionOf programId data accounts signers)) ∧
    ∃ buffer, tryDeserialize discriminator bytes = .ok buffer ∧
      buffer.toInstruction createExecutorWalletPda false =
        .ok (instructionOf programId data accounts signers)

/-- The instruction comes back exactly when it has no accounts. -/
theorem roundTrips_iff_no_accounts (discriminator : Vector Byte 8)
    (createExecutorWalletPda : Pubkey → Byte → Pubkey) (executor : Pubkey)
    (walletBump : Byte) (rentReceiver programId : Pubkey) (data : List Byte)
    (accounts : List AccountInfo) (signers : List U16)
    (numAccounts dataLen : U16) (hdata : data.length = dataLen)
    (haccounts : accounts.length = numAccounts)
    (hsigners : SignersAllowed (createExecutorWalletPda executor walletBump)
      signers accounts) :
    RoundTrips discriminator createExecutorWalletPda executor walletBump
      rentReceiver programId data accounts signers numAccounts dataLen ↔
      accounts = [] := by
  constructor
  · rintro ⟨bytes, parts, hinit, -⟩
    by_contra hsome
    rw [loadAndInitInstruction_eq hdata haccounts hsigners hsome] at hinit
    exact absurd hinit (by simp)
  · intro hnone
    obtain ⟨area, hlength, hwritten, hbytes⟩ := written_layout discriminator
      createExecutorWalletPda rentReceiver programId hdata haccounts hsigners
    have hzero : numAccounts.val = 0 := by
      rw [← haccounts, hnone, List.length_nil]
    have hload : loadInstruction discriminator (layout discriminator (newHeader
        executor walletBump rentReceiver programId numAccounts dataLen) data area) =
        .ok { header := newHeader executor walletBump rentReceiver programId
                numAccounts dataLen, data, accounts := area } := by
      rw [loadInstruction_layout hdata, if_pos]
      rw [hlength, hzero, Nat.zero_mul]
      exact hzero.symm
    have hread : InstructionRef.toInstruction createExecutorWalletPda
        { header := newHeader executor walletBump rentReceiver programId
            numAccounts dataLen, data, accounts := area } false =
        .ok (instructionOf programId data accounts signers) :=
      toInstruction_written createExecutorWalletPda data rfl haccounts hwritten
    exact ⟨_, _, loadAndInitInstruction_eq_ok hbytes hload, ⟨_, hload, hread⟩, _,
      tryDeserialize_layout hdata, hread⟩

theorem roundTrips_of_empty_instruction :
    RoundTrips (Vector.replicate 8 1) (fun executor _ => executor) 5 255 6 7
      [1, 2, 3] [] [0] 0 3 :=
  (roundTrips_iff_no_accounts _ _ _ _ _ _ _ [] _ _ _ rfl rfl
    (by intro signer _ account hnone; exact absurd hnone (by simp))).mpr rfl

/-- One account that is no signer. -/
theorem not_roundTrips_one_account :
    ¬RoundTrips (Vector.replicate 8 1) (fun executor _ => executor) 5 255 6 7
      [1, 2, 3] [{ key := 9, isWritable := true }] [] 1 3 := by
  rintro ⟨bytes, parts, hinit, -⟩
  rw [loadAndInitInstruction_eq rfl rfl
    (by intro signer hmem; exact absurd hmem (by simp)) (by simp)] at hinit
  exact absurd hinit (by simp)

end Gmsol.Timelock
