import Gmsol.Library.Bitmap
import Gmsol.Library.Layout
import Gmsol.Store.Roles

/-!
# Instruction buffers

A buffer account holds a discriminator, a header, the data of an instruction
and the list of its accounts, one after the other.  The program writes a buffer
once and reads it back when it executes the instruction; clients read the same
bytes with a reader of their own.
-/

namespace Gmsol.Timelock

open Gmsol.Container Gmsol.Fallible Gmsol.FixedArray Gmsol.Layout Gmsol.Store

inductive AnchorError
  | accountDiscriminatorAlreadySet
  | accountDiscriminatorNotFound
  | accountDiscriminatorMismatch
  | accountDidNotDeserialize
  | accountNotInitialized
  | accountAlreadyInUse
  | accountNotMutable
  | constraintHasOne
  | constraintSeeds
  | constraintRaw
deriving DecidableEq, Repr

inductive TimelockError
  | core (error : CoreError)
  | anchor (error : AnchorError)
  | role (error : RoleError)
  | conversion
  | panic (panic : Panic)
deriving DecidableEq

abbrev Result (α : Type) := Except TimelockError α

/-! ## Fields -/

abbrev U16 : Type := Fin (256 ^ 2)

def signBit : ℕ := 2 ^ 63

/-- A time in seconds. -/
abbrev I64 : Type := Pod.Signed signBit

def podBitmap : Pod (Bitmap 8) :=
  Pod.byte.map (fun bitmap => Fin.ofNat 256 bitmap.toNat)
    (fun value => BitVec.ofNat 8 value) (by
      intro bitmap
      apply BitVec.eq_of_toNat_eq
      have := bitmap.isLt
      simp only [BitVec.toNat_ofNat, Fin.ofNat]
      omega)

def podI64 : Pod I64 := Pod.signed 8 signBit (by norm_num [signBit])

def podPubkey : Pod Pubkey := Pod.bigEndian 32

def podU16 : Pod U16 := Pod.unsigned 2

def maxFlags : ℕ := 8

inductive InstructionFlag
  | approved
deriving DecidableEq

def InstructionFlag.toIndex : InstructionFlag → ℕ
  | .approved => 0

inductive InstructionAccountFlag
  | signer
  | writable
deriving DecidableEq

def InstructionAccountFlag.toIndex : InstructionAccountFlag → ℕ
  | .signer => 0
  | .writable => 1

/-! ## Records -/

structure InstructionHeader where
  version : Byte
  flags : Bitmap maxFlags
  walletBump : Byte
  padding0 : Vector Byte 5
  approvedAt : I64
  executor : Pubkey
  programId : Pubkey
  numAccounts : U16
  dataLen : U16
  padding1 : Vector Byte 12
  rentReceiver : Pubkey
  approver : Pubkey
  reserved : Vector Byte 64

structure InstructionAccount where
  flags : Bitmap maxFlags
  pubkey : Pubkey

def InstructionAccount.pod : Pod InstructionAccount :=
  (podBitmap.pair podPubkey).map (fun account => (account.flags, account.pubkey))
    (fun fields => { flags := fields.1, pubkey := fields.2 }) fun _ => rfl

/-- An account that is passed to an instruction of the program. -/
structure AccountInfo where
  key : Pubkey
  isWritable : Bool
deriving DecidableEq, Repr

structure AccountMeta where
  pubkey : Pubkey
  isSigner : Bool
  isWritable : Bool
deriving DecidableEq, Repr

structure Instruction where
  programId : Pubkey
  accounts : List AccountMeta
  data : List Byte
deriving DecidableEq

def InstructionAccount.toMeta (account : InstructionAccount) : AccountMeta where
  pubkey := account.pubkey
  isSigner := account.flags.get InstructionAccountFlag.signer.toIndex
  isWritable := account.flags.get InstructionAccountFlag.writable.toIndex

namespace InstructionHeader

def pod : Pod InstructionHeader :=
  (Pod.byte.pair <| podBitmap.pair <| Pod.byte.pair <| (Pod.reserved 5).pair <|
    podI64.pair <| podPubkey.pair <| podPubkey.pair <| podU16.pair <|
    podU16.pair <| (Pod.reserved 12).pair <| podPubkey.pair <|
    podPubkey.pair <| Pod.reserved 64).map
    (fun header => (header.version, header.flags, header.walletBump,
      header.padding0, header.approvedAt, header.executor, header.programId,
      header.numAccounts, header.dataLen, header.padding1, header.rentReceiver,
      header.approver, header.reserved))
    (fun (version, flags, walletBump, padding0, approvedAt, executor, programId,
        numAccounts, dataLen, padding1, rentReceiver, approver, reserved) =>
      { version, flags, walletBump, padding0, approvedAt, executor, programId,
        numAccounts, dataLen, padding1, rentReceiver, approver, reserved })
    fun _ => rfl

example : pod.size = 224 ∧ InstructionAccount.pod.size = 33 := ⟨rfl, rfl⟩

def initSpace (numAccounts dataLen : U16) : ℕ :=
  pod.size + dataLen + numAccounts * InstructionAccount.pod.size

def isApproved (header : InstructionHeader) : Bool :=
  header.flags.get InstructionFlag.approved.toIndex

def defaultPubkey : Pubkey := 0

/-- Approves the instruction at the time of the clock. -/
def approve (header : InstructionHeader) (now : I64) (approver : Pubkey) :
    Result InstructionHeader := do
  ensure (header.isApproved = false) (.core .preconditionsAreNotMet)
  ensure (header.approver = defaultPubkey) (.core .preconditionsAreNotMet)
  ensure (approver ≠ defaultPubkey) (.core .invalidArgument)
  .ok { header with
    flags := header.flags.set InstructionFlag.approved.toIndex true
    approvedAt := now
    approver }

def approvedAt? (header : InstructionHeader) : Option I64 :=
  if header.isApproved then some header.approvedAt else none

def apporver (header : InstructionHeader) : Option Pubkey :=
  if header.approver = defaultPubkey then none else some header.approver

def maxI64 : ℤ := signBit - 1

def saturatingAddUnsigned (time : I64) (delay : ℕ) : ℤ :=
  min (time + delay) maxI64

def isExecutable (header : InstructionHeader) (now : I64) (delay : ℕ) : Bool :=
  match header.approvedAt? with
  | none => false
  | some approvedAt => saturatingAddUnsigned approvedAt delay ≤ now.val

def wallet (createExecutorWalletPda : Pubkey → Byte → Pubkey)
    (header : InstructionHeader) : Pubkey :=
  createExecutorWalletPda header.executor header.walletBump

end InstructionHeader

/-- A new buffer account of the size that the program asks for. -/
def emptyBuffer (numAccounts dataLen : U16) : List Byte :=
  List.replicate (8 + InstructionHeader.initSpace numAccounts dataLen) 0

/-! ## Reading -/

/-- The parts of a buffer, as the program or a client reads them. -/
structure InstructionRef where
  header : InstructionHeader
  data : List Byte
  accounts : List Byte

def splitAt (bytes : List Byte) (middle : ℕ) :
    Result (List Byte × List Byte) :=
  if middle ≤ bytes.length then .ok (bytes.take middle, bytes.drop middle)
  else .error (.panic .indexOutOfBounds)

namespace InstructionRef

def accountList (parts : InstructionRef) : Result (List InstructionAccount) :=
  (List.range parts.header.numAccounts).mapM fun index =>
    okOr (InstructionAccount.pod.get parts.accounts index) (.panic .expectFailed)

def toInstruction (createExecutorWalletPda : Pubkey → Byte → Pubkey)
    (parts : InstructionRef) (markExecutorWalletAsSigner : Bool) :
    Result Instruction := do
  let accounts ← parts.accountList
  let metas := accounts.map InstructionAccount.toMeta
  let wallet := parts.header.wallet createExecutorWalletPda
  .ok {
    programId := parts.header.programId
    accounts := if markExecutorWalletAsSigner then
        metas.map fun account =>
          if account.pubkey = wallet then { account with isSigner := true }
          else account
      else metas
    data := parts.data }

end InstructionRef

section Loader

variable (discriminator : Vector Byte 8)
  (createExecutorWalletPda : Pubkey → Byte → Pubkey)

/-- The header behind the discriminator. -/
def headerOf (bytes : List Byte) : Result InstructionHeader := do
  let (_, bytes) ← splitAt bytes 8
  let (bytes, _) ← splitAt bytes InstructionHeader.pod.size
  .ok (InstructionHeader.pod.decode bytes)

/-- Writes the header of a buffer that is long enough to hold one. -/
def writeHeader (bytes : List Byte) (header : InstructionHeader) : List Byte :=
  bytes.take 8 ++ (InstructionHeader.pod.encode header ++
    bytes.drop (8 + InstructionHeader.pod.size))

def checkDiscriminator (bytes : List Byte) : Result Unit := do
  ensure (8 ≤ bytes.length) (.anchor .accountDiscriminatorNotFound)
  ensure (bytes.take 8 = discriminator.toList)
    (.anchor .accountDiscriminatorMismatch)

/-- The account as it is loaded once it was initialized. -/
def load (bytes : List Byte) : Result InstructionHeader := do
  checkDiscriminator discriminator bytes
  headerOf bytes

def loadInit (bytes : List Byte) : Result InstructionHeader := do
  let (given, _) ← splitAt bytes 8
  ensure (given = List.replicate 8 0) (.anchor .accountDiscriminatorAlreadySet)
  headerOf bytes

def loadInstruction (bytes : List Byte) : Result InstructionRef := do
  let _ ← load discriminator bytes
  let (_, remaining) ← splitAt bytes 8
  let (header, remaining) ← splitAt remaining InstructionHeader.pod.size
  let header := InstructionHeader.pod.decode header
  let (data, accounts) ← splitAt remaining header.dataLen
  ensure (accounts.length = header.numAccounts) (.core .internal)
  .ok { header, data, accounts }

/-- The reader of the clients. -/
def tryDeserialize (bytes : List Byte) : Result InstructionRef := do
  checkDiscriminator discriminator bytes
  ensure (8 + InstructionHeader.pod.size ≤ bytes.length)
    (.anchor .accountDidNotDeserialize)
  let header ← headerOf bytes
  let (_, data) ← splitAt bytes 8
  let (_, remaining) ← splitAt data InstructionHeader.pod.size
  let (data, accounts) ← splitAt remaining header.dataLen
  .ok { header, data, accounts }

/-! ## Writing -/

def tryIntoU16 (number : ℕ) : Result U16 :=
  if h : number < 256 ^ 2 then .ok ⟨number, h⟩ else .error .conversion

def initHeader (executor : Pubkey) (walletBump : Byte)
    (rentReceiver programId : Pubkey) (instructionData : List Byte)
    (instructionAccounts : List AccountInfo) (bytes : List Byte) :
    Result (List Byte) := do
  let dataLen ← tryIntoU16 instructionData.length
  let numAccounts ← tryIntoU16 instructionAccounts.length
  let header ← loadInit bytes
  let bytes := writeHeader bytes
    { header with walletBump, executor, programId, numAccounts, dataLen,
                  rentReceiver }
  .ok (discriminator.toList ++ bytes.drop 8)

/-- Only the wallet of the executor may be a signer. -/
def requireSigner (wallet : Pubkey) (account : AccountInfo) (isSigner : Bool) :
    Result Unit :=
  if isSigner then ensure (wallet = account.key) (.core .invalidArgument)
  else .ok ()

def InstructionAccount.assign (slot : InstructionAccount) (account : AccountInfo)
    (isSigner : Bool) : InstructionAccount where
  pubkey := account.key
  flags := (slot.flags.set InstructionAccountFlag.signer.toIndex isSigner).set
    InstructionAccountFlag.writable.toIndex account.isWritable

/-- Writes the accounts from an index on. -/
def writeAccounts (wallet : Pubkey) (signers : List U16) :
    ℕ → List AccountInfo → List Byte → Result (List Byte)
  | _, [], area => .ok area
  | index, account :: rest, area => do
    let place ← okOr (tryIntoU16 index).toOption (.core .invalidArgument)
    let slot ← okOr (InstructionAccount.pod.get area index)
      (.core .invalidArgument)
    let isSigner := decide (place ∈ signers)
    requireSigner wallet account isSigner
    let area ← okOr (InstructionAccount.pod.write area index
      (slot.assign account isSigner)) (.core .invalidArgument)
    writeAccounts wallet signers (index + 1) rest area

def initRemaining (instructionData : List Byte)
    (instructionAccounts : List AccountInfo) (signers : List U16)
    (bytes : List Byte) : Result (List Byte) := do
  let _ ← load discriminator bytes
  let (disc, remaining) ← splitAt bytes 8
  let (headerBytes, remaining) ← splitAt remaining InstructionHeader.pod.size
  let header := InstructionHeader.pod.decode headerBytes
  let (data, accounts) ← splitAt remaining header.dataLen
  ensure (data.length = instructionData.length) (.panic .expectFailed)
  let accounts ← writeAccounts (header.wallet createExecutorWalletPda) signers 0
    instructionAccounts accounts
  .ok (disc ++ (headerBytes ++ (instructionData ++ accounts)))

def initBuffer (executor : Pubkey) (walletBump : Byte)
    (rentReceiver programId : Pubkey) (instructionData : List Byte)
    (instructionAccounts : List AccountInfo) (signers : List U16)
    (bytes : List Byte) : Result (List Byte) := do
  let bytes ← initHeader discriminator executor walletBump rentReceiver programId
    instructionData instructionAccounts bytes
  initRemaining discriminator createExecutorWalletPda instructionData
    instructionAccounts signers bytes

/-- The bytes of the initialized buffer, and what is read back from them. -/
def loadAndInitInstruction (executor : Pubkey) (walletBump : Byte)
    (rentReceiver programId : Pubkey) (instructionData : List Byte)
    (instructionAccounts : List AccountInfo) (signers : List U16)
    (bytes : List Byte) : Result (List Byte × InstructionRef) := do
  let bytes ← initBuffer discriminator createExecutorWalletPda executor walletBump
    rentReceiver programId instructionData instructionAccounts signers bytes
  let parts ← loadInstruction discriminator bytes
  .ok (bytes, parts)

end Loader

end Gmsol.Timelock
