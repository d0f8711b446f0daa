import Gmsol.Library.Fallible

/-!
# Transaction builders

A builder collects the instructions of one transaction: those set beforehand,
and the main instruction, which exists once its data is given.  Merging moves
all that one builder has collected into another.
-/

namespace Gmsol.Bundle

def maxU32 : ℕ := 2 ^ 32 - 1

def maxU64 : ℕ := 2 ^ 64 - 1

structure AccountMeta (Pubkey : Type) where
  pubkey : Pubkey
  isSigner : Bool
  isWritable : Bool
  deriving DecidableEq, Repr

structure Instruction (Pubkey : Type) where
  programId : Pubkey
  accounts : List (AccountMeta Pubkey)
  data : List UInt8
  deriving DecidableEq

/-! ## The size of a transaction -/

section TransactionSize

variable {Pubkey : Type} [DecidableEq Pubkey]

def sizeOfCompressedU16 (size : ℕ) : ℕ :=
  if size ≤ 127 then 1 else if size ≤ 16383 then 2 else 3

def instructionSize (ix : Instruction Pubkey) : ℕ :=
  1 + sizeOfCompressedU16 ix.accounts.length + ix.accounts.length +
    sizeOfCompressedU16 ix.data.length + ix.data.length

/-- The estimated size of the transaction of some instructions.  Accounts in the
lookup tables are not listed, unless they sign or are programs. -/
def transactionSize (ixs : List (Instruction Pubkey)) (isVersioned : Bool)
    (lookupTable : Option (Finset Pubkey)) (lookupTableAddresses : ℕ) : ℕ :=
  let programs := (ixs.map Instruction.programId).toFinset
  let named := (ixs.flatMap fun ix => ix.accounts.map AccountMeta.pubkey).toFinset
  let signers := (ixs.flatMap fun ix =>
    (ix.accounts.filter AccountMeta.isSigner).map AccountMeta.pubkey).toFinset
  let all := programs ∪ named
  let accounts := match lookupTable with
    | some table => all \ table ∪ signers ∪ programs
    | none => all
  let size := sizeOfCompressedU16 signers.card + signers.card * 64 + 3 +
    sizeOfCompressedU16 accounts.card + accounts.card * 32 + 32 +
    sizeOfCompressedU16 ixs.length + (ixs.map instructionSize).sum +
    (all.card - accounts.card)
  if isVersioned then
    size + 1 + sizeOfCompressedU16 0 + lookupTableAddresses * (32 + 2)
  else size

end TransactionSize

/-! ## The compute budget -/

structure ComputeBudget where
  minPriorityLamports : Option ℕ
  limitUnits : ℕ
  priceMicroLamports : ℕ
  deriving DecidableEq, Repr

/-- The instructions of the compute budget program. -/
structure ComputeBudgetInstruction (Pubkey : Type) where
  setComputeUnitLimit : ℕ → Instruction Pubkey
  setComputeUnitPrice : ℕ → Instruction Pubkey

namespace ComputeBudget

def microLamports : ℕ := 10 ^ 6

def maxComputeUnit : ℕ := 1400000

def default : ComputeBudget := ⟨some 10000, 200000, 50000⟩

def budgetUnits (budget : ComputeBudget) : ℕ := min budget.limitUnits maxComputeUnit

def minPrice (budget : ComputeBudget) : Option ℕ := do
  let lamports ← budget.minPriorityLamports
  if lamports * microLamports ≤ maxU64 ∧ budget.budgetUnits ≠ 0 then
    some (lamports * microLamports / budget.budgetUnits)
  else none

def budgetPrice (budget : ComputeBudget) (price : Option ℕ) : ℕ :=
  let price := price.getD budget.priceMicroLamports
  match budget.minPrice with
  | some least => max price least
  | none => price

def computeBudgetInstructions {Pubkey : Type}
    (program : ComputeBudgetInstruction Pubkey) (budget : ComputeBudget)
    (price : Option ℕ) : List (Instruction Pubkey) :=
  [program.setComputeUnitLimit budget.budgetUnits,
    program.setComputeUnitPrice (budget.budgetPrice price)]

def maxLamports : Option ℕ → Option ℕ → Option ℕ
  | some lamports, none => some lamports
  | none, some lamports => some lamports
  | some left, some right => some (max left right)
  | none, none => none

/-- The program stops where the limits do not add up in 32 bits. -/
def addAssign (left right : ComputeBudget) : Option ComputeBudget :=
  if left.limitUnits + right.limitUnits ≤ maxU32 then
    some ⟨maxLamports left.minPriorityLamports right.minPriorityLamports,
      left.limitUnits + right.limitUnits,
      max left.priceMicroLamports right.priceMicroLamports⟩
  else none

end ComputeBudget

/-! ## Builders -/

inductive BuildError
  | mergeTransaction (reason : String)
  | addTransaction (reason : String)
  deriving DecidableEq, Repr

structure TransactionBuilder (Pubkey Signer OwnedSigner : Type) where
  programId : Pubkey
  payer : Pubkey
  signers : List Signer
  ownedSigners : List OwnedSigner
  preInstructions : List (Instruction Pubkey)
  accounts : List (AccountMeta Pubkey)
  instructionData : Option (List UInt8)
  computeBudget : ComputeBudget
  luts : Finmap fun _ : Pubkey => List Pubkey

namespace TransactionBuilder

variable {Pubkey Signer OwnedSigner : Type}

/-- A new builder of a program. -/
def new (programId payer : Pubkey) :
    TransactionBuilder Pubkey Signer OwnedSigner where
  programId := programId
  payer := payer
  signers := []
  ownedSigners := []
  preInstructions := []
  accounts := []
  instructionData := none
  computeBudget := .default
  luts := ∅

/-- The main instruction, and the builder it is taken out of. -/
def takeInstruction (builder : TransactionBuilder Pubkey Signer OwnedSigner) :
    Option (Instruction Pubkey) × TransactionBuilder Pubkey Signer OwnedSigner :=
  match builder.instructionData with
  | some data =>
      (some ⟨builder.programId, builder.accounts, data⟩,
        { builder with instructionData := none, accounts := [] })
  | none => (none, builder)

def getInstruction (builder : TransactionBuilder Pubkey Signer OwnedSigner) :
    Option (Instruction Pubkey) :=
  builder.instructionData.map fun data =>
    ⟨builder.programId, builder.accounts, data⟩

def instructionsWithOptions (program : ComputeBudgetInstruction Pubkey)
    (builder : TransactionBuilder Pubkey Signer OwnedSigner)
    (withoutComputeBudget : Bool) (price : Option ℕ) : List (Instruction Pubkey) :=
  (if withoutComputeBudget then []
    else builder.computeBudget.computeBudgetInstructions program price) ++
    builder.preInstructions ++ builder.getInstruction.toList

def pushTaken (preInstructions : List (Instruction Pubkey)) :
    Option (Instruction Pubkey) → List (Instruction Pubkey)
  | some ix => preInstructions ++ [ix]
  | none => preInstructions

variable [DecidableEq Pubkey]

def getCompleteLookupTable
    (builder : TransactionBuilder Pubkey Signer OwnedSigner) : Finset Pubkey :=
  builder.luts.keys.biUnion fun key => ((builder.luts.lookup key).getD []).toFinset

/-- Both builders after the merge, and its result. -/
def tryMerge (builder other : TransactionBuilder Pubkey Signer OwnedSigner) :
    Option (TransactionBuilder Pubkey Signer OwnedSigner ×
      TransactionBuilder Pubkey Signer OwnedSigner × Except BuildError Unit) :=
  if builder.payer ≠ other.payer then
    some (builder, other, .error (.mergeTransaction "payer mismatched"))
  else
    let (main, builder) := builder.takeInstruction
    let preInstructions := pushTaken builder.preInstructions main
    let preInstructions := preInstructions ++ other.preInstructions
    let (main, other) := { other with preInstructions := [] }.takeInstruction
    let preInstructions := pushTaken preInstructions main
    match builder.computeBudget.addAssign other.computeBudget with
    | none => none
    | some computeBudget =>
        some ({ builder with
            preInstructions
            signers := builder.signers ++ other.signers
            ownedSigners := builder.ownedSigners ++ other.ownedSigners
            computeBudget
            luts := other.luts ∪ builder.luts },
          { other with
            signers := []
            ownedSigners := []
            computeBudget := .default
            luts := ∅ }, .ok ())

end TransactionBuilder

end Gmsol.Bundle
