import Gmsol.Bundle.Transaction

/-!
# Bundles

A bundle is a list of builders, one for each transaction.  A pushed builder is
merged into the last one or becomes a new one; a builder that cannot be pushed
comes back to the caller.  Over every run of pushes the bundle has exactly the
instructions of what was pushed, in order.
-/

namespace Gmsol.Bundle

def transactionSizeLimit : ℕ := 1232

structure BundleOptions where
  forceOneTransaction : Bool
  maxPacketSize : Option ℕ
  maxInstructionsForOneTx : ℕ
  deriving DecidableEq, Repr

def BundleOptions.default : BundleOptions := ⟨false, none, 14⟩

structure BundleBuilder (Pubkey Signer OwnedSigner : Type) where
  builders : List (TransactionBuilder Pubkey Signer OwnedSigner)
  options : BundleOptions

/-- The answer to a push: nothing, or the builder that was refused. -/
abbrev Pushed (Pubkey Signer OwnedSigner : Type) : Type :=
  Except (TransactionBuilder Pubkey Signer OwnedSigner × BuildError) Unit

namespace BundleBuilder

variable {Pubkey Signer OwnedSigner : Type} [DecidableEq Pubkey]

def fromOptions (options : BundleOptions) :
    BundleBuilder Pubkey Signer OwnedSigner :=
  ⟨[], options⟩

def setOptions (bundle : BundleBuilder Pubkey Signer OwnedSigner)
    (options : BundleOptions) : BundleBuilder Pubkey Signer OwnedSigner :=
  { bundle with options }

def packetSize (bundle : BundleBuilder Pubkey Signer OwnedSigner) : ℕ :=
  match bundle.options.maxPacketSize with
  | some size => min size transactionSizeLimit
  | none => transactionSizeLimit

def tooBig : BuildError :=
  .addTransaction "the size of this instruction is too big"

def forcedOne : BuildError :=
  .addTransaction ("cannot create more than one transaction because " ++
    "`force_one_transaction` is set")

/-- Opens a new transaction. -/
def pushNew (bundle : BundleBuilder Pubkey Signer OwnedSigner)
    (txn : TransactionBuilder Pubkey Signer OwnedSigner) :
    BundleBuilder Pubkey Signer OwnedSigner :=
  { bundle with builders := bundle.builders ++ [txn] }

/-- Merges into the last transaction, and writes it back whatever comes out. -/
def mergeLast (bundle : BundleBuilder Pubkey Signer OwnedSigner)
    (last txn : TransactionBuilder Pubkey Signer OwnedSigner) :
    Option (BundleBuilder Pubkey Signer OwnedSigner ×
      Pushed Pubkey Signer OwnedSigner) :=
  (last.tryMerge txn).map fun (last, txn, result) =>
    ({ bundle with builders := bundle.builders.dropLast ++ [last] },
      result.mapError fun err => (txn, err))

/-- Whether the instructions of a builder fit into a transaction with those of
the last one. -/
def fitsLast (program : ComputeBudgetInstruction Pubkey)
    (bundle : BundleBuilder Pubkey Signer OwnedSigner)
    (last txn : TransactionBuilder Pubkey Signer OwnedSigner) : Prop :=
  let ixs := last.instructionsWithOptions program false none ++
    txn.instructionsWithOptions program true none
  let lookupTable := last.getCompleteLookupTable ∪ txn.getCompleteLookupTable
  let addresses := last.luts.keys ∪ txn.luts.keys
  transactionSize ixs true (some lookupTable) addresses.card ≤ bundle.packetSize ∧
    ixs.length ≤ bundle.options.maxInstructionsForOneTx

instance (program : ComputeBudgetInstruction Pubkey)
    (bundle : BundleBuilder Pubkey Signer OwnedSigner)
    (last txn : TransactionBuilder Pubkey Signer OwnedSigner) :
    Decidable (bundle.fitsLast program last txn) :=
  inferInstanceAs (Decidable (_ ∧ _))

/-- The bundle after a push and its answer, unless the program stops. -/
def tryPushWithOpts (program : ComputeBudgetInstruction Pubkey)
    (bundle : BundleBuilder Pubkey Signer OwnedSigner)
    (txn : TransactionBuilder Pubkey Signer OwnedSigner) (newTransaction : Bool) :
    Option (BundleBuilder Pubkey Signer OwnedSigner ×
      Pushed Pubkey Signer OwnedSigner) :=
  if bundle.packetSize < transactionSize (txn.instructionsWithOptions program true none)
      true (some txn.getCompleteLookupTable) txn.luts.keys.card then
    some (bundle, .error (txn, tooBig))
  else
    match bundle.builders.getLast?, newTransaction with
    | none, _ => some (bundle.pushNew txn, .ok ())
    | some _, true =>
        if bundle.options.forceOneTransaction then
          some (bundle, .error (txn, forcedOne))
        else some (bundle.pushNew txn, .ok ())
    | some last, false =>
        if bundle.fitsLast program last txn then bundle.mergeLast last txn
        else if bundle.options.forceOneTransaction then
          some (bundle, .error (txn, forcedOne))
        else some (bundle.pushNew txn, .ok ())

def tryPush (program : ComputeBudgetInstruction Pubkey)
    (bundle : BundleBuilder Pubkey Signer OwnedSigner)
    (txn : TransactionBuilder Pubkey Signer OwnedSigner) :
    Option (BundleBuilder Pubkey Signer OwnedSigner ×
      Pushed Pubkey Signer OwnedSigner) :=
  bundle.tryPushWithOpts program txn false

/-- Pushes builders up to the first that is refused. -/
def pushMany (program : ComputeBudgetInstruction Pubkey) :
    BundleBuilder Pubkey Signer OwnedSigner →
    List (TransactionBuilder Pubkey Signer OwnedSigner) → Bool →
    Option (BundleBuilder Pubkey Signer OwnedSigner × Except BuildError Unit)
  | bundle, [], _ => some (bundle, .ok ())
  | bundle, txn :: txns, newTransaction => do
      let (bundle, answer) ← bundle.tryPushWithOpts program txn newTransaction
      match answer with
      | .ok () => bundle.pushMany program txns false
      | .error (_, err) => some (bundle, .error err)

end BundleBuilder

end Gmsol.Bundle
