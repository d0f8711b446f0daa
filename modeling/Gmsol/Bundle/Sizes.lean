import Gmsol.Bundle.Runs

/-!
# The sizes of bundled transactions

A push estimates the size of a transaction before it is opened or merged.  The estimate
of a merge is exact as long as no address of a lookup table is lost, but a new
transaction is measured without the instructions of its compute budget.
-/

namespace Gmsol.Bundle

open Gmsol.Fallible

variable {Pubkey Signer OwnedSigner : Type}

/-! ## What a size depends on -/

section Shapes

variable [DecidableEq Pubkey]

/-- What an instruction contributes to the size. -/
def Instruction.shape (ix : Instruction Pubkey) :
    Pubkey × List (AccountMeta Pubkey) × ℕ :=
  (ix.programId, ix.accounts, ix.data.length)

/-- The size does not depend on the contents of the data. -/
theorem transactionSize_congr {ixs others : List (Instruction Pubkey)}
    (hshape : ixs.map Instruction.shape = others.map Instruction.shape)
    (isVersioned : Bool) (lookupTable : Option (Finset Pubkey))
    (lookupTableAddresses : ℕ) :
    transactionSize ixs isVersioned lookupTable lookupTableAddresses =
      transactionSize others isVersioned lookupTable lookupTableAddresses := by
  have hprograms : ixs.map Instruction.programId = others.map Instruction.programId := by
    have hfirst := congrArg (List.map Prod.fst) hshape
    rwa [List.map_map, List.map_map] at hfirst
  have haccounts : ixs.map Instruction.accounts = others.map Instruction.accounts := by
    have hsecond := congrArg (List.map fun shape => shape.2.1) hshape
    rwa [List.map_map, List.map_map] at hsecond
  have hsizes : ixs.map instructionSize = others.map instructionSize := by
    have hthird := congrArg (List.map fun shape =>
      1 + sizeOfCompressedU16 shape.2.1.length + shape.2.1.length +
        sizeOfCompressedU16 shape.2.2 + shape.2.2) hshape
    rwa [List.map_map, List.map_map] at hthird
  have hlength : ixs.length = others.length := by
    have hlengths := congrArg List.length hshape
    rwa [List.length_map, List.length_map] at hlengths
  have hnamed (view : List (AccountMeta Pubkey) → List Pubkey) :
      ixs.flatMap (fun ix => view ix.accounts) =
        others.flatMap fun ix => view ix.accounts := by
    have hflat := congrArg (List.flatMap view) haccounts
    rwa [List.flatMap_map, List.flatMap_map] at hflat
  simp only [transactionSize, hprograms, hsizes, hlength,
    hnamed (List.map AccountMeta.pubkey),
    hnamed fun accounts => (accounts.filter AccountMeta.isSigner).map AccountMeta.pubkey]

/-- The instructions of the compute budget program name no accounts, and their data has
a fixed length. -/
structure ComputeBudgetInstruction.Uniform (program : ComputeBudgetInstruction Pubkey) :
    Prop where
  limit : ∀ units others, (program.setComputeUnitLimit units).shape =
    (program.setComputeUnitLimit others).shape
  price : ∀ price others, (program.setComputeUnitPrice price).shape =
    (program.setComputeUnitPrice others).shape

end Shapes

namespace TransactionBuilder

variable [DecidableEq Pubkey] {program : ComputeBudgetInstruction Pubkey}
  {builder other merged last txn : TransactionBuilder Pubkey Signer OwnedSigner}

/-- The estimated size with the instructions of the compute budget. -/
def transactionSize (program : ComputeBudgetInstruction Pubkey)
    (builder : TransactionBuilder Pubkey Signer OwnedSigner) (isVersioned : Bool) : ℕ :=
  Bundle.transactionSize (builder.instructionsWithOptions program false none) isVersioned
    (some builder.getCompleteLookupTable) builder.luts.keys.card

omit [DecidableEq Pubkey] in
theorem instructionsWithOptions_eq (program : ComputeBudgetInstruction Pubkey)
    (builder : TransactionBuilder Pubkey Signer OwnedSigner) :
    builder.instructionsWithOptions program false none =
      builder.computeBudget.computeBudgetInstructions program none ++
        builder.ownInstructions program := by
  rw [ownInstructions_eq, instructionsWithOptions, if_neg Bool.false_ne_true,
    List.append_assoc]

/-- The tables of the incoming builder replace those of the same address; no address of
the last builder is lost by that. -/
def KeepsAddresses (last txn : TransactionBuilder Pubkey Signer OwnedSigner) : Prop :=
  last.getCompleteLookupTable ⊆
    { last with luts := txn.luts ∪ last.luts }.getCompleteLookupTable

theorem mem_getCompleteLookupTable {address : Pubkey} :
    address ∈ builder.getCompleteLookupTable ↔
      ∃ key addresses, builder.luts.lookup key = some addresses ∧ address ∈ addresses := by
  simp only [getCompleteLookupTable, Finset.mem_biUnion, List.mem_toFinset,
    Finmap.mem_keys, ← Finmap.lookup_isSome]
  constructor
  · rintro ⟨key, hsome, hmem⟩
    obtain ⟨addresses, hlookup⟩ := Option.isSome_iff_exists.mp hsome
    rw [hlookup] at hmem
    exact ⟨key, addresses, hlookup, hmem⟩
  · rintro ⟨key, addresses, hlookup, hmem⟩
    refine ⟨key, Option.isSome_iff_exists.mpr ⟨addresses, hlookup⟩, ?_⟩
    rw [hlookup]
    exact hmem

/-- A merge that loses no address has the addresses of both builders. -/
theorem Merged.getCompleteLookupTable (hmerged : Merged last txn merged)
    (hkeeps : KeepsAddresses last txn) :
    merged.getCompleteLookupTable =
      last.getCompleteLookupTable ∪ txn.getCompleteLookupTable := by
  have hunion : merged.getCompleteLookupTable =
      { last with luts := txn.luts ∪ last.luts }.getCompleteLookupTable := by
    rw [TransactionBuilder.getCompleteLookupTable,
      TransactionBuilder.getCompleteLookupTable, hmerged.luts]
  apply Finset.Subset.antisymm
  · intro address hmem
    obtain ⟨key, addresses, hlookup, haddress⟩ := mem_getCompleteLookupTable.mp hmem
    rw [hmerged.luts] at hlookup
    rw [Finset.mem_union, mem_getCompleteLookupTable, mem_getCompleteLookupTable]
    rcases Finmap.mem_lookup_union.mp hlookup with hincoming | ⟨-, hold⟩
    · exact .inr ⟨key, addresses, hincoming, haddress⟩
    · exact .inl ⟨key, addresses, hold, haddress⟩
  · apply Finset.union_subset
    · rw [hunion]
      exact hkeeps
    · intro address hmem
      obtain ⟨key, addresses, hlookup, haddress⟩ := mem_getCompleteLookupTable.mp hmem
      rw [mem_getCompleteLookupTable, hmerged.luts]
      exact ⟨key, addresses, Finmap.mem_lookup_union.mpr (.inl hlookup), haddress⟩

/-- The size of a merge is the one that was estimated. -/
theorem Merged.transactionSize (huniform : program.Uniform)
    (hmerged : Merged last txn merged) (hkeeps : KeepsAddresses last txn) :
    merged.transactionSize program true =
      Bundle.transactionSize
        (last.instructionsWithOptions program false none ++ txn.ownInstructions program) true
        (some (last.getCompleteLookupTable ∪ txn.getCompleteLookupTable))
        (last.luts.keys ∪ txn.luts.keys).card := by
  rw [TransactionBuilder.transactionSize, hmerged.getCompleteLookupTable hkeeps,
    hmerged.luts, Finmap.keys_union, Finset.union_comm txn.luts.keys]
  apply transactionSize_congr
  rw [instructionsWithOptions_eq, instructionsWithOptions_eq,
    appends_ownInstructions program _ _ _ hmerged, List.append_assoc]
  simp only [ComputeBudget.computeBudgetInstructions, List.map_append, List.map_cons,
    List.map_nil]
  rw [huniform.limit merged.computeBudget.budgetUnits last.computeBudget.budgetUnits,
    huniform.price (merged.computeBudget.budgetPrice none)
      (last.computeBudget.budgetPrice none)]

end TransactionBuilder

namespace BundleBuilder

variable [DecidableEq Pubkey] {program : ComputeBudgetInstruction Pubkey}
  {bundle after : BundleBuilder Pubkey Signer OwnedSigner}
  {txn : TransactionBuilder Pubkey Signer OwnedSigner} {newTransaction : Bool}

/-! ## One push -/

/-- A push that is accepted opens a new transaction rather than merging. -/
def OpensNew (program : ComputeBudgetInstruction Pubkey)
    (bundle : BundleBuilder Pubkey Signer OwnedSigner)
    (txn : TransactionBuilder Pubkey Signer OwnedSigner) (newTransaction : Bool) : Prop :=
  ∀ last, bundle.builders.getLast? = some last →
    newTransaction = true ∨ ¬bundle.fitsLast program last txn

/-- A new transaction has room for its compute budget, and a merge loses no address. -/
structure PushFits (program : ComputeBudgetInstruction Pubkey)
    (bundle : BundleBuilder Pubkey Signer OwnedSigner)
    (txn : TransactionBuilder Pubkey Signer OwnedSigner) (newTransaction : Bool) : Prop where
  opened : bundle.OpensNew program txn newTransaction →
    txn.transactionSize program true ≤ bundle.packetSize
  merged : ¬bundle.OpensNew program txn newTransaction →
    ∀ last, bundle.builders.getLast? = some last → last.KeepsAddresses txn

/-- An accepted push opens a new transaction, or merges what was found to fit. -/
theorem tryPushWithOpts_ok_cases
    (hpush : bundle.tryPushWithOpts program txn newTransaction = some (after, .ok ())) :
    (bundle.OpensNew program txn newTransaction ∧ after = bundle.pushNew txn) ∨
      ∃ last, bundle.builders.getLast? = some last ∧
        ¬bundle.OpensNew program txn newTransaction ∧
        bundle.fitsLast program last txn ∧
        bundle.mergeLast last txn = some (after, .ok ()) := by
  unfold tryPushWithOpts at hpush
  split at hpush
  · exact absurd hpush (by simp)
  · split at hpush
    · rename_i hnone
      obtain ⟨rfl, -⟩ := Prod.mk.inj (Option.some.inj hpush)
      refine .inl ⟨fun last hlast => ?_, rfl⟩
      exact absurd (hnone.symm.trans hlast) (by simp)
    · split at hpush
      · exact absurd hpush (by simp)
      · obtain ⟨rfl, -⟩ := Prod.mk.inj (Option.some.inj hpush)
        exact .inl ⟨fun _ _ => .inl rfl, rfl⟩
    · rename_i last hlast
      split at hpush
      · rename_i hfits
        refine .inr ⟨last, hlast, fun hopens => ?_, hfits, hpush⟩
        rcases hopens last hlast with hnew | hnot
        · exact absurd hnew (by simp)
        · exact hnot hfits
      · rename_i hnot
        split at hpush
        · exact absurd hpush (by simp)
        · obtain ⟨rfl, -⟩ := Prod.mk.inj (Option.some.inj hpush)
          refine .inl ⟨fun found hfound => .inr ?_, rfl⟩
          obtain rfl := Option.some.inj (hlast.symm.trans hfound)
          exact hnot

/-- Merging replaces the last builder. -/
theorem mergeLast_ok {last : TransactionBuilder Pubkey Signer OwnedSigner}
    (hmerge : bundle.mergeLast last txn = some (after, .ok ())) :
    ∃ merged, TransactionBuilder.Merged last txn merged ∧
      after = { bundle with builders := bundle.builders.dropLast ++ [merged] } := by
  obtain ⟨⟨merged, left, result⟩, htry, heq⟩ := Option.map_eq_some_iff.mp hmerge
  cases result with
  | error found => exact absurd heq (by simp [Except.mapError])
  | ok done =>
      obtain ⟨rfl, -⟩ := Prod.mk.inj heq
      exact ⟨merged, TransactionBuilder.tryMerge_ok htry, rfl⟩

/-! ## Runs of accepted pushes -/

/-- A push and whether it asks for a new transaction. -/
abbrev Push (Pubkey Signer OwnedSigner : Type) : Type :=
  TransactionBuilder Pubkey Signer OwnedSigner × Bool

/-- Which builders were formed by merging, after a push that was accepted. -/
def markMerged (before after : BundleBuilder Pubkey Signer OwnedSigner)
    (marks : List Bool) : List Bool :=
  if after.builders.length = before.builders.length then marks.dropLast ++ [true]
  else marks ++ [false]

/-- The bundle after all pushes, with a mark for each builder that was formed by
merging, when all pushes are accepted. -/
def pushAll (program : ComputeBudgetInstruction Pubkey) :
    BundleBuilder Pubkey Signer OwnedSigner → List Bool →
    List (Push Pubkey Signer OwnedSigner) →
    Option (BundleBuilder Pubkey Signer OwnedSigner × List Bool)
  | bundle, marks, [] => some (bundle, marks)
  | bundle, marks, (txn, newTransaction) :: pushes =>
      match bundle.tryPushWithOpts program txn newTransaction with
      | some (after, .ok ()) => after.pushAll program (markMerged bundle after marks) pushes
      | _ => none

/-- Every push of a run meets a condition on the bundle before it. -/
def Along (program : ComputeBudgetInstruction Pubkey)
    (condition : BundleBuilder Pubkey Signer OwnedSigner →
      TransactionBuilder Pubkey Signer OwnedSigner → Bool → Prop) :
    BundleBuilder Pubkey Signer OwnedSigner → List (Push Pubkey Signer OwnedSigner) → Prop
  | _, [] => True
  | bundle, (txn, newTransaction) :: pushes =>
      condition bundle txn newTransaction ∧
        ∀ after, bundle.tryPushWithOpts program txn newTransaction = some (after, .ok ()) →
          after.Along program condition pushes

theorem along_true (program : ComputeBudgetInstruction Pubkey)
    (bundle : BundleBuilder Pubkey Signer OwnedSigner)
    (pushes : List (Push Pubkey Signer OwnedSigner)) :
    bundle.Along program (fun _ _ _ => True) pushes := by
  induction pushes generalizing bundle with
  | nil => trivial
  | cons push pushes ih => exact ⟨trivial, fun after _ => ih after⟩

/-- A property of every builder and its mark. -/
def Every (holds : TransactionBuilder Pubkey Signer OwnedSigner → Bool → Prop)
    (bundle : BundleBuilder Pubkey Signer OwnedSigner) (marks : List Bool) : Prop :=
  List.Forall₂ holds bundle.builders marks

section Every

variable {holds : TransactionBuilder Pubkey Signer OwnedSigner → Bool → Prop}
  {marks : List Bool}

omit [DecidableEq Pubkey] in
theorem Every.pushNew (hevery : bundle.Every holds marks) (hnew : holds txn false) :
    (bundle.pushNew txn).Every holds (markMerged bundle (bundle.pushNew txn) marks) := by
  have hlonger : (bundle.pushNew txn).builders.length ≠ bundle.builders.length := by
    rw [BundleBuilder.pushNew, List.length_append, List.length_singleton]
    omega
  rw [markMerged, if_neg hlonger]
  exact List.rel_append hevery (.cons hnew .nil)

omit [DecidableEq Pubkey] in
theorem Every.replaceLast {last merged : TransactionBuilder Pubkey Signer OwnedSigner}
    (hevery : bundle.Every holds marks) (hlast : bundle.builders.getLast? = some last)
    (hmerged : holds merged true)
    (hafter : after = { bundle with builders := bundle.builders.dropLast ++ [merged] }) :
    after.Every holds (markMerged bundle after marks) := by
  have hlength := List.Forall₂.length_eq hevery
  have hnonempty : bundle.builders ≠ [] := by
    intro hnil
    rw [hnil] at hlast
    exact absurd hlast (by simp)
  have hsame : after.builders.length = bundle.builders.length := by
    rw [hafter, List.length_append, List.length_dropLast, List.length_singleton,
      Nat.sub_add_cancel (List.length_pos_iff.mpr hnonempty)]
  rw [markMerged, if_pos hsame, hafter]
  apply List.rel_append _ (.cons hmerged .nil)
  rw [List.dropLast_eq_take, List.dropLast_eq_take, hlength]
  exact List.forall₂_take _ hevery

end Every

/-- What every accepted push keeps holds after a run of pushes. -/
theorem Every.pushAll
    {holds : BundleOptions → TransactionBuilder Pubkey Signer OwnedSigner → Bool → Prop}
    {condition : BundleBuilder Pubkey Signer OwnedSigner →
      TransactionBuilder Pubkey Signer OwnedSigner → Bool → Prop}
    (hpush : ∀ {bundle after : BundleBuilder Pubkey Signer OwnedSigner} {txn newTransaction
      marks}, condition bundle txn newTransaction →
        bundle.tryPushWithOpts program txn newTransaction = some (after, .ok ()) →
          bundle.Every (holds bundle.options) marks →
            after.options = bundle.options ∧
              after.Every (holds bundle.options) (markMerged bundle after marks))
    {pushes : List (Push Pubkey Signer OwnedSigner)}
    {bundle last : BundleBuilder Pubkey Signer OwnedSigner} {marks lastMarks : List Bool}
    (halong : bundle.Along program condition pushes)
    (hrun : bundle.pushAll program marks pushes = some (last, lastMarks))
    (hevery : bundle.Every (holds bundle.options) marks) :
    last.options = bundle.options ∧ last.Every (holds bundle.options) lastMarks := by
  induction pushes generalizing bundle marks with
  | nil =>
      obtain ⟨rfl, rfl⟩ := Prod.mk.inj (Option.some.inj hrun)
      exact ⟨rfl, hevery⟩
  | cons push pushes ih =>
      obtain ⟨txn, newTransaction⟩ := push
      obtain ⟨hcondition, hrest⟩ := halong
      rw [BundleBuilder.pushAll] at hrun
      split at hrun
      · rename_i after haccepted
        obtain ⟨hoptions, hafter⟩ := hpush hcondition haccepted hevery
        rw [← hoptions] at hafter ⊢
        exact ih (hrest after haccepted) hrun hafter
      · exact absurd hrun (by simp)

/-! ## Sizes and limits -/

/-- A builder that was formed by merging respects the limit of instructions. -/
def WithinLimit (program : ComputeBudgetInstruction Pubkey) (options : BundleOptions)
    (builder : TransactionBuilder Pubkey Signer OwnedSigner) (merged : Bool) : Prop :=
  merged = true →
    (builder.ownInstructions program).length ≤ options.maxInstructionsForOneTx

/-- A builder fits a packet together with its compute budget. -/
def WithinPacket (program : ComputeBudgetInstruction Pubkey) (options : BundleOptions)
    (builder : TransactionBuilder Pubkey Signer OwnedSigner) (_merged : Bool) : Prop :=
  builder.transactionSize program true ≤
    (fromOptions options : BundleBuilder Pubkey Signer OwnedSigner).packetSize

theorem tryPushWithOpts_withinLimit {marks : List Bool}
    (hpush : bundle.tryPushWithOpts program txn newTransaction = some (after, .ok ()))
    (hevery : bundle.Every (WithinLimit program bundle.options) marks) :
    after.options = bundle.options ∧
      after.Every (WithinLimit program bundle.options) (markMerged bundle after marks) := by
  rcases tryPushWithOpts_ok_cases hpush with
    ⟨-, rfl⟩ | ⟨last, hlast, -, ⟨-, hfits⟩, hmerge⟩
  · exact ⟨rfl, hevery.pushNew fun hmerged => absurd hmerged Bool.false_ne_true⟩
  · obtain ⟨merged, hmerged, hafter⟩ := mergeLast_ok hmerge
    refine ⟨by rw [hafter], hevery.replaceLast hlast (fun _ => ?_) hafter⟩
    rw [TransactionBuilder.instructionsWithOptions_eq, List.length_append,
      List.length_append] at hfits
    rw [TransactionBuilder.appends_ownInstructions program _ _ _ hmerged,
      List.length_append, TransactionBuilder.ownInstructions,
      TransactionBuilder.ownInstructions]
    rw [TransactionBuilder.ownInstructions] at hfits
    omega

theorem tryPushWithOpts_withinPacket {marks : List Bool} (huniform : program.Uniform)
    (hfits : bundle.PushFits program txn newTransaction)
    (hpush : bundle.tryPushWithOpts program txn newTransaction = some (after, .ok ()))
    (hevery : bundle.Every (WithinPacket program bundle.options) marks) :
    after.options = bundle.options ∧
      after.Every (WithinPacket program bundle.options) (markMerged bundle after marks) := by
  rcases tryPushWithOpts_ok_cases hpush with
    ⟨hopens, rfl⟩ | ⟨last, hlast, hmerges, ⟨hsize, -⟩, hmerge⟩
  · exact ⟨rfl, hevery.pushNew (hfits.opened hopens)⟩
  · obtain ⟨merged, hmerged, hafter⟩ := mergeLast_ok hmerge
    refine ⟨by rw [hafter], hevery.replaceLast hlast ?_ hafter⟩
    rw [WithinPacket,
      hmerged.transactionSize huniform (hfits.merged hmerges last hlast)]
    exact hsize

/-- After any run of accepted pushes the merged transactions respect the limit of
instructions.  If every new transaction has room for its compute budget and no merge
loses an address, all transactions fit the packet size. -/
theorem pushAll_sizes (program : ComputeBudgetInstruction Pubkey) (options : BundleOptions)
    (pushes : List (Push Pubkey Signer OwnedSigner))
    (bundle : BundleBuilder Pubkey Signer OwnedSigner) (marks : List Bool)
    (huniform : program.Uniform)
    (hrun : (fromOptions options).pushAll program [] pushes = some (bundle, marks)) :
    bundle.Every (WithinLimit program options) marks ∧
      ((fromOptions options).Along program (PushFits program) pushes →
        bundle.Every (WithinPacket program options) marks) := by
  constructor
  · have halong := along_true program (fromOptions options) pushes
    exact (Every.pushAll (fun _ => tryPushWithOpts_withinLimit) halong hrun .nil).2
  · intro halong
    exact (Every.pushAll (tryPushWithOpts_withinPacket huniform) halong hrun .nil).2

/-! ## Examples -/

/-- The bytes of a number, the lowest first. -/
def littleEndian : ℕ → ℕ → List UInt8
  | 0, _ => []
  | bytes + 1, value => UInt8.ofNat value :: littleEndian bytes (value / 256)

theorem length_littleEndian (bytes value : ℕ) :
    (littleEndian bytes value).length = bytes := by
  induction bytes generalizing value with
  | zero => rfl
  | succ bytes ih => rw [littleEndian, List.length_cons, ih]

/-- The compute budget program has the key 0. -/
def computeBudgetProgram : ComputeBudgetInstruction ℕ where
  setComputeUnitLimit units := ⟨0, [], 2 :: littleEndian 4 units⟩
  setComputeUnitPrice price := ⟨0, [], 3 :: littleEndian 8 price⟩

theorem computeBudgetProgram_uniform : computeBudgetProgram.Uniform where
  limit _ _ := by
    simp only [computeBudgetProgram, Instruction.shape, List.length_cons,
      length_littleEndian]
  price _ _ := by
    simp only [computeBudgetProgram, Instruction.shape, List.length_cons,
      length_littleEndian]

/-- A builder with one lookup table of the key 50. -/
def tableExample (signer : ℕ) (table : List ℕ) : TransactionBuilder ℕ ℕ ℕ :=
  { (txnExample 1 signer [5] : TransactionBuilder ℕ ℕ ℕ) with
    luts := Finmap.singleton 50 table }

/-- Two small builders with the same lookup table. -/
def tablePushes : List (Push ℕ ℕ ℕ) :=
  [(tableExample 2 [60, 61], false), (tableExample 3 [60, 61], false)]

theorem tablePushes_fit :
    (fromOptions .default).Along computeBudgetProgram (PushFits computeBudgetProgram)
      tablePushes := by
  refine ⟨⟨fun _ => by decide +kernel, fun hnot => ?_⟩, fun after hafter => ?_⟩
  · exact absurd (fun _ hlast => absurd hlast (by simp [fromOptions])) hnot
  · rcases tryPushWithOpts_ok_cases hafter with ⟨-, rfl⟩ | ⟨last, hlast, -⟩
    · refine ⟨⟨fun _ => by decide +kernel, fun _ last hlast => ?_⟩, fun _ _ => trivial⟩
      obtain rfl : tableExample 2 [60, 61] = last := Option.some.inj hlast
      rw [TransactionBuilder.KeepsAddresses]
      decide +kernel
    · exact absurd hlast (by simp [fromOptions])

theorem pushAll_sizes_merged : ∃ bundle marks,
    (fromOptions .default).pushAll computeBudgetProgram [] tablePushes =
        some (bundle, marks) ∧ marks = [true] ∧
      bundle.Every (WithinLimit computeBudgetProgram .default) marks ∧
      bundle.Every (WithinPacket computeBudgetProgram .default) marks := by
  have hany : ((fromOptions .default).pushAll computeBudgetProgram [] tablePushes).any
      (fun result => decide (result.2 = [true])) = true := by
    decide +kernel
  obtain ⟨⟨bundle, marks⟩, hrun, hmarks⟩ := exists_of_any hany
  obtain ⟨hlimit, hpacket⟩ := pushAll_sizes computeBudgetProgram .default tablePushes
    bundle marks computeBudgetProgram_uniform hrun
  exact ⟨bundle, marks, hrun, hmarks, hlimit, hpacket tablePushes_fit⟩

/-- Some transaction of the bundle is larger than a packet. -/
def TooLarge (bundle : BundleBuilder ℕ ℕ ℕ) : Prop :=
  ∃ builder ∈ bundle.builders,
    bundle.packetSize < builder.transactionSize computeBudgetProgram true

instance (bundle : BundleBuilder ℕ ℕ ℕ) : Decidable bundle.TooLarge :=
  inferInstanceAs (Decidable (∃ builder ∈ bundle.builders, _))

/-- The last push has the same lookup table without its forty accounts. -/
def replacingPushes : List (Push ℕ ℕ ℕ) :=
  [({ tableExample 2 (List.range' 60 40) with
      accounts := (List.range' 60 40).map fun key => ⟨key, false, false⟩ }, false),
    (tableExample 3 [], false)]

/-- An instruction that fills a packet is accepted without its compute budget; and a
merge is accepted that replaces the table of forty accounts. -/
theorem pushAll_exceeds_packet :
    (∃ bundle marks,
      (fromOptions .default).pushAll computeBudgetProgram []
          [(txnExample 1 2 (List.replicate 1050 5), false)] = some (bundle, marks) ∧
        bundle.TooLarge) ∧
    ∃ bundle marks,
      (fromOptions .default).pushAll computeBudgetProgram [] replacingPushes =
          some (bundle, marks) ∧ bundle.TooLarge := by
  have htooLarge {pushes : List (Push ℕ ℕ ℕ)}
      (hany : ((fromOptions .default).pushAll computeBudgetProgram [] pushes).any
        (fun result => decide result.1.TooLarge) = true) :
      ∃ bundle marks,
        (fromOptions .default).pushAll computeBudgetProgram [] pushes =
          some (bundle, marks) ∧ bundle.TooLarge := by
    obtain ⟨⟨bundle, marks⟩, hrun, hlarge⟩ := exists_of_any hany
    exact ⟨bundle, marks, hrun, hlarge⟩
  constructor
  · exact htooLarge (by decide +kernel)
  · exact htooLarge (by decide +kernel)

end BundleBuilder

end Gmsol.Bundle
