import Gmsol.Bundle.Builder

/-!
# Runs of pushes

Whatever lists a merge appends, a run of pushes appends as well: the
instructions and the signers of the bundle are those of the builders that were
pushed, in the order of the pushes.  A refused builder comes back as it was and
leaves the bundle as it was.
-/

namespace Gmsol.Bundle

open Gmsol.Fallible

variable {Pubkey Signer OwnedSigner : Type}

namespace TransactionBuilder

/-- The instructions of a builder apart from those of its compute budget. -/
def ownInstructions (program : ComputeBudgetInstruction Pubkey)
    (builder : TransactionBuilder Pubkey Signer OwnedSigner) :
    List (Instruction Pubkey) :=
  builder.instructionsWithOptions program true none

variable {builder other merged left : TransactionBuilder Pubkey Signer OwnedSigner}

theorem ownInstructions_eq (program : ComputeBudgetInstruction Pubkey)
    (builder : TransactionBuilder Pubkey Signer OwnedSigner) :
    builder.ownInstructions program =
      builder.preInstructions ++ builder.getInstruction.toList := by
  rw [ownInstructions, instructionsWithOptions, if_pos rfl, List.nil_append]

theorem pushTaken_eq (preInstructions : List (Instruction Pubkey))
    (main : Option (Instruction Pubkey)) :
    pushTaken preInstructions main = preInstructions ++ main.toList := by
  cases main with
  | none => exact (List.append_nil _).symm
  | some ix => rfl

/-- Taking the main instruction leaves a builder without one. -/
theorem takeInstruction_eq
    (builder : TransactionBuilder Pubkey Signer OwnedSigner) :
    builder.takeInstruction = (builder.getInstruction,
      { builder with
        instructionData := none
        accounts := if builder.instructionData.isSome then [] else builder.accounts }) := by
  cases hdata : builder.instructionData with
  | none =>
      rw [takeInstruction, getInstruction, hdata]
      cases builder
      simp_all
  | some data =>
      rw [takeInstruction, getInstruction, hdata]
      rfl

variable [DecidableEq Pubkey]

/-- A refused merge moves nothing. -/
theorem tryMerge_error {err : BuildError}
    (hmerge : builder.tryMerge other = some (merged, left, .error err)) :
    merged = builder ∧ left = other := by
  rw [tryMerge] at hmerge
  split at hmerge
  · simp only [Option.some.injEq, Prod.mk.injEq] at hmerge
    exact ⟨hmerge.1.symm, hmerge.2.1.symm⟩
  · simp only [takeInstruction_eq] at hmerge
    split at hmerge
    · exact absurd hmerge (by simp)
    · exact absurd hmerge (by simp)

/-- What a merged builder has collected. -/
structure Merged (builder other merged : TransactionBuilder Pubkey Signer OwnedSigner) :
    Prop where
  preInstructions : merged.preInstructions =
    builder.preInstructions ++ builder.getInstruction.toList ++
      other.preInstructions ++ other.getInstruction.toList
  instructionData : merged.instructionData = none
  signers : merged.signers = builder.signers ++ other.signers
  ownedSigners : merged.ownedSigners = builder.ownedSigners ++ other.ownedSigners
  luts : merged.luts = other.luts ∪ builder.luts

theorem tryMerge_ok
    (hmerge : builder.tryMerge other = some (merged, left, .ok ())) :
    Merged builder other merged := by
  rw [tryMerge] at hmerge
  split at hmerge
  · exact absurd hmerge (by simp)
  · simp only [takeInstruction_eq, pushTaken_eq] at hmerge
    split at hmerge
    · exact absurd hmerge (by simp)
    · simp only [Option.some.injEq, Prod.mk.injEq] at hmerge
      obtain ⟨rfl, -, -⟩ := hmerge
      exact ⟨rfl, rfl, rfl, rfl, rfl⟩

/-- The program stops in a merge exactly where the limits of the compute budgets
do not add up. -/
theorem tryMerge_eq_none_iff : builder.tryMerge other = none ↔
    builder.payer = other.payer ∧
      maxU32 < builder.computeBudget.limitUnits + other.computeBudget.limitUnits := by
  rw [tryMerge]
  split
  · rename_i hpayer
    simp only [reduceCtorEq, false_iff, not_and]
    exact fun hsame => absurd hsame hpayer
  · rename_i hpayer
    have hsame : builder.payer = other.payer := not_not.mp hpayer
    simp only [takeInstruction_eq, ComputeBudget.addAssign]
    by_cases hfits : builder.computeBudget.limitUnits +
        other.computeBudget.limitUnits ≤ maxU32
    · rw [if_pos hfits]
      exact ⟨fun hnone => absurd hnone (by simp), fun hboth => absurd hboth.2 (by omega)⟩
    · rw [if_neg hfits]
      exact ⟨fun _ => ⟨hsame, Nat.lt_of_not_le hfits⟩, fun _ => rfl⟩

/-- A list that a merge appends. -/
def Appends {β : Type} (view : TransactionBuilder Pubkey Signer OwnedSigner → List β) :
    Prop :=
  ∀ builder other merged, Merged builder other merged →
    view merged = view builder ++ view other

theorem appends_ownInstructions (program : ComputeBudgetInstruction Pubkey) :
    Appends (@ownInstructions Pubkey Signer OwnedSigner program) := by
  intro builder other merged hmerged
  rw [ownInstructions_eq, ownInstructions_eq, ownInstructions_eq, getInstruction,
    hmerged.instructionData, hmerged.preInstructions]
  simp only [Option.map_none, Option.toList_none, List.append_nil, List.append_assoc]

theorem appends_signers :
    Appends (@TransactionBuilder.signers Pubkey Signer OwnedSigner) :=
  fun _ _ _ hmerged => hmerged.signers

theorem appends_ownedSigners :
    Appends (@TransactionBuilder.ownedSigners Pubkey Signer OwnedSigner) :=
  fun _ _ _ hmerged => hmerged.ownedSigners

end TransactionBuilder

namespace BundleBuilder

variable [DecidableEq Pubkey] {program : ComputeBudgetInstruction Pubkey}
  {bundle after : BundleBuilder Pubkey Signer OwnedSigner}
  {txn back : TransactionBuilder Pubkey Signer OwnedSigner}
  {newTransaction : Bool} {err : BuildError}

/-- What all builders of the bundle have, in their order. -/
def collected {β : Type} (bundle : BundleBuilder Pubkey Signer OwnedSigner)
    (view : TransactionBuilder Pubkey Signer OwnedSigner → List β) : List β :=
  bundle.builders.flatMap view

/-! ## One push -/

theorem mergeLast_error {last : TransactionBuilder Pubkey Signer OwnedSigner}
    (hlast : bundle.builders.getLast? = some last)
    (hpush : bundle.mergeLast last txn = some (after, .error (back, err))) :
    after = bundle ∧ back = txn := by
  obtain ⟨⟨merged, left, result⟩, hmerge, heq⟩ := Option.map_eq_some_iff.mp hpush
  cases result with
  | ok done => exact absurd heq (by simp [Except.mapError])
  | error found =>
      obtain ⟨rfl, rfl⟩ := TransactionBuilder.tryMerge_error hmerge
      simp only [Except.mapError, Prod.mk.injEq, Except.error.injEq] at heq
      obtain ⟨rfl, rfl, -⟩ := heq
      refine ⟨?_, rfl⟩
      rw [List.dropLast_append_getLast? _ hlast]

/-- A push is refused at once, opens a new transaction or merges into the last
one. -/
theorem tryPushWithOpts_cases {answer : Pushed Pubkey Signer OwnedSigner}
    (hpush : bundle.tryPushWithOpts program txn newTransaction =
      some (after, answer)) :
    (after = bundle ∧ ∃ err, answer = .error (txn, err)) ∨
      (after = bundle.pushNew txn ∧ answer = .ok ()) ∨
      ∃ last, bundle.builders.getLast? = some last ∧
        bundle.mergeLast last txn = some (after, answer) := by
  unfold tryPushWithOpts at hpush
  split at hpush
  · obtain ⟨rfl, rfl⟩ := Prod.mk.inj (Option.some.inj hpush)
    exact .inl ⟨rfl, tooBig, rfl⟩
  · split at hpush
    · obtain ⟨rfl, rfl⟩ := Prod.mk.inj (Option.some.inj hpush)
      exact .inr (.inl ⟨rfl, rfl⟩)
    · split at hpush
      · obtain ⟨rfl, rfl⟩ := Prod.mk.inj (Option.some.inj hpush)
        exact .inl ⟨rfl, forcedOne, rfl⟩
      · obtain ⟨rfl, rfl⟩ := Prod.mk.inj (Option.some.inj hpush)
        exact .inr (.inl ⟨rfl, rfl⟩)
    · rename_i last hlast
      split at hpush
      · exact .inr (.inr ⟨last, hlast, hpush⟩)
      · split at hpush
        · obtain ⟨rfl, rfl⟩ := Prod.mk.inj (Option.some.inj hpush)
          exact .inl ⟨rfl, forcedOne, rfl⟩
        · obtain ⟨rfl, rfl⟩ := Prod.mk.inj (Option.some.inj hpush)
          exact .inr (.inl ⟨rfl, rfl⟩)

/-- A refused push leaves the bundle as it is and returns the builder as it is. -/
theorem tryPushWithOpts_error
    (hpush : bundle.tryPushWithOpts program txn newTransaction =
      some (after, .error (back, err))) : after = bundle ∧ back = txn := by
  rcases tryPushWithOpts_cases hpush with
    ⟨hafter, found, hanswer⟩ | ⟨-, hanswer⟩ | ⟨last, hlast, hmerge⟩
  · obtain ⟨rfl, -⟩ := Prod.mk.inj (Except.error.inj hanswer)
    exact ⟨hafter, rfl⟩
  · exact absurd hanswer (by simp)
  · exact mergeLast_error hlast hmerge

section Collected

variable {β : Type} {view : TransactionBuilder Pubkey Signer OwnedSigner → List β}

omit [DecidableEq Pubkey] in
theorem collected_pushNew (bundle : BundleBuilder Pubkey Signer OwnedSigner)
    (txn : TransactionBuilder Pubkey Signer OwnedSigner)
    (view : TransactionBuilder Pubkey Signer OwnedSigner → List β) :
    (bundle.pushNew txn).collected view = bundle.collected view ++ view txn := by
  rw [collected, pushNew, List.flatMap_append, List.flatMap_singleton, collected]

theorem collected_mergeLast (happends : TransactionBuilder.Appends view)
    {last : TransactionBuilder Pubkey Signer OwnedSigner}
    (hlast : bundle.builders.getLast? = some last)
    (hpush : bundle.mergeLast last txn = some (after, .ok ())) :
    after.collected view = bundle.collected view ++ view txn := by
  obtain ⟨⟨merged, left, result⟩, hmerge, heq⟩ := Option.map_eq_some_iff.mp hpush
  cases result with
  | error found => exact absurd heq (by simp [Except.mapError])
  | ok done =>
      simp only [Prod.mk.injEq] at heq
      obtain ⟨rfl, -⟩ := heq
      have hmerged := happends _ _ _ (TransactionBuilder.tryMerge_ok hmerge)
      calc (bundle.builders.dropLast ++ [merged]).flatMap view
          = bundle.builders.dropLast.flatMap view ++ (view last ++ view txn) := by
            rw [List.flatMap_append, List.flatMap_singleton, hmerged]
        _ = (bundle.builders.dropLast ++ [last]).flatMap view ++ view txn := by
            rw [List.flatMap_append, List.flatMap_singleton, List.append_assoc]
        _ = bundle.collected view ++ view txn := by
            rw [List.dropLast_append_getLast? _ hlast, collected]

/-- An accepted push appends what the builder has. -/
theorem collected_tryPushWithOpts (happends : TransactionBuilder.Appends view)
    (hpush : bundle.tryPushWithOpts program txn newTransaction =
      some (after, .ok ())) :
    after.collected view = bundle.collected view ++ view txn := by
  rcases tryPushWithOpts_cases hpush with
    ⟨-, found, hanswer⟩ | ⟨rfl, -⟩ | ⟨last, hlast, hmerge⟩
  · exact absurd hanswer (by simp)
  · exact collected_pushNew bundle txn view
  · exact collected_mergeLast happends hlast hmerge

/-! ## Runs -/

/-- The calls on a bundle; the options may change between the pushes. -/
inductive Call (Pubkey Signer OwnedSigner : Type)
  | setOptions (options : BundleOptions)
  | tryPush (txn : TransactionBuilder Pubkey Signer OwnedSigner)
  | tryPushWithOpts (txn : TransactionBuilder Pubkey Signer OwnedSigner)
      (newTransaction : Bool)

def accepted (txn : TransactionBuilder Pubkey Signer OwnedSigner) :
    Pushed Pubkey Signer OwnedSigner →
    List (TransactionBuilder Pubkey Signer OwnedSigner)
  | .ok () => [txn]
  | .error _ => []

/-- The bundle after a call and the builders that the call has pushed. -/
def perform (program : ComputeBudgetInstruction Pubkey)
    (bundle : BundleBuilder Pubkey Signer OwnedSigner) :
    Call Pubkey Signer OwnedSigner →
    Option (BundleBuilder Pubkey Signer OwnedSigner ×
      List (TransactionBuilder Pubkey Signer OwnedSigner))
  | .setOptions options => some (bundle.setOptions options, [])
  | .tryPush txn =>
      (bundle.tryPush program txn).map fun (after, answer) =>
        (after, accepted txn answer)
  | .tryPushWithOpts txn newTransaction =>
      (bundle.tryPushWithOpts program txn newTransaction).map fun (after, answer) =>
        (after, accepted txn answer)

/-- The bundle after all calls and the builders that they have pushed. -/
def run (program : ComputeBudgetInstruction Pubkey) :
    BundleBuilder Pubkey Signer OwnedSigner →
    List (Call Pubkey Signer OwnedSigner) →
    Option (BundleBuilder Pubkey Signer OwnedSigner ×
      List (TransactionBuilder Pubkey Signer OwnedSigner))
  | bundle, [] => some (bundle, [])
  | bundle, call :: calls => do
      let (bundle, first) ← bundle.perform program call
      let (bundle, rest) ← bundle.run program calls
      some (bundle, first ++ rest)

variable {pushed : List (TransactionBuilder Pubkey Signer OwnedSigner)}

theorem collected_accepted (happends : TransactionBuilder.Appends view)
    {answer : Pushed Pubkey Signer OwnedSigner}
    (hpush : bundle.tryPushWithOpts program txn newTransaction =
      some (after, answer)) :
    after.collected view =
      bundle.collected view ++ (accepted txn answer).flatMap view := by
  cases answer with
  | error refused =>
      rw [(tryPushWithOpts_error hpush).1, accepted, List.flatMap_nil,
        List.append_nil]
  | ok done =>
      rw [collected_tryPushWithOpts happends hpush, accepted,
        List.flatMap_singleton]

theorem collected_perform (happends : TransactionBuilder.Appends view)
    {call : Call Pubkey Signer OwnedSigner}
    (hcall : bundle.perform program call = some (after, pushed)) :
    after.collected view = bundle.collected view ++ pushed.flatMap view := by
  cases call with
  | setOptions options =>
      obtain ⟨rfl, rfl⟩ := Prod.mk.inj (Option.some.inj hcall)
      rw [List.flatMap_nil, List.append_nil]
      rfl
  | tryPush txn =>
      obtain ⟨⟨found, answer⟩, hpush, heq⟩ := Option.map_eq_some_iff.mp hcall
      obtain ⟨rfl, rfl⟩ := Prod.mk.inj heq
      exact collected_accepted happends hpush
  | tryPushWithOpts txn newTransaction =>
      obtain ⟨⟨found, answer⟩, hpush, heq⟩ := Option.map_eq_some_iff.mp hcall
      obtain ⟨rfl, rfl⟩ := Prod.mk.inj heq
      exact collected_accepted happends hpush

/-- A run appends what the pushed builders have, in the order of the pushes. -/
theorem collected_run (happends : TransactionBuilder.Appends view)
    {calls : List (Call Pubkey Signer OwnedSigner)}
    (hrun : bundle.run program calls = some (after, pushed)) :
    after.collected view = bundle.collected view ++ pushed.flatMap view := by
  induction calls generalizing bundle pushed with
  | nil =>
      obtain ⟨rfl, rfl⟩ := Prod.mk.inj (Option.some.inj hrun)
      rw [List.flatMap_nil, List.append_nil]
  | cons call calls ih =>
      simp only [run, Option.bind_eq_bind, Option.bind_eq_some_iff, Prod.exists,
        Option.some.injEq, Prod.mk.injEq] at hrun
      obtain ⟨middle, first, hcall, last, rest, hrest, rfl, rfl⟩ := hrun
      rw [ih hrest, collected_perform happends hcall, List.flatMap_append,
        List.append_assoc]

/-- A bundle has the instructions of the builders that were pushed, each once
and in order; and a push that is refused changes nothing. -/
theorem run_keepsInstructions (program : ComputeBudgetInstruction Pubkey)
    (options : BundleOptions) (calls : List (Call Pubkey Signer OwnedSigner))
    (bundle : BundleBuilder Pubkey Signer OwnedSigner)
    (pushed : List (TransactionBuilder Pubkey Signer OwnedSigner))
    (hrun : (fromOptions options).run program calls = some (bundle, pushed)) :
    bundle.builders.flatMap (TransactionBuilder.ownInstructions program) =
        pushed.flatMap (TransactionBuilder.ownInstructions program) ∧
      ∀ txn newTransaction after back err,
        bundle.tryPushWithOpts program txn newTransaction =
          some (after, .error (back, err)) → after = bundle ∧ back = txn := by
  constructor
  · have hcollected :=
      collected_run (TransactionBuilder.appends_ownInstructions program) hrun
    simpa only [collected, fromOptions, List.flatMap_nil, List.nil_append]
      using hcollected
  · intro txn newTransaction after back err hpush
    exact tryPushWithOpts_error hpush

/-- Keys are numbers, and the compute budget program is the key 0. -/
def programExample : ComputeBudgetInstruction ℕ where
  setComputeUnitLimit _ := ⟨0, [], [2]⟩
  setComputeUnitPrice _ := ⟨0, [], [3]⟩

/-- A builder of one instruction with one signing account. -/
def txnExample (payer signer : ℕ) (data : List UInt8) :
    TransactionBuilder ℕ ℕ ℕ :=
  { (TransactionBuilder.new 9 payer : TransactionBuilder ℕ ℕ ℕ) with
    signers := [signer]
    accounts := [⟨signer, true, true⟩]
    instructionData := some data }

/-- The second builder is merged into the first, the third has another payer and
is refused, and the fourth opens a new transaction. -/
def callsExample : List (Call ℕ ℕ ℕ) :=
  [.tryPush (txnExample 1 2 [5]), .tryPush (txnExample 1 3 [6, 7]),
    .tryPush (txnExample 4 3 [8]), .tryPushWithOpts (txnExample 4 2 [9]) true]

theorem run_keepsInstructions_merged : ∃ bundle pushed,
    (fromOptions .default).run programExample callsExample = some (bundle, pushed) ∧
      (bundle.builders.length = 2 ∧ pushed.length = 3) ∧
      bundle.builders.flatMap (TransactionBuilder.ownInstructions programExample) =
        pushed.flatMap (TransactionBuilder.ownInstructions programExample) := by
  have hany : ((fromOptions .default).run programExample callsExample).any
      (fun result => decide (result.1.builders.length = 2 ∧ result.2.length = 3)) =
        true := by
    decide +kernel
  obtain ⟨⟨bundle, pushed⟩, hrun, hlengths⟩ := exists_of_any hany
  exact ⟨bundle, pushed, hrun, hlengths,
    (run_keepsInstructions programExample .default _ bundle pushed hrun).1⟩

/-- The signers of a bundle are those of the builders that were pushed. -/
theorem run_keepsSigners {options : BundleOptions}
    {calls : List (Call Pubkey Signer OwnedSigner)}
    (hrun : (fromOptions options).run program calls = some (bundle, pushed)) :
    bundle.builders.flatMap TransactionBuilder.signers =
        pushed.flatMap TransactionBuilder.signers ∧
      bundle.builders.flatMap TransactionBuilder.ownedSigners =
        pushed.flatMap TransactionBuilder.ownedSigners := by
  have hsigners := collected_run TransactionBuilder.appends_signers hrun
  have howned := collected_run TransactionBuilder.appends_ownedSigners hrun
  simp only [collected, fromOptions, List.flatMap_nil, List.nil_append]
    at hsigners howned
  exact ⟨hsigners, howned⟩

/-- What `pushMany` pushes is a first part of the builders, and all of them
where it succeeds. -/
theorem collected_pushMany (happends : TransactionBuilder.Appends view)
    {txns : List (TransactionBuilder Pubkey Signer OwnedSigner)}
    {result : Except BuildError Unit}
    (hpush : bundle.pushMany program txns newTransaction = some (after, result)) :
    ∃ pushed refused, txns = pushed ++ refused ∧
      (result = .ok () → refused = []) ∧
      after.collected view = bundle.collected view ++ pushed.flatMap view := by
  induction txns generalizing bundle newTransaction with
  | nil =>
      obtain ⟨rfl, rfl⟩ := Prod.mk.inj (Option.some.inj hpush)
      exact ⟨[], [], rfl, fun _ => rfl, by rw [List.flatMap_nil, List.append_nil]⟩
  | cons txn txns ih =>
      simp only [pushMany, Option.bind_eq_bind, Option.bind_eq_some_iff,
        Prod.exists] at hpush
      obtain ⟨middle, answer, hfirst, hrest⟩ := hpush
      have hcollected := collected_accepted happends hfirst
      cases answer with
      | error refused =>
          obtain ⟨rfl, rfl⟩ := Prod.mk.inj (Option.some.inj hrest)
          refine ⟨[], txn :: txns, rfl, fun hok => absurd hok (by simp), ?_⟩
          exact hcollected
      | ok done =>
          obtain ⟨pushed, refused, rfl, hall, hafter⟩ := ih hrest
          refine ⟨txn :: pushed, refused, rfl, hall, ?_⟩
          rw [hafter, hcollected, accepted, List.flatMap_singleton,
            List.flatMap_cons, List.append_assoc]

end Collected

end BundleBuilder

end Gmsol.Bundle
