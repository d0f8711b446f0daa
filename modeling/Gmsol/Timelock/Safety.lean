import Gmsol.Library.Run
import Gmsol.Timelock.Program
import Gmsol.Timelock.RoundTrip

/-!
# Safety of the timelock

Along every run, each buffer is the one that was created, and its header tells
whether it was approved since, by whom and when.  An execution therefore
follows one creation and one approval of its buffer, with nothing in between.
-/

namespace Gmsol.Timelock

open Gmsol.Container Gmsol.Fallible Gmsol.Layout Gmsol.Store

/-! ## Buffers that were created -/

theorem writeHeader_layout {discriminator : Vector Byte 8}
    (header approved : InstructionHeader) (data area : List Byte) :
    writeHeader (layout discriminator header data area) approved =
      layout discriminator approved data area := by
  rw [writeHeader, layout, List.take_left' Vector.length_toList,
    ← List.drop_drop, List.drop_left' Vector.length_toList,
    List.drop_left' (InstructionHeader.pod.length_encode header)]
  rfl

/-- A header that was written over one that could be loaded is loaded next. -/
theorem load_writeHeader {discriminator : Vector Byte 8} {bytes : List Byte}
    {header : InstructionHeader} (approved : InstructionHeader)
    (hload : load discriminator bytes = .ok header) :
    load discriminator (writeHeader bytes approved) = .ok approved := by
  simp only [load, checkDiscriminator, bind_eq_ok, ensure_eq_ok] at hload
  obtain ⟨-, ⟨-, -, hdisc⟩, -⟩ := hload
  have hlayout : writeHeader bytes approved = layout discriminator approved []
      (bytes.drop (8 + InstructionHeader.pod.size)) := by
    rw [writeHeader, hdisc, layout, List.nil_append]
  rw [hlayout, load_layout]

/-- The accounts that were marked as signers are the wallet. -/
theorem writeAccounts_signers {wallet : Pubkey} {signers : List U16}
    {accounts : List AccountInfo} {index : ℕ} {area after : List Byte}
    (hwrite : writeAccounts wallet signers index accounts area = .ok after) :
    ∀ offset account, accounts[offset]? = some account →
      isSigner signers (index + offset) = true → account.key = wallet := by
  induction accounts generalizing index area with
  | nil =>
      intro offset account hnone
      exact absurd hnone (by simp)
  | cons first rest ih =>
      simp only [writeAccounts, bind_eq_ok, okOr_eq_ok] at hwrite
      obtain ⟨place, hplace, slot, -, signs, hsigner, next, -, hrest⟩ := hwrite
      have hlt : index < 256 ^ 2 ∧ place.val = index := by
        rw [tryIntoU16] at hplace
        split_ifs at hplace with hlt
        · obtain rfl := Option.some.inj hplace
          exact ⟨hlt, rfl⟩
        · exact absurd hplace (by simp [Except.toOption])
      intro offset account haccount hsigns
      cases offset with
      | zero =>
          obtain rfl : first = account := by simpa using haccount
          have hmem : decide (place ∈ signers) = true := by
            rw [show place = ⟨index, hlt.1⟩ from Fin.ext hlt.2,
              decide_mem_eq_isSigner]
            exact hsigns
          rw [requireSigner, if_pos hmem, ensure_eq_ok] at hsigner
          exact hsigner.symm
      | succ offset =>
          apply ih hrest offset account haccount
          rwa [show index + 1 + offset = index + (offset + 1) by omega]

section Created

variable {discriminator : Vector Byte 8}
  {createExecutorWalletPda : Pubkey → Byte → Pubkey} {executor : Pubkey}
  {walletBump : Byte} {rentReceiver programId : Pubkey} {data : List Byte}
  {accounts : List AccountInfo} {signers : List U16} {numAccounts dataLen : U16}
  {bytes : List Byte} {parts : InstructionRef}

theorem exists_writeAccounts {header : InstructionHeader}
    {before area written : List Byte} (hbefore : before.length = header.dataLen)
    (hremaining : initRemaining discriminator createExecutorWalletPda data accounts
      signers (layout discriminator header before area) = .ok written) :
    ∃ after, writeAccounts (header.wallet createExecutorWalletPda) signers 0
      accounts area = .ok after := by
  simp only [initRemaining, bind_eq_ok, load_layout, splitAt_layout,
    splitAt_header, Except.ok.injEq, exists_eq_left',
    InstructionHeader.pod.decode_encode, splitAt_append hbefore] at hremaining
  obtain ⟨-, -, after, hwrite, -⟩ := hremaining
  exact ⟨after, hwrite⟩

/-- A buffer that was initialized has the layout of one, and holds the
instruction. -/
theorem created_layout (hdata : data.length = dataLen)
    (haccounts : accounts.length = numAccounts)
    (hinit : loadAndInitInstruction discriminator createExecutorWalletPda executor
      walletBump rentReceiver programId data accounts signers
      (emptyBuffer numAccounts dataLen) = .ok (bytes, parts)) :
    ∃ area, bytes = layout discriminator (newHeader executor walletBump
        rentReceiver programId numAccounts dataLen) data area ∧
      InstructionRef.toInstruction createExecutorWalletPda
        { header := newHeader executor walletBump rentReceiver programId
            numAccounts dataLen, data, accounts := area } false =
        .ok (instructionOf programId data accounts signers) := by
  simp only [loadAndInitInstruction, bind_eq_ok] at hinit
  obtain ⟨written, hbuffer, loaded, -, hdone⟩ := hinit
  obtain ⟨rfl, rfl⟩ := Prod.mk.inj (Except.ok.inj hdone)
  have hsigners : SignersAllowed (createExecutorWalletPda executor walletBump)
      signers accounts := by
    rw [initBuffer, initHeader_emptyBuffer hdata haccounts] at hbuffer
    obtain ⟨area, hwrite⟩ := exists_writeAccounts List.length_replicate hbuffer
    intro signer hmem account haccount
    apply writeAccounts_signers hwrite signer.val account haccount
    rw [Nat.zero_add, isSigner, List.any_eq_true]
    exact ⟨signer, hmem, by simp⟩
  obtain ⟨area, -, hwritten, hbytes⟩ := written_layout discriminator
    createExecutorWalletPda rentReceiver programId hdata haccounts hsigners
  rw [hbytes] at hbuffer
  exact ⟨area, (Except.ok.inj hbuffer).symm,
    toInstruction_written createExecutorWalletPda data rfl haccounts hwritten⟩

end Created

/-! ## Approvals -/

theorem isApproved_set (flags : Bitmap maxFlags) :
    (flags.set InstructionFlag.approved.toIndex true).get
      InstructionFlag.approved.toIndex = true := by
  rw [Bitmap.get_set _ _ _ (by decide), if_pos rfl]

/-- What an approval requires of a header, and what it writes. -/
theorem approve_spec {header approved : InstructionHeader} {now : I64}
    {approver : Pubkey} (happrove : header.approve now approver = .ok approved) :
    header.isApproved = false ∧ header.approver = InstructionHeader.defaultPubkey ∧
      approver ≠ InstructionHeader.defaultPubkey ∧
      approved.isApproved = true ∧
      approved = { header with
        flags := header.flags.set InstructionFlag.approved.toIndex true
        approvedAt := now
        approver } := by
  simp only [InstructionHeader.approve, bind_eq_ok, ensure_eq_ok] at happrove
  obtain ⟨-, hfresh, -, hdefault, -, hreal, hdone⟩ := happrove
  obtain rfl := Except.ok.inj hdone
  exact ⟨hfresh, hdefault, hreal, isApproved_set header.flags, rfl⟩

section Program

variable {K : Type} {derive : Derivations K}

/-- The buffer holds a header of the executor that has not been approved, and
is approved. -/
def Approved (derive : Derivations K) (now : I64) (executor approver : Pubkey)
    (before after : Option (List Byte)) : Prop :=
  ∃ bytes header approved, before = some bytes ∧
    load derive.discriminator bytes = .ok header ∧ header.executor = executor ∧
    header.approve now approver = .ok approved ∧
    after = some (writeHeader bytes approved)

/-- A buffer is approved no more than once. -/
theorem Approved.not_again {now later : I64} {executor other approver next : Pubkey}
    {before between after : Option (List Byte)}
    (hfirst : Approved derive now executor approver before between)
    (hsecond : Approved derive later other next between after) : False := by
  obtain ⟨bytes, header, approved, -, hload, -, happrove, rfl⟩ := hfirst
  obtain ⟨written, reread, twice, hwritten, hreload, -, hagain, -⟩ := hsecond
  obtain rfl := Option.some.inj hwritten
  rw [load_writeHeader approved hload] at hreload
  obtain rfl := Except.ok.inj hreload
  obtain ⟨-, -, -, hdone, -⟩ := approve_spec happrove
  obtain ⟨hfresh, -⟩ := approve_spec hagain
  rw [hdone] at hfresh
  exact absurd hfresh (by simp)

theorem account_eq_ok {α : Type} {accounts : Pubkey → Option α} {address : Pubkey}
    {found : α} :
    World.account accounts address = .ok found ↔ accounts address = some found :=
  okOr_eq_ok

variable {world after : World K} {now : I64} {executor approver : Pubkey}

/-- The loop approves every listed buffer, once, and nothing else changes. -/
theorem approveEach_spec {accounts : List AccountInfo}
    (happrove : approveEach derive now executor approver accounts world =
      .ok after) :
    (accounts.map (·.key)).Nodup ∧
      (∃ buffers, after = { world with buffers }) ∧
      (∀ buffer, buffer ∉ accounts.map (·.key) →
        after.buffers buffer = world.buffers buffer) ∧
      ∀ buffer ∈ accounts.map (·.key), Approved derive now executor approver
        (world.buffers buffer) (after.buffers buffer) := by
  induction accounts generalizing world with
  | nil =>
      obtain rfl := Except.ok.inj happrove
      exact ⟨List.nodup_nil, ⟨_, rfl⟩, fun _ _ => rfl, by simp⟩
  | cons account rest ih =>
      simp only [approveEach, bind_eq_ok, ensure_eq_ok, account_eq_ok] at happrove
      obtain ⟨-, -, bytes, hbytes, header, hload, -, hexecutor, approved, hone,
        hrest⟩ := happrove
      obtain ⟨hnodup, ⟨buffers, rfl⟩, hframe, hall⟩ := ih hrest
      have hwritten : (world.setBuffer account.key
          (some (writeHeader bytes approved))).buffers account.key =
          some (writeHeader bytes approved) := by
        simp [World.setBuffer]
      have hfirst : Approved derive now executor approver
          (world.buffers account.key) (some (writeHeader bytes approved)) :=
        ⟨bytes, header, approved, hbytes, hload, hexecutor, hone, rfl⟩
      have hfresh : account.key ∉ rest.map (·.key) := by
        intro hmem
        have hagain := hall account.key hmem
        rw [hwritten] at hagain
        exact hfirst.not_again hagain
      have hother : ∀ buffer, buffer ≠ account.key → (world.setBuffer account.key
          (some (writeHeader bytes approved))).buffers buffer =
          world.buffers buffer := by
        intro buffer hne
        simp [World.setBuffer, hne]
      refine ⟨List.nodup_cons.mpr ⟨hfresh, hnodup⟩, ⟨buffers, rfl⟩, ?_, ?_⟩
      · intro buffer hnot
        rw [List.map_cons, List.mem_cons, not_or] at hnot
        rw [hframe buffer hnot.2, hother buffer hnot.1]
      · intro buffer hmem
        by_cases hsame : buffer = account.key
        · subst hsame
          rw [hframe account.key hfresh, hwritten]
          exact hfirst
        · have hin := hall buffer
            ((List.mem_cons.mp hmem).resolve_left hsame)
          rwa [hother buffer hsame] at hin

/-- The loop closes every listed buffer, and nothing else changes. -/
theorem cancelEach_spec {rentReceiver : Pubkey} {accounts : List AccountInfo}
    (hcancel : cancelEach derive executor rentReceiver accounts world =
      .ok after) :
    (∃ buffers, after = { world with buffers }) ∧
      ∀ buffer, after.buffers buffer =
        if buffer ∈ accounts.map (·.key) then none else world.buffers buffer := by
  induction accounts generalizing world with
  | nil =>
      obtain rfl := Except.ok.inj hcancel
      exact ⟨⟨_, rfl⟩, fun _ => by simp⟩
  | cons account rest ih =>
      simp only [cancelEach, bind_eq_ok, ensure_eq_ok, account_eq_ok] at hcancel
      obtain ⟨-, -, bytes, -, header, -, -, -, -, -, hrest⟩ := hcancel
      obtain ⟨⟨buffers, rfl⟩, hall⟩ := ih hrest
      refine ⟨⟨buffers, rfl⟩, ?_⟩
      intro buffer
      rw [hall]
      by_cases hsame : buffer = account.key
      · simp [World.setBuffer, hsame]
      · simp [World.setBuffer, hsame]

/-! ## What a transaction does -/

/-- The buffers that a call creates, approves, cancels or executes. -/
def Call.buffers : Call → List Pubkey
  | .createInstructionBuffer _ _ buffer _ _ _ _ _ _ => [buffer]
  | .approveInstruction _ _ buffer _ => [buffer]
  | .approveInstructions _ _ accounts _ => accounts.map (·.key)
  | .cancelInstruction _ _ _ buffer => [buffer]
  | .cancelInstructions _ _ _ accounts => accounts.map (·.key)
  | .executeInstruction _ _ _ _ buffer => [buffer]
  | .role _ _ | .restart _ | .updateLastRestartedSlot _ | .initializeConfig _ _
  | .increaseDelay _ _ _ | .initializeExecutor _ _ => []

/-- The transactions of a run that touched a buffer, the latest first. -/
def touching (buffer : Pubkey) (history : List (Moment K)) : List (Moment K) :=
  history.filter fun moment => buffer ∈ moment.transaction.call.buffers

/-- The call approves the buffer, and does so once. -/
def Call.Approves (call : Call) (executor buffer : Pubkey) (role : RoleName) :
    Prop :=
  ∃ store, call = .approveInstruction store executor buffer role ∨
    ∃ accounts, call = .approveInstructions store executor accounts role ∧
      (accounts.map (·.key)).count buffer = 1

/-- The transaction created the buffer for the instruction. -/
def Creates (creation : Moment K) (executor buffer : Pubkey)
    (instruction : Instruction) : Prop :=
  ∃ store program numAccounts dataLen data signers accounts,
    creation.transaction.call = .createInstructionBuffer store executor buffer
      program numAccounts dataLen data signers accounts ∧
    instruction = instructionOf program data (accounts.take numAccounts.val) signers

theorem loadExecutor_eq_ok {store : Pubkey} {account : Executor} :
    loadExecutor world store executor = .ok account ↔
      world.executors executor = some account ∧ account.store = store := by
  simp only [loadExecutor, bind_eq_ok, account_eq_ok, ensure_eq_ok]
  constructor
  · rintro ⟨found, hfound, -, hstore, hdone⟩
    obtain rfl := Except.ok.inj hdone
    exact ⟨hfound, hstore⟩
  · rintro ⟨hfound, hstore⟩
    exact ⟨account, hfound, (), hstore, rfl⟩

/-- The executor is the one of a role. -/
def ExecutorOf (world : World K) (store executor : Pubkey) (role : RoleName) :
    Prop :=
  ∃ account, world.executors executor = some account ∧ account.store = store ∧
    account.roleName = .ok role

theorem executorOf_of_load {store : Pubkey} {role : RoleName} {account : Executor}
    (hload : loadExecutorOf derive world store executor role = .ok account) :
    ExecutorOf world store executor role := by
  simp only [loadExecutorOf, bind_eq_ok, loadExecutor_eq_ok, ensure_eq_ok] at hload
  obtain ⟨found, ⟨hfound, hstore⟩, name, hname, -, rfl, -⟩ := hload
  exact ⟨found, hfound, hstore, hname⟩

/-! ## What a transaction leaves alone -/

/-- Executors stay as they are, delays do not decrease, configurations stand at
the address of their store, and other buffers are not touched. -/
structure Frame (derive : Derivations K) (world : World K) (call : Call)
    (after : World K) : Prop where
  executors : ∀ executor account, world.executors executor = some account →
    after.executors executor = some account
  delay : ∀ config account, world.configs config = some account →
    ∃ kept, after.configs config = some kept ∧ kept.store = account.store ∧
      account.delay ≤ kept.delay
  address : ∀ config account, after.configs config = some account →
    config = derive.configPda account.store ∨
      ∃ before, world.configs config = some before ∧ before.store = account.store
  buffers : ∀ buffer, buffer ∉ call.buffers →
    after.buffers buffer = world.buffers buffer

theorem Frame.of_eq {call : Call} (hexecutors : after.executors = world.executors)
    (hconfigs : after.configs = world.configs)
    (hbuffers : ∀ buffer, buffer ∉ call.buffers →
      after.buffers buffer = world.buffers buffer) :
    Frame derive world call after where
  executors := by
    intro executor account haccount
    rw [hexecutors]
    exact haccount
  delay := by
    intro config account haccount
    rw [hconfigs]
    exact ⟨account, haccount, rfl, le_refl _⟩
  address := by
    intro config account haccount
    rw [hconfigs] at haccount
    exact .inr ⟨account, haccount, rfl⟩
  buffers := hbuffers

theorem Frame.of_setBuffer {call : Call} {buffer : Pubkey}
    {bytes : Option (List Byte)} (hmem : buffer ∈ call.buffers) :
    Frame derive world call (world.setBuffer buffer bytes) :=
  .of_eq rfl rfl fun other hother => by
    have hne : other ≠ buffer := by
      rintro rfl
      exact hother hmem
    simp [World.setBuffer, hne]

theorem Frame.of_setConfig {call : Call} {config : Pubkey}
    {account : TimelockConfig} (hnew : config = derive.configPda account.store ∨
      ∃ before, world.configs config = some before ∧ before.store = account.store)
    (hdelay : ∀ before, world.configs config = some before →
      account.store = before.store ∧ before.delay ≤ account.delay) :
    Frame derive world call (world.setConfig config account) where
  executors _ _ haccount := haccount
  delay := by
    intro other found hfound
    by_cases hsame : other = config
    · subst hsame
      obtain ⟨hstore, hle⟩ := hdelay found hfound
      exact ⟨account, by simp [World.setConfig], hstore, hle⟩
    · exact ⟨found, by simpa [World.setConfig, hsame] using hfound, rfl, le_refl _⟩
  address := by
    intro other found hfound
    by_cases hsame : other = config
    · subst hsame
      obtain rfl : account = found := by simpa [World.setConfig] using hfound
      exact hnew
    · exact .inr ⟨found, by simpa [World.setConfig, hsame] using hfound, rfl⟩
  buffers _ _ := rfl

theorem Frame.of_setExecutor {call : Call} {account : Executor}
    (hfree : world.executors executor = none) :
    Frame derive world call (world.setExecutor executor account) where
  executors := by
    intro other found hfound
    have hne : other ≠ executor := by
      rintro rfl
      rw [hfree] at hfound
      exact absurd hfound (by simp)
    simpa [World.setExecutor, hne] using hfound
  delay _ account haccount := ⟨account, haccount, rfl, le_refl _⟩
  address _ account haccount := .inr ⟨account, haccount, rfl⟩
  buffers _ _ := rfl

theorem increaseDelay_delay {config increased : TimelockConfig} {delta : U32}
    (hincrease : config.increaseDelay delta = .ok increased) :
    increased.store = config.store ∧ config.delay ≤ increased.delay := by
  rw [TimelockConfig.increaseDelay] at hincrease
  split_ifs at hincrease with hfits
  obtain rfl := Except.ok.inj hincrease
  exact ⟨rfl, Nat.le_add_right _ _⟩

/-! ## Role checks -/

variable [LinearOrder K]

/-- The store accepts the account for the role: the account holds the role, or,
while the cluster has restarted and the store has not been updated since, the
role of the restart administrators. -/
def Accepted (derive : Derivations K) (world : World K) (store authority : Pubkey)
    (role : RoleName) : Prop :=
  ∃ account, world.stores store = some account ∧
    (account.lastRestartedSlot = world.lastRestartSlot ∧
        account.role.hasRole derive.toKey authority role = .ok true ∨
      account.lastRestartedSlot ≠ world.lastRestartSlot ∧
        account.role.hasRole derive.toKey authority restartAdmin = .ok true)

theorem checkRole_eq_ok {store authority : Pubkey} {role : RoleName} :
    checkRole derive world store authority role = .ok true ↔
      Accepted derive world store authority role := by
  simp only [checkRole, bind_eq_ok, account_eq_ok, mapError_eq_ok, Accepted]
  apply exists_congr
  intro account
  apply and_congr_right
  intro _
  by_cases hslot : account.lastRestartedSlot = world.lastRestartSlot
  · simp [Store.hasRole, Store.hasRestarted, hslot]
  · simp only [Store.hasRole, Store.hasRestarted, hslot, ne_eq,
      not_false_eq_true, decide_true, ↓reduceIte, false_and, false_or, true_and,
      bind_eq_ok]
    constructor
    · rintro ⟨isAdmin, hadmin, hdone⟩
      cases isAdmin with
      | true => exact hadmin
      | false => exact absurd hdone (by simp)
    · intro hadmin
      exact ⟨true, hadmin, rfl⟩

theorem only_eq_ok {store authority : Pubkey} {role : RoleName} {result : Unit} :
    only derive world store authority role = .ok result ↔
      Accepted derive world store authority role := by
  simp only [only, bind_eq_ok, ensure_eq_ok]
  rw [← checkRole_eq_ok]
  constructor
  · rintro ⟨hasRole, hcheck, hyes⟩
    rw [hyes] at hcheck
    exact hcheck
  · intro hcheck
    exact ⟨true, hcheck, rfl⟩

/-- Every transaction keeps the frame. -/
theorem perform_frame {transaction : Transaction} {invoked : Option Instruction}
    (hperform : perform derive world transaction = .ok (after, invoked)) :
    Frame derive world transaction.call after := by
  obtain ⟨now, authority, call⟩ := transaction
  cases call with
  | restart slot =>
      obtain ⟨rfl, -⟩ := Prod.mk.inj (Except.ok.inj hperform)
      exact .of_eq rfl rfl fun _ _ => rfl
  | role store call =>
      simp only [perform, performRole, map_eq_ok, bind_eq_ok,
        Except.ok.injEq] at hperform
      obtain ⟨_, ⟨account, -, role, -, rfl⟩, hdone⟩ := hperform
      obtain ⟨rfl, -⟩ := Prod.mk.inj hdone
      exact .of_eq rfl rfl fun _ _ => rfl
  | updateLastRestartedSlot store =>
      simp only [perform, updateLastRestartedSlot, map_eq_ok, bind_eq_ok,
        Except.ok.injEq] at hperform
      obtain ⟨_, ⟨account, -, updated, -, rfl⟩, hdone⟩ := hperform
      obtain ⟨rfl, -⟩ := Prod.mk.inj hdone
      exact .of_eq rfl rfl fun _ _ => rfl
  | initializeConfig store delay =>
      simp only [perform, initializeConfig, map_eq_ok, bind_eq_ok,
        Except.ok.injEq, ensure_eq_ok] at hperform
      obtain ⟨_, ⟨-, hfree, -, -, -, -, -, -, rfl⟩, hdone⟩ := hperform
      obtain ⟨rfl, -⟩ := Prod.mk.inj hdone
      refine Frame.of_setConfig (.inl rfl) ?_
      intro before hbefore
      rw [hfree] at hbefore
      exact absurd hbefore (by simp)
  | increaseDelay store config delta =>
      simp only [perform, increaseDelay, loadConfig, map_eq_ok, bind_eq_ok,
        Except.ok.injEq, ensure_eq_ok, account_eq_ok] at hperform
      obtain ⟨_, ⟨account, ⟨found, hfound, -, -, rfl⟩, -, -, -, -, increased,
        hincrease, rfl⟩, hdone⟩ := hperform
      obtain ⟨rfl, -⟩ := Prod.mk.inj hdone
      obtain ⟨hstore, hdelay⟩ := increaseDelay_delay hincrease
      apply Frame.of_setConfig (.inr ⟨found, hfound, hstore.symm⟩)
      intro before hbefore
      rw [hfound, Option.some.injEq] at hbefore
      subst hbefore
      exact ⟨hstore, hdelay⟩
  | initializeExecutor store role =>
      simp only [perform, initializeExecutor, map_eq_ok, bind_eq_ok,
        Except.ok.injEq, ensure_eq_ok] at hperform
      obtain ⟨_, ⟨roleBytes, -, -, hfree, rfl⟩, hdone⟩ := hperform
      obtain ⟨rfl, -⟩ := Prod.mk.inj hdone
      exact .of_setExecutor hfree
  | createInstructionBuffer store executor buffer program numAccounts dataLen data
      signers accounts =>
      simp only [perform, createInstructionBuffer, map_eq_ok, bind_eq_ok,
        Except.ok.injEq] at hperform
      obtain ⟨_, ⟨account, -, -, -, -, -, -, -, -, -, name, -, result, -, rfl⟩,
        hdone⟩ := hperform
      obtain ⟨rfl, -⟩ := Prod.mk.inj hdone
      exact .of_setBuffer (by simp [Call.buffers])
  | approveInstruction store executor buffer role =>
      simp only [perform, approveInstruction, map_eq_ok, bind_eq_ok,
        Except.ok.injEq] at hperform
      obtain ⟨_, ⟨account, -, bytes, -, header, -, -, -, -, -, approved, -, rfl⟩,
        hdone⟩ := hperform
      obtain ⟨rfl, -⟩ := Prod.mk.inj hdone
      exact .of_setBuffer (by simp [Call.buffers])
  | approveInstructions store executor accounts role =>
      simp only [perform, approveInstructions, map_eq_ok, bind_eq_ok] at hperform
      obtain ⟨_, ⟨account, -, -, -, hall⟩, hdone⟩ := hperform
      obtain ⟨rfl, -⟩ := Prod.mk.inj hdone
      obtain ⟨-, ⟨buffers, rfl⟩, hframe, -⟩ := approveEach_spec hall
      exact .of_eq rfl rfl hframe
  | cancelInstruction store executor rentReceiver buffer =>
      simp only [perform, cancelInstruction, map_eq_ok, bind_eq_ok,
        Except.ok.injEq] at hperform
      obtain ⟨_, ⟨account, -, bytes, -, header, -, -, -, -, -, -, -, rfl⟩,
        hdone⟩ := hperform
      obtain ⟨rfl, -⟩ := Prod.mk.inj hdone
      exact .of_setBuffer (by simp [Call.buffers])
  | cancelInstructions store executor rentReceiver accounts =>
      simp only [perform, cancelInstructions, map_eq_ok, bind_eq_ok] at hperform
      obtain ⟨_, ⟨account, -, -, -, hall⟩, hdone⟩ := hperform
      obtain ⟨rfl, -⟩ := Prod.mk.inj hdone
      obtain ⟨⟨buffers, rfl⟩, hclosed⟩ := cancelEach_spec hall
      refine .of_eq rfl rfl ?_
      intro buffer hnot
      exact (hclosed buffer).trans (if_neg hnot)
  | executeInstruction store config executor rentReceiver buffer =>
      simp only [perform, executeInstruction, map_eq_ok, bind_eq_ok,
        Except.ok.injEq] at hperform
      obtain ⟨_, ⟨configAccount, -, account, -, bytes, -, header, -, -, -, -, -, -,
        -, parts, -, approver, -, role, -, hasRole, -, -, -, -, -, invocation, -,
        rfl⟩, hdone⟩ := hperform
      obtain ⟨rfl, -⟩ := Prod.mk.inj hdone
      exact .of_setBuffer (by simp [Call.buffers])

/-! ## What is known of a buffer -/

/-- The buffer was created for its instruction, and its header tells whether it
was approved since. -/
def Known (derive : Derivations K) (world : World K) (history : List (Moment K))
    (buffer : Pubkey) (bytes : List Byte) : Prop :=
  ∃ header data area creation older instruction,
    bytes = layout derive.discriminator header data area ∧
    data.length = header.dataLen ∧
    Creates creation header.executor buffer instruction ∧
    InstructionRef.toInstruction derive.createExecutorWalletPda
      { header, data, accounts := area } false = .ok instruction ∧
    (header.isApproved = false ∧
        header.approver = InstructionHeader.defaultPubkey ∧
        touching buffer history = creation :: older ∨
      header.isApproved = true ∧ ∃ approval role store,
        touching buffer history = approval :: creation :: older ∧
        approval.transaction.call.Approves header.executor buffer role ∧
        approval.transaction.authority = header.approver ∧
        approval.transaction.now = header.approvedAt ∧
        ExecutorOf world store header.executor role ∧
        Accepted derive approval.before store header.approver
          (timelockedRole role))

omit [LinearOrder K] in
theorem touching_cons_of_mem {moment : Moment K} {history : List (Moment K)}
    {buffer : Pubkey} (hmem : buffer ∈ moment.transaction.call.buffers) :
    touching buffer (moment :: history) = moment :: touching buffer history := by
  simp [touching, hmem]

omit [LinearOrder K] in
theorem touching_cons_of_not_mem {moment : Moment K}
    {history : List (Moment K)} {buffer : Pubkey}
    (hnot : buffer ∉ moment.transaction.call.buffers) :
    touching buffer (moment :: history) = touching buffer history := by
  simp [touching, hnot]

omit [LinearOrder K] in
theorem ExecutorOf.kept {store executor : Pubkey} {role : RoleName} {call : Call}
    (hof : ExecutorOf world store executor role)
    (hframe : Frame derive world call after) :
    ExecutorOf after store executor role := by
  obtain ⟨account, haccount, hstore, hname⟩ := hof
  exact ⟨account, hframe.executors executor account haccount, hstore, hname⟩

/-- A transaction that does not touch the buffer leaves what is known of it. -/
theorem Known.kept {history : List (Moment K)} {moment : Moment K}
    {buffer : Pubkey} {bytes : List Byte}
    (hknown : Known derive world history buffer bytes)
    (hframe : Frame derive world moment.transaction.call after)
    (hnot : buffer ∉ moment.transaction.call.buffers) :
    Known derive after (moment :: history) buffer bytes := by
  obtain ⟨header, data, area, creation, older, instruction, hbytes, hdata,
    hcreates, hread, hstate⟩ := hknown
  refine ⟨header, data, area, creation, older, instruction, hbytes, hdata,
    hcreates, hread, ?_⟩
  rw [touching_cons_of_not_mem hnot]
  rcases hstate with hfresh | ⟨happroved, approval, role, store, htouching,
    hcall, hauthority, hnow, hof, haccepted⟩
  · exact .inl hfresh
  · exact .inr ⟨happroved, approval, role, store, htouching, hcall, hauthority,
      hnow, hof.kept hframe, haccepted⟩

/-- A new buffer has not been approved. -/
theorem newHeader_fresh (executor : Pubkey) (walletBump : Byte)
    (rentReceiver program : Pubkey) (numAccounts dataLen : U16) :
    (newHeader executor walletBump rentReceiver program numAccounts
        dataLen).isApproved = false ∧
      (newHeader executor walletBump rentReceiver program numAccounts
        dataLen).approver = InstructionHeader.defaultPubkey := by
  constructor
  · change (InstructionHeader.pod.decode
      (List.replicate InstructionHeader.pod.size 0)).flags.get _ = false
    decide +kernel
  · change (InstructionHeader.pod.decode
      (List.replicate InstructionHeader.pod.size 0)).approver = _
    decide +kernel

/-- What is known of a buffer that has just been created. -/
theorem Known.created {history : List (Moment K)}
    {authority store executor buffer program : Pubkey} {now : I64}
    {numAccounts dataLen : U16} {data : List Byte} {signers : List U16}
    {accounts : List AccountInfo} {invoked : Option Instruction}
    (hcreate : createInstructionBuffer derive world authority store executor buffer
      program numAccounts dataLen data signers accounts = .ok after) :
    ∃ bytes, after.buffers buffer = some bytes ∧
      Known derive after ({ before := world, invoked, transaction :=
        { now, authority, call := .createInstructionBuffer store executor buffer
            program numAccounts dataLen data signers accounts } } :: history)
        buffer bytes := by
  simp only [createInstructionBuffer, bind_eq_ok, ensure_eq_ok,
    Except.ok.injEq] at hcreate
  obtain ⟨account, -, -, -, -, -, -, hcount, -, hdata, -, -, ⟨bytes, parts⟩,
    hinit, rfl⟩ := hcreate
  have hlength : (accounts.take numAccounts.val).length = numAccounts :=
    List.length_take_of_le hcount
  obtain ⟨area, rfl, hread⟩ := created_layout hdata hlength hinit
  obtain ⟨hfresh, hdefault⟩ := newHeader_fresh executor account.walletBump
    authority program numAccounts dataLen
  refine ⟨_, by simp [World.setBuffer], _, data, area, _, touching buffer history,
    _, rfl, hdata, ?_, hread, .inl ⟨hfresh, hdefault,
      touching_cons_of_mem (by simp [Call.buffers])⟩⟩
  exact ⟨store, program, numAccounts, dataLen, data, signers, accounts, rfl, rfl⟩

/-- What is known of a buffer that has just been approved. -/
theorem Known.approved (moment : Moment K) {history : List (Moment K)}
    {store executor buffer : Pubkey} {role : RoleName} {bytes : List Byte}
    (hknown : Known derive world history buffer bytes)
    (hbefore : world.buffers buffer = some bytes)
    (happroved : Approved derive moment.transaction.now executor
      moment.transaction.authority (world.buffers buffer) (after.buffers buffer))
    (hcall : moment.transaction.call.Approves executor buffer role)
    (hmem : buffer ∈ moment.transaction.call.buffers)
    (hof : ExecutorOf after store executor role)
    (haccepted : Accepted derive moment.before store moment.transaction.authority
      (timelockedRole role)) :
    ∃ written, after.buffers buffer = some written ∧
      Known derive after (moment :: history) buffer written := by
  obtain ⟨header, data, area, creation, older, instruction, rfl, hdata, hcreates,
    hread, hstate⟩ := hknown
  obtain ⟨found, foundHeader, approved, hfound, hload, rfl, happrove, hwritten⟩ :=
    happroved
  rw [hbefore, Option.some.injEq] at hfound
  subst hfound
  rw [load_layout, Except.ok.injEq] at hload
  subst hload
  obtain ⟨hfresh, -, -, hdone, rfl⟩ := approve_spec happrove
  rw [writeHeader_layout] at hwritten
  refine ⟨_, hwritten, _, data, area, creation, older, instruction, rfl, hdata,
    hcreates, hread, .inr ⟨hdone, moment, role, store, ?_, hcall, rfl, rfl, hof,
      haccepted⟩⟩
  rw [touching_cons_of_mem hmem]
  rcases hstate with ⟨-, -, htouching⟩ | ⟨hagain, -⟩
  · rw [htouching]
  · rw [hfresh] at hagain
    exact absurd hagain (by simp)

/-! ## Runs -/

/-- What every run keeps of the accounts. -/
structure Holds (derive : Derivations K) (history : List (Moment K))
    (world : World K) : Prop where
  known : ∀ buffer bytes, world.buffers buffer = some bytes →
    Known derive world history buffer bytes
  address : ∀ config account, world.configs config = some account →
    config = derive.configPda account.store

/-- A run starts with no account of the program. -/
structure Unused (world : World K) : Prop where
  configs : world.configs = fun _ => none
  executors : world.executors = fun _ => none
  buffers : world.buffers = fun _ => none

theorem Holds.initial (hunused : Unused world) : Holds derive [] world where
  known := by
    intro buffer bytes hbytes
    rw [hunused.buffers] at hbytes
    exact absurd hbytes (by simp)
  address := by
    intro config account haccount
    rw [hunused.configs] at haccount
    exact absurd haccount (by simp)

/-- What is known of the buffers that a transaction touches. -/
theorem known_touched {history : List (Moment K)} {transaction : Transaction}
    {invoked : Option Instruction} (hholds : Holds derive history world)
    (hperform : perform derive world transaction = .ok (after, invoked))
    {buffer : Pubkey} {bytes : List Byte}
    (hmem : buffer ∈ transaction.call.buffers)
    (hbytes : after.buffers buffer = some bytes) :
    Known derive after ({ before := world, transaction, invoked } :: history)
      buffer bytes := by
  have hframe := perform_frame hperform
  obtain ⟨now, authority, call⟩ := transaction
  cases call with
  | role | restart | updateLastRestartedSlot | initializeConfig | increaseDelay
  | initializeExecutor => exact absurd hmem (by simp [Call.buffers])
  | createInstructionBuffer store executor created program numAccounts dataLen data
      signers accounts =>
      simp only [perform, map_eq_ok] at hperform
      obtain ⟨_, hcreate, hdone⟩ := hperform
      obtain ⟨rfl, rfl⟩ := Prod.mk.inj hdone
      obtain rfl : buffer = created := by simpa [Call.buffers] using hmem
      obtain ⟨written, hwritten, hknown⟩ := Known.created hcreate
      rw [hbytes, Option.some.injEq] at hwritten
      rw [hwritten]
      exact hknown
  | approveInstruction store executor target role =>
      simp only [perform, map_eq_ok] at hperform
      obtain ⟨_, happrove, hdone⟩ := hperform
      obtain ⟨rfl, rfl⟩ := Prod.mk.inj hdone
      obtain rfl : buffer = target := by simpa [Call.buffers] using hmem
      simp only [approveInstruction, bind_eq_ok, ensure_eq_ok, account_eq_ok,
        only_eq_ok, Except.ok.injEq] at happrove
      obtain ⟨account, hload, before, hbefore, header, hheader, -, hexecutor, -,
        haccepted, approved, hone, rfl⟩ := happrove
      have hof := (executorOf_of_load hload).kept hframe
      have happroved : Approved derive now executor authority (world.buffers buffer)
          ((world.setBuffer buffer (some (writeHeader before approved))).buffers
            buffer) :=
        ⟨before, header, approved, hbefore, hheader, hexecutor, hone,
          by simp [World.setBuffer]⟩
      obtain ⟨written, hwritten, hknown⟩ := Known.approved
        ⟨world, ⟨now, authority, .approveInstruction store executor buffer role⟩,
          none⟩ (hholds.known buffer before hbefore) hbefore happroved
        ⟨store, .inl rfl⟩ hmem hof haccepted
      rw [hbytes, Option.some.injEq] at hwritten
      rw [hwritten]
      exact hknown
  | approveInstructions store executor accounts role =>
      simp only [perform, map_eq_ok] at hperform
      obtain ⟨_, happrove, hdone⟩ := hperform
      obtain ⟨rfl, rfl⟩ := Prod.mk.inj hdone
      simp only [approveInstructions, bind_eq_ok, only_eq_ok] at happrove
      obtain ⟨account, hload, -, haccepted, hall⟩ := happrove
      obtain ⟨hnodup, -, -, heach⟩ := approveEach_spec hall
      have hof := (executorOf_of_load hload).kept hframe
      have happroved := heach buffer hmem
      obtain ⟨before, -, -, hbefore, -⟩ := id happroved
      obtain ⟨written, hwritten, hknown⟩ := Known.approved
        ⟨world, ⟨now, authority, .approveInstructions store executor accounts role⟩,
          none⟩ (hholds.known buffer before hbefore) hbefore happroved
        ⟨store, .inr ⟨accounts, rfl, List.count_eq_one_of_mem hnodup hmem⟩⟩ hmem
        hof haccepted
      rw [hbytes, Option.some.injEq] at hwritten
      rw [hwritten]
      exact hknown
  | cancelInstruction store executor rentReceiver target =>
      simp only [perform, cancelInstruction, map_eq_ok, bind_eq_ok,
        Except.ok.injEq] at hperform
      obtain ⟨_, ⟨account, -, before, -, header, -, -, -, -, -, -, -, rfl⟩,
        hdone⟩ := hperform
      obtain ⟨rfl, rfl⟩ := Prod.mk.inj hdone
      obtain rfl : buffer = target := by simpa [Call.buffers] using hmem
      exact absurd hbytes (by simp [World.setBuffer])
  | cancelInstructions store executor rentReceiver accounts =>
      simp only [perform, cancelInstructions, map_eq_ok, bind_eq_ok] at hperform
      obtain ⟨_, ⟨account, -, -, -, hall⟩, hdone⟩ := hperform
      obtain ⟨rfl, rfl⟩ := Prod.mk.inj hdone
      obtain ⟨-, hclosed⟩ := cancelEach_spec hall
      have hnone := (hclosed buffer).trans (if_pos hmem)
      rw [hnone] at hbytes
      exact absurd hbytes (by simp)
  | executeInstruction store config executor rentReceiver target =>
      simp only [perform, executeInstruction, map_eq_ok, bind_eq_ok,
        Except.ok.injEq] at hperform
      obtain ⟨_, ⟨configAccount, -, account, -, before, -, header, -, -, -, -, -, -,
        -, parts, -, approver, -, role, -, hasRole, -, -, -, -, -, invocation, -,
        rfl⟩, hdone⟩ := hperform
      obtain ⟨rfl, rfl⟩ := Prod.mk.inj hdone
      obtain rfl : buffer = target := by simpa [Call.buffers] using hmem
      exact absurd hbytes (by simp [World.setBuffer])

theorem Holds.step {history : List (Moment K)} {transaction : Transaction}
    {moment : Moment K} (hholds : Holds derive history world)
    (hstep : step derive world transaction = .ok (after, moment)) :
    Holds derive (moment :: history) after := by
  simp only [Timelock.step, bind_eq_ok, Except.ok.injEq, Prod.mk.injEq] at hstep
  obtain ⟨⟨next, invoked⟩, hperform, rfl, rfl⟩ := hstep
  have hframe := perform_frame hperform
  constructor
  · intro buffer bytes hbytes
    by_cases hmem : buffer ∈ transaction.call.buffers
    · exact known_touched hholds hperform hmem hbytes
    · rw [hframe.buffers buffer hmem] at hbytes
      exact (hholds.known buffer bytes hbytes).kept hframe hmem
  · intro config account haccount
    rcases hframe.address config account haccount with hnew | ⟨before, hbefore, hstore⟩
    · exact hnew
    · rw [← hstore]
      exact hholds.address config before hbefore

/-- The execution is of the instruction for which its buffer was created.  Since
then the buffer has been approved once, and nothing else has happened to it; the
role of its executor was accepted of the approver then and is accepted now, and
the delay in force has passed. -/
def ExecutedSafely (derive : Derivations K)
    (accepted : World K → Pubkey → Pubkey → RoleName → Prop) (due : I64 → ℕ → ℤ)
    (earlier : List (Moment K)) (execution : Moment K) : Prop :=
  ∀ store config executor rentReceiver buffer,
    execution.transaction.call =
      .executeInstruction store config executor rentReceiver buffer →
    ∃ creation approval older instruction role account,
      touching buffer earlier = approval :: creation :: older ∧
      Creates creation executor buffer instruction ∧
      execution.invoked = some instruction ∧
      approval.transaction.call.Approves executor buffer role ∧
      ExecutorOf execution.before store executor role ∧
      accepted approval.before store approval.transaction.authority
        (timelockedRole role) ∧
      accepted execution.before store approval.transaction.authority
        (timelockedRole role) ∧
      config = derive.configPda store ∧
      execution.before.configs config = some account ∧
      due approval.transaction.now account.delay ≤ execution.transaction.now.val

omit [LinearOrder K] in
theorem loadConfig_eq_ok {store config : Pubkey} {account : TimelockConfig} :
    loadConfig world store config = .ok account ↔
      world.configs config = some account ∧ account.store = store := by
  simp only [loadConfig, bind_eq_ok, account_eq_ok, ensure_eq_ok]
  constructor
  · rintro ⟨found, hfound, -, hstore, hdone⟩
    obtain rfl := Except.ok.inj hdone
    exact ⟨hfound, hstore⟩
  · rintro ⟨hfound, hstore⟩
    exact ⟨account, hfound, (), hstore, rfl⟩

/-- An execution finds an approved buffer. -/
theorem executed_safely {history : List (Moment K)} {transaction : Transaction}
    {moment : Moment K} (hholds : Holds derive history world)
    (hstep : step derive world transaction = .ok (after, moment)) :
    ExecutedSafely derive (Accepted derive)
      InstructionHeader.saturatingAddUnsigned history moment := by
  simp only [Timelock.step, bind_eq_ok, Except.ok.injEq, Prod.mk.injEq] at hstep
  obtain ⟨⟨next, invoked⟩, hperform, rfl, rfl⟩ := hstep
  intro store config executor rentReceiver buffer hcall
  obtain ⟨now, authority, call⟩ := transaction
  simp only at hcall
  subst hcall
  simp only [perform, executeInstruction, map_eq_ok, bind_eq_ok, account_eq_ok,
    ensure_eq_ok, loadConfig_eq_ok, loadExecutor_eq_ok, okOr_eq_ok,
    Except.ok.injEq] at hperform
  obtain ⟨_, ⟨configAccount, ⟨hconfig, hconfigStore⟩, account, ⟨hexecutor, hstore⟩,
    bytes, hbytes, header, hload, -, hheader, -, -, -, -, parts, hparts, approver,
    hsome, role, hrole, hasRole, hchecked, -, hhas, -, hdue, invocation, hread, rfl⟩,
    hdone⟩ := hperform
  obtain ⟨rfl, rfl⟩ := Prod.mk.inj hdone
  obtain ⟨found, data, area, creation, older, instruction, rfl, hdata, hcreates,
    hinstruction, hstate⟩ := hholds.known buffer bytes hbytes
  rw [load_layout, Except.ok.injEq] at hload
  subst hload
  have hloaded : parts = { header := found, data, accounts := area } := by
    rw [loadInstruction_layout hdata] at hparts
    split_ifs at hparts
    exact (Except.ok.inj hparts).symm
  subst hloaded
  rw [hinstruction, Except.ok.injEq] at hread
  subst hread
  subst hheader
  rw [hhas, checkRole_eq_ok] at hchecked
  -- The header names an approver only once it was approved.
  rcases hstate with ⟨-, hnone, -⟩ | ⟨hdone, approval, approvedRole, approvedStore,
    htouching, happroves, hauthority, hnow, hof, haccepted⟩
  · rw [InstructionHeader.apporver, if_pos hnone] at hsome
    exact absurd hsome (by simp)
  · obtain rfl : found.approver = approver := by
      rw [InstructionHeader.apporver] at hsome
      split_ifs at hsome with hdefault
      exact Option.some.inj hsome
    obtain ⟨same, hsame, hsameStore, hname⟩ := hof
    rw [hexecutor, Option.some.injEq] at hsame
    subst hsame
    obtain rfl : approvedStore = store := hsameStore.symm.trans hstore
    obtain rfl : role = approvedRole := by
      rw [hrole] at hname
      exact Except.ok.inj hname
    refine ⟨creation, approval, older, instruction, role, configAccount, htouching,
      hcreates, rfl, happroves, ⟨account, hexecutor, hstore, hrole⟩, ?_, ?_, ?_,
      hconfig, ?_⟩
    · rw [hauthority]
      exact haccepted
    · rw [hauthority]
      exact hchecked
    · rw [hholds.address config configAccount hconfig, hconfigStore]
    · rw [hnow]
      simpa [InstructionHeader.isExecutable, InstructionHeader.approvedAt?, hdone]
        using hdue

/-- Every instruction of a run is executed safely, and no delay decreases. -/
theorem timelock_safe {start : World K} (hunused : Unused start)
    {history : List (Moment K)}
    (hrun : Run (step derive) (fun _ _ => True) start history world) :
    (∀ later execution earlier, history = later ++ execution :: earlier →
      ExecutedSafely derive (Accepted derive)
        InstructionHeader.saturatingAddUnsigned earlier execution) ∧
    ∀ more later config account,
      Run (step derive) (fun _ _ => True) world more later →
      world.configs config = some account →
      ∃ kept, later.configs config = some kept ∧ kept.store = account.store ∧
        account.delay ≤ kept.delay := by
  constructor
  · have hall : Holds derive history world ∧
        ∀ later execution earlier, history = later ++ execution :: earlier →
          ExecutedSafely derive (Accepted derive)
            InstructionHeader.saturatingAddUnsigned earlier execution := by
      apply hrun.invariant (fun history world => Holds derive history world ∧
        ∀ later execution earlier, history = later ++ execution :: earlier →
          ExecutedSafely derive (Accepted derive)
            InstructionHeader.saturatingAddUnsigned earlier execution)
      · refine ⟨.initial hunused, ?_⟩
        intro later execution earlier hsplit
        exact absurd hsplit (by simp)
      · rintro outputs before transaction next moment ⟨hholds, hsafe⟩ _ hstep
        refine ⟨hholds.step hstep, ?_⟩
        intro later execution earlier hsplit
        rcases List.cons_eq_append_iff.mp hsplit with ⟨rfl, hhead⟩ | ⟨rest, rfl, hrest⟩
        · obtain ⟨rfl, rfl⟩ := List.cons.inj hhead
          exact executed_safely hholds hstep
        · exact hsafe rest execution earlier hrest
    exact hall.2
  · intro more later config account hmore haccount
    apply hmore.invariant (fun _ state => ∃ kept, state.configs config = some kept ∧
      kept.store = account.store ∧ account.delay ≤ kept.delay)
    · exact ⟨account, haccount, rfl, le_refl _⟩
    · rintro outputs before transaction next moment ⟨kept, hkept, hstore, hle⟩ _ hstep
      simp only [Timelock.step, bind_eq_ok, Except.ok.injEq, Prod.mk.injEq] at hstep
      obtain ⟨⟨reached, invoked⟩, hperform, rfl, -⟩ := hstep
      obtain ⟨last, hlast, hsame, hlastLe⟩ :=
        (perform_frame hperform).delay config kept hkept
      exact ⟨last, hlast, hsame.trans hstore, hle.trans hlastLe⟩

end Program

/-! ## An instruction that is executed in time -/

/-- Derived addresses that differ in what they are derived from. -/
def sampleDerivations : Derivations (List Byte) where
  toKey := id
  discriminator := Vector.replicate 8 1
  createExecutorWalletPda executor walletBump := executor + Fin.ofNat _ walletBump.val
  findWalletBump _ := 255
  executorPda store name := 1000 + store + Fin.ofNat _ (Pod.numberOf name.toList)
  configPda store := 500 + store

def sampleWorld : World (List Byte) where
  lastRestartSlot := 0
  stores := Function.update (fun _ => none) 1
    (some { role := RoleStore.zeroed, lastRestartedSlot := 0 })
  configs _ := none
  executors _ := none
  buffers _ := none

theorem sampleWorld_unused : Unused sampleWorld := ⟨rfl, rfl, rfl⟩

def adminExecutor : Pubkey :=
  1001 + Fin.ofNat _ (Pod.numberOf (asciiName "ADMIN"))

/-- A configuration, an executor, and a buffer with its approval and its
execution. -/
def buffered (approvedAt executedAt : I64) : List Transaction :=
  [⟨approvedAt, 7, .initializeConfig 1 10⟩,
    ⟨approvedAt, 7, .initializeExecutor 1 (asciiName "ADMIN")⟩,
    ⟨approvedAt, 7, .createInstructionBuffer 1 adminExecutor 20 30 0 2 [5, 6] [] []⟩,
    ⟨approvedAt, 7, .approveInstruction 1 adminExecutor 20 (asciiName "ADMIN")⟩,
    ⟨executedAt, 7, .executeInstruction 1 501 adminExecutor 7 20⟩]

def enableAndGrant (role : RoleName) : List Transaction :=
  [⟨⟨0, by decide⟩, 3, .role 1 (.enableRole role)⟩,
    ⟨⟨0, by decide⟩, 3, .role 1 (.grant 7 role)⟩]

/-- An instruction of two bytes is executed ten seconds after its approval. -/
theorem timelock_safe_in_time :
    ∃ history world, (∃ execution ∈ history, execution.invoked =
        some { programId := 30, accounts := [], data := [5, 6] }) ∧
      (∀ later execution earlier, history = later ++ execution :: earlier →
        ExecutedSafely sampleDerivations (Accepted sampleDerivations)
          InstructionHeader.saturatingAddUnsigned earlier execution) ∧
      ∀ more later config account,
        Run (step sampleDerivations) (fun _ _ => True) world more later →
        world.configs config = some account →
        ∃ kept, later.configs config = some kept ∧ kept.store = account.store ∧
          account.delay ≤ kept.delay := by
  have hrun : ∃ result, Gmsol.perform (step sampleDerivations) (fun _ _ => True)
      ([], sampleWorld) (enableAndGrant timelockAdmin ++
        (enableAndGrant timelockKeeper ++ (enableAndGrant timelockedAdmin ++
          buffered ⟨100, by decide⟩ ⟨110, by decide⟩))) = some result ∧
      result.1.any (fun execution => execution.invoked =
        some { programId := 30, accounts := [], data := [5, 6] }) = true :=
    exists_of_any (by decide +kernel)
  obtain ⟨⟨history, world⟩, hperform, hinvoked⟩ := hrun
  rw [List.any_eq_true] at hinvoked
  obtain ⟨execution, hmem, hsome⟩ := hinvoked
  exact ⟨history, world, ⟨execution, hmem, of_decide_eq_true hsome⟩,
    timelock_safe sampleWorld_unused (Run.perform .refl hperform)⟩

/-! ## Restarts and the last second -/

/-- The account holds the role itself. -/
def HoldsRole {K : Type} [LinearOrder K] (derive : Derivations K) (world : World K)
    (store authority : Pubkey) (role : RoleName) : Prop :=
  ∃ account, world.stores store = some account ∧
    account.role.hasRole derive.toKey authority role = .ok true

def lastSecond : I64 := ⟨signBit - 1, by norm_num [signBit], by norm_num⟩

/-- An account that holds only the role of the restart administrators, after a
restart, in the last second that the clock can show. -/
def restarted : List Transaction :=
  enableAndGrant restartAdmin ++
    (⟨lastSecond, 3, .restart 5⟩ :: buffered lastSecond lastSecond)

/-- What is seen of the run: the approval and the execution. -/
def SeenAfterRestart (history : List (Moment (List Byte))) : Prop :=
  history.head?.any (fun execution =>
    execution.transaction.call = .executeInstruction 1 501 adminExecutor 7 20 &&
    execution.transaction.now = lastSecond &&
    (execution.before.configs 501).any (fun account => account.delay = 10) &&
    (execution.before.executors adminExecutor).any (fun account =>
      account.roleName = .ok (asciiName "ADMIN"))) = true ∧
  (touching 20 history.tail).head?.any (fun approval =>
    approval.transaction.now = lastSecond &&
    (approval.before.stores 1).any (fun account =>
      account.role.hasRole id approval.transaction.authority
        (timelockedRole (asciiName "ADMIN")) ≠ .ok true)) = true

instance : DecidablePred SeenAfterRestart :=
  fun _ => inferInstanceAs (Decidable (_ ∧ _))

theorem exists_seenAfterRestart :
    ∃ history world, Run (step sampleDerivations) (fun _ _ => True) sampleWorld
      history world ∧ SeenAfterRestart history := by
  have hrun : ∃ result, Gmsol.perform (step sampleDerivations) (fun _ _ => True)
      ([], sampleWorld) restarted = some result ∧ SeenAfterRestart result.1 :=
    exists_of_any (by decide +kernel)
  obtain ⟨⟨history, world⟩, hperform, hseen⟩ := hrun
  exact ⟨history, world, Run.perform .refl hperform, hseen⟩

/-- What a safe execution says about the run after the restart. -/
theorem not_safely_afterRestart
    {accepted : World (List Byte) → Pubkey → Pubkey → RoleName → Prop}
    {due : I64 → ℕ → ℤ} {history : List (Moment (List Byte))}
    (hseen : SeenAfterRestart history)
    (hall : ∀ later execution earlier, history = later ++ execution :: earlier →
      ExecutedSafely sampleDerivations accepted due earlier execution) :
    due lastSecond 10 ≤ lastSecond.val ∧
      ∃ approval : Moment (List Byte), accepted approval.before 1
          approval.transaction.authority (timelockedRole (asciiName "ADMIN")) ∧
        ∀ account, approval.before.stores 1 = some account →
          account.role.hasRole id approval.transaction.authority
            (timelockedRole (asciiName "ADMIN")) ≠ .ok true := by
  obtain ⟨hexecution, happroval⟩ := hseen
  cases history with
  | nil => exact absurd hexecution (by simp)
  | cons execution earlier =>
      simp only [List.head?_cons, Option.any_some, Bool.and_eq_true,
        decide_eq_true_eq, Option.any_eq_true] at hexecution
      obtain ⟨⟨⟨hcall, hnow⟩, config, hconfig, hdelay⟩, executor, hexecutor,
        hname⟩ := hexecution
      obtain ⟨creation, approval, older, instruction, role, account, htouching, -, -,
        -, ⟨found, hfound, -, hrole⟩, haccepted, -, -, haccount, hdue⟩ :=
        hall [] execution earlier rfl 1 501 adminExecutor 7 20 hcall
      rw [List.tail_cons, htouching, List.head?_cons, Option.any_some,
        Bool.and_eq_true, decide_eq_true_eq, Option.any_eq_true] at happroval
      obtain ⟨happroved, store, hstore, hlacks⟩ := happroval
      rw [hconfig, Option.some.injEq] at haccount
      subst haccount
      rw [hexecutor, Option.some.injEq] at hfound
      subst hfound
      rw [hname, Except.ok.injEq] at hrole
      subst hrole
      rw [happroved, hnow, hdelay] at hdue
      refine ⟨hdue, approval, haccepted, ?_⟩
      intro other hother
      rw [hstore, Option.some.injEq] at hother
      subst hother
      exact of_decide_eq_true hlacks

/-- Neither is the approver bound to hold the role itself, nor has the delay
always passed. -/
theorem executed_after_restart :
    ¬(∀ (start : World (List Byte)) history world, Unused start →
        Run (step sampleDerivations) (fun _ _ => True) start history world →
        ∀ later execution earlier, history = later ++ execution :: earlier →
          ExecutedSafely sampleDerivations (HoldsRole sampleDerivations)
            InstructionHeader.saturatingAddUnsigned earlier execution) ∧
      ¬(∀ (start : World (List Byte)) history world, Unused start →
        Run (step sampleDerivations) (fun _ _ => True) start history world →
        ∀ later execution earlier, history = later ++ execution :: earlier →
          ExecutedSafely sampleDerivations (Accepted sampleDerivations)
            (fun approvedAt delay => approvedAt.val + delay) earlier execution) := by
  obtain ⟨history, world, hrun, hseen⟩ := exists_seenAfterRestart
  constructor
  · intro hclaim
    obtain ⟨-, approval, ⟨account, haccount, hholds⟩, hlacks⟩ :=
      not_safely_afterRestart hseen
        (hclaim sampleWorld history world sampleWorld_unused hrun)
    exact hlacks account haccount hholds
  · intro hclaim
    obtain ⟨hdue, -⟩ := not_safely_afterRestart hseen
      (hclaim sampleWorld history world sampleWorld_unused hrun)
    change lastSecond.val + (10 : ℕ) ≤ lastSecond.val at hdue
    omega

end Gmsol.Timelock
