import Gmsol.Timelock.Instruction

/-!
# The timelock program

Transactions against the accounts of the timelock program and the role tables
of the stores.  A transaction fails as a whole or takes the accounts to their
next state; the execution of an instruction also hands that instruction to the
program it is for.  Whatever the invoked program changes is a later step.
-/

namespace Gmsol.Timelock

open Gmsol.Container Gmsol.Fallible Gmsol.Layout Gmsol.Store

abbrev U32 : Type := Fin (256 ^ 4)

def timelockAdmin : RoleName := asciiName "TIMELOCK_ADMIN"

def timelockKeeper : RoleName := asciiName "TIMELOCK_KEEPER"

def timelocked : RoleName := asciiName "__TLD_"

def timelockedRole (role : RoleName) : RoleName := timelocked ++ role

def timelockedAdmin : RoleName := asciiName "__TLD_ADMIN"

example : timelockedRole (asciiName "ADMIN") = timelockedAdmin := by decide

/-! ## Accounts -/

structure TimelockConfig where
  delay : U32
  store : Pubkey
deriving DecidableEq

def TimelockConfig.increaseDelay (config : TimelockConfig) (delta : U32) :
    Result TimelockConfig :=
  if h : config.delay.val + delta.val < 256 ^ 4 then
    .ok { config with delay := ⟨config.delay.val + delta.val, h⟩ }
  else .error (.core .invalidArgument)

structure Executor where
  walletBump : Byte
  store : Pubkey
  roleNameBytes : Vector Byte maxRoleNameLen
deriving DecidableEq

def Executor.roleName (executor : Executor) : Result RoleName :=
  (bytesToFixedStr executor.roleNameBytes).mapError .core

/-- What the program takes from outside: the hash of the role map, the
discriminator of its buffers, and the addresses it derives. -/
structure Derivations (K : Type) where
  toKey : RoleName → K
  discriminator : Vector Byte 8
  createExecutorWalletPda : Pubkey → Byte → Pubkey
  findWalletBump : Pubkey → Byte
  executorPda : Pubkey → Vector Byte maxRoleNameLen → Pubkey
  configPda : Pubkey → Pubkey

structure World (K : Type) where
  lastRestartSlot : ℕ
  stores : Pubkey → Option (Store K)
  configs : Pubkey → Option TimelockConfig
  executors : Pubkey → Option Executor
  buffers : Pubkey → Option (List Byte)

namespace World

variable {K : Type}

def account {α : Type} (accounts : Pubkey → Option α) (address : Pubkey) :
    Result α :=
  okOr (accounts address) (.anchor .accountNotInitialized)

def setStore (world : World K) (address : Pubkey) (store : Store K) : World K :=
  { world with stores := Function.update world.stores address (some store) }

def setConfig (world : World K) (address : Pubkey) (config : TimelockConfig) :
    World K :=
  { world with configs := Function.update world.configs address (some config) }

def setExecutor (world : World K) (address : Pubkey) (executor : Executor) :
    World K :=
  { world with
    executors := Function.update world.executors address (some executor) }

def setBuffer (world : World K) (address : Pubkey) (bytes : Option (List Byte)) :
    World K :=
  { world with buffers := Function.update world.buffers address bytes }

end World

/-! ## Transactions -/

inductive Call
  | role (store : Pubkey) (call : RoleStore.Call)
  | restart (slot : ℕ)
  | updateLastRestartedSlot (store : Pubkey)
  | initializeConfig (store : Pubkey) (delay : U32)
  | increaseDelay (store config : Pubkey) (delta : U32)
  | initializeExecutor (store : Pubkey) (role : RoleName)
  | createInstructionBuffer (store executor instructionBuffer program : Pubkey)
      (numAccounts dataLen : U16) (data : List Byte) (signers : List U16)
      (remainingAccounts : List AccountInfo)
  | approveInstruction (store executor instruction : Pubkey) (role : RoleName)
  | approveInstructions (store executor : Pubkey)
      (remainingAccounts : List AccountInfo) (role : RoleName)
  | cancelInstruction (store executor rentReceiver instruction : Pubkey)
  | cancelInstructions (store executor rentReceiver : Pubkey)
      (remainingAccounts : List AccountInfo)
  | executeInstruction (store config executor rentReceiver instruction : Pubkey)
deriving DecidableEq

/-- A call that an authority signs, and the time of the clock. -/
structure Transaction where
  now : I64
  authority : Pubkey
  call : Call

section Program

variable {K : Type} [LinearOrder K] [Inhabited K] (derive : Derivations K)

def checkRole (world : World K) (store authority : Pubkey) (role : RoleName) :
    Result Bool := do
  let store ← World.account world.stores store
  (store.hasRole derive.toKey world.lastRestartSlot authority role).mapError .role

/-- The role check that the program asks of the store. -/
def only (world : World K) (store authority : Pubkey) (role : RoleName) :
    Result Unit := do
  let hasRole ← checkRole derive world store authority role
  ensure hasRole (.core .permissionDenied)

/-- An executor of the given store. -/
def loadExecutor (world : World K) (store executor : Pubkey) :
    Result Executor := do
  let account ← World.account world.executors executor
  ensure (account.store = store) (.anchor .constraintHasOne)
  .ok account

/-- The executor of the given role in the given store. -/
def loadExecutorOf (world : World K) (store executor : Pubkey)
    (role : RoleName) : Result Executor := do
  let account ← loadExecutor world store executor
  let name ← account.roleName
  ensure (name = role) (.core .invalidArgument)
  let roleBytes ← (fixedStrToBytes maxRoleNameLen role).mapError .core
  ensure (executor = derive.executorPda store roleBytes) (.anchor .constraintSeeds)
  .ok account

def loadConfig (world : World K) (store config : Pubkey) :
    Result TimelockConfig := do
  let account ← World.account world.configs config
  ensure (account.store = store) (.anchor .constraintHasOne)
  .ok account

def performRole (world : World K) (store : Pubkey) (call : RoleStore.Call) :
    Result (World K) := do
  let account ← World.account world.stores store
  let role ← (account.role.perform derive.toKey call).mapError .role
  .ok (world.setStore store { account with role })

def updateLastRestartedSlot (world : World K) (store : Pubkey) :
    Result (World K) := do
  let account ← World.account world.stores store
  let account ←
    (account.updateLastRestartedSlot world.lastRestartSlot).mapError .role
  .ok (world.setStore store account)

def initializeConfig (world : World K) (authority store : Pubkey) (delay : U32) :
    Result (World K) := do
  let config := derive.configPda store
  ensure (world.configs config = none) (.anchor .accountAlreadyInUse)
  only derive world store authority timelockAdmin
  only derive world store authority timelockKeeper
  only derive world store authority timelockedAdmin
  .ok (world.setConfig config { delay, store })

def increaseDelay (world : World K) (authority store config : Pubkey)
    (delta : U32) : Result (World K) := do
  let account ← loadConfig world store config
  only derive world store authority timelockAdmin
  ensure (delta.val ≠ 0) (.core .invalidArgument)
  let account ← account.increaseDelay delta
  .ok (world.setConfig config account)

def initializeExecutor (world : World K) (store : Pubkey) (role : RoleName) :
    Result (World K) := do
  let roleNameBytes ← (fixedStrToBytes maxRoleNameLen role).mapError .core
  let executor := derive.executorPda store roleNameBytes
  ensure (world.executors executor = none) (.anchor .accountAlreadyInUse)
  .ok (world.setExecutor executor
    { walletBump := derive.findWalletBump executor, store, roleNameBytes })

def createInstructionBuffer (world : World K)
    (authority store executor instructionBuffer program : Pubkey)
    (numAccounts dataLen : U16) (data : List Byte) (signers : List U16)
    (remainingAccounts : List AccountInfo) : Result (World K) := do
  let account ← loadExecutor world store executor
  ensure (world.buffers instructionBuffer = none) (.anchor .accountAlreadyInUse)
  only derive world store authority timelockKeeper
  ensure (numAccounts.val ≤ remainingAccounts.length) (.core .invalidArgument)
  ensure (data.length = dataLen) (.core .invalidArgument)
  let _ ← account.roleName
  let (bytes, _) ← loadAndInitInstruction derive.discriminator
    derive.createExecutorWalletPda executor account.walletBump authority program
    data (remainingAccounts.take numAccounts) signers
    (emptyBuffer numAccounts dataLen)
  .ok (world.setBuffer instructionBuffer (some bytes))

def approveInstruction (world : World K) (now : I64)
    (authority store executor instruction : Pubkey) (role : RoleName) :
    Result (World K) := do
  let _ ← loadExecutorOf derive world store executor role
  let bytes ← World.account world.buffers instruction
  let header ← load derive.discriminator bytes
  ensure (header.executor = executor) (.anchor .constraintHasOne)
  only derive world store authority (timelockedRole role)
  let header ← header.approve now authority
  .ok (world.setBuffer instruction (some (writeHeader bytes header)))

/-- The loop over the accounts that follow. -/
def approveEach (now : I64) (executor approver : Pubkey) :
    List AccountInfo → World K → Result (World K)
  | [], world => .ok world
  | account :: rest, world => do
    ensure account.isWritable (.anchor .accountNotMutable)
    let bytes ← World.account world.buffers account.key
    let header ← load derive.discriminator bytes
    ensure (header.executor = executor) (.core .invalidArgument)
    let header ← header.approve now approver
    approveEach now executor approver rest
      (world.setBuffer account.key (some (writeHeader bytes header)))

def approveInstructions (world : World K) (now : I64)
    (authority store executor : Pubkey) (remainingAccounts : List AccountInfo)
    (role : RoleName) : Result (World K) := do
  let _ ← loadExecutorOf derive world store executor role
  only derive world store authority (timelockedRole role)
  approveEach derive now executor authority remainingAccounts world

def cancelInstruction (world : World K)
    (authority store executor rentReceiver instruction : Pubkey) :
    Result (World K) := do
  let _ ← loadExecutor world store executor
  let bytes ← World.account world.buffers instruction
  let header ← load derive.discriminator bytes
  ensure (header.executor = executor) (.anchor .constraintHasOne)
  ensure (header.rentReceiver = rentReceiver) (.anchor .constraintHasOne)
  only derive world store authority timelockAdmin
  .ok (world.setBuffer instruction none)

def cancelEach (executor rentReceiver : Pubkey) :
    List AccountInfo → World K → Result (World K)
  | [], world => .ok world
  | account :: rest, world => do
    ensure account.isWritable (.anchor .accountNotMutable)
    let bytes ← World.account world.buffers account.key
    let header ← load derive.discriminator bytes
    ensure (header.executor = executor) (.core .invalidArgument)
    ensure (header.rentReceiver = rentReceiver) (.core .invalidArgument)
    cancelEach executor rentReceiver rest (world.setBuffer account.key none)

def cancelInstructions (world : World K)
    (authority store executor rentReceiver : Pubkey)
    (remainingAccounts : List AccountInfo) : Result (World K) := do
  let _ ← loadExecutor world store executor
  only derive world store authority timelockAdmin
  cancelEach derive executor rentReceiver remainingAccounts world

/-- The accounts after the execution, and the instruction that was invoked. -/
def executeInstruction (world : World K) (now : I64)
    (authority store config executor rentReceiver instruction : Pubkey) :
    Result (World K × Instruction) := do
  let configAccount ← loadConfig world store config
  let executorAccount ← loadExecutor world store executor
  let bytes ← World.account world.buffers instruction
  let header ← load derive.discriminator bytes
  ensure (header.executor = executor) (.anchor .constraintHasOne)
  ensure (header.rentReceiver = rentReceiver) (.anchor .constraintHasOne)
  only derive world store authority timelockKeeper
  let parts ← loadInstruction derive.discriminator bytes
  let approver ← okOr parts.header.apporver (.core .preconditionsAreNotMet)
  let role ← executorAccount.roleName
  let hasRole ← checkRole derive world store approver (timelockedRole role)
  ensure hasRole (.core .preconditionsAreNotMet)
  ensure (parts.header.isExecutable now configAccount.delay)
    (.core .preconditionsAreNotMet)
  let invoked ← parts.toInstruction derive.createExecutorWalletPda false
  .ok (world.setBuffer instruction none, invoked)

def perform (world : World K) (transaction : Transaction) :
    Result (World K × Option Instruction) :=
  let { now, authority, call } := transaction
  let silently (result : Result (World K)) : Result (World K × Option Instruction) :=
    result.map fun after => (after, none)
  match call with
  | .role store call => silently (performRole derive world store call)
  | .restart slot => .ok ({ world with lastRestartSlot := slot }, none)
  | .updateLastRestartedSlot store =>
    silently (updateLastRestartedSlot world store)
  | .initializeConfig store delay =>
    silently (initializeConfig derive world authority store delay)
  | .increaseDelay store config delta =>
    silently (increaseDelay derive world authority store config delta)
  | .initializeExecutor store role =>
    silently (initializeExecutor derive world store role)
  | .createInstructionBuffer store executor instructionBuffer program numAccounts
      dataLen data signers remainingAccounts =>
    silently (createInstructionBuffer derive world authority store executor
      instructionBuffer program numAccounts dataLen data signers
      remainingAccounts)
  | .approveInstruction store executor instruction role =>
    silently (approveInstruction derive world now authority store executor
      instruction role)
  | .approveInstructions store executor remainingAccounts role =>
    silently (approveInstructions derive world now authority store executor
      remainingAccounts role)
  | .cancelInstruction store executor rentReceiver instruction =>
    silently (cancelInstruction derive world authority store executor
      rentReceiver instruction)
  | .cancelInstructions store executor rentReceiver remainingAccounts =>
    silently (cancelInstructions derive world authority store executor
      rentReceiver remainingAccounts)
  | .executeInstruction store config executor rentReceiver instruction =>
    (executeInstruction derive world now authority store config executor
      rentReceiver instruction).map fun result => (result.1, some result.2)

/-- A transaction of a run: the accounts before it, and what it invoked. -/
structure Moment (K : Type) where
  before : World K
  transaction : Transaction
  invoked : Option Instruction

def step (world : World K) (transaction : Transaction) :
    Result (World K × Moment K) := do
  let (after, invoked) ← perform derive world transaction
  .ok (after, { before := world, transaction, invoked })

end Program

end Gmsol.Timelock
