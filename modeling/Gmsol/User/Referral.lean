import Gmsol.Library.IndexMap

/-!
# Referrals

A user of a store has an account with its referrer and its referral code, and a
code has an account with its owner.  Both accounts live at addresses derived
from the store and from the owner or the code.  A code is handed over in two
steps: its owner names the next owner, and the next owner accepts.
-/

namespace Gmsol.User

open Gmsol.Fallible

inductive UserError
  | invalidArgument
  | preconditionsAreNotMet
  | invalidUserAccount
  | ownerMismatched
  | referralCodeMismatched
  | referralCodeHasBeenSet
  | referrerHasBeenSet
  | selfReferral
  | mutualReferral
  | constraintHasOne
  | constraintSeeds
  | accountNotInitialized
  | accountAlreadyInUse
  deriving DecidableEq, Repr

abbrev Result (α : Type) := Except UserError α

def maxU128 : ℕ := 2 ^ 128 - 1

/-- `u128::saturating_add`. -/
def saturatingAdd (left right : ℕ) : ℕ := min (left + right) maxU128

/-- The addresses of the accounts of one store.  Different owners and different
codes have different addresses, and none is the default one. -/
structure Addresses (Address Code : Type) [Inhabited Address] where
  userAddress : Address → Address
  codeAddress : Code → Address
  userAddress_injective : Function.Injective userAddress
  codeAddress_injective : Function.Injective codeAddress
  codeAddress_ne_default : ∀ code, codeAddress code ≠ default

/-! ## Accounts -/

/-- The default address stands for no referrer and for no code. -/
structure Referral (Address : Type) where
  referrer : Address
  code : Address
  refereeCount : ℕ
  deriving DecidableEq, Repr

structure UserHeader (Address : Type) where
  isInitialized : Bool
  owner : Address
  referral : Referral Address
  deriving DecidableEq, Repr

structure ReferralCode (Address Code : Type) where
  code : Code
  owner : Address
  nextOwner : Address
  deriving DecidableEq, Repr

variable {Address Code : Type} [DecidableEq Address] [Inhabited Address]
  [DecidableEq Code] [Inhabited Code]

/-- An address unless it is the default one. -/
def optionalAddress (address : Address) : Option Address :=
  if address = default then none else some address

namespace Referral

def zeroed : Referral Address := ⟨default, default, 0⟩

def referrer? (referral : Referral Address) : Option Address :=
  optionalAddress referral.referrer

def setCode (referral : Referral Address) (code : Address) :
    Result (Referral Address) := do
  ensure (referral.code = default) .referralCodeHasBeenSet
  .ok { referral with code }

/-- The referral with its referrer set, and the referrer with one more referee. -/
def setReferrer (referral : Referral Address) (referrerUser : UserHeader Address) :
    Result (Referral Address × UserHeader Address) := do
  ensure (referral.referrer = default) .referrerHasBeenSet
  ensure (referrerUser.owner ≠ default) .invalidArgument
  .ok ({ referral with referrer := referrerUser.owner },
    { referrerUser with referral :=
      { referrerUser.referral with
        refereeCount := saturatingAdd referrerUser.referral.refereeCount 1 } })

end Referral

namespace UserHeader

def init (owner : Address) : UserHeader Address := ⟨true, owner, .zeroed⟩

end UserHeader

namespace ReferralCode

def init (code : Code) (owner : Address) : ReferralCode Address Code :=
  ⟨code, owner, owner⟩

def setNextOwner (code : ReferralCode Address Code) (nextOwner : Address) :
    Result (ReferralCode Address Code) := do
  ensure (code.nextOwner ≠ nextOwner) .preconditionsAreNotMet
  .ok { code with nextOwner }

end ReferralCode

namespace UserHeader

def uncheckedTransferCode (user : UserHeader Address)
    (code : ReferralCode Address Code) (receiverUser : UserHeader Address) :
    Result (ReferralCode Address Code) := do
  ensure (code.code ≠ default) .preconditionsAreNotMet
  ensure (user.isInitialized = true) .invalidUserAccount
  ensure (receiverUser.isInitialized = true) .invalidUserAccount
  ensure (receiverUser.referral.code = default) .preconditionsAreNotMet
  code.setNextOwner receiverUser.owner

/-- The user without the code, the code with its new owner, and the receiver
with the code. -/
def uncheckedCompleteCodeTransfer (user : UserHeader Address)
    (code : ReferralCode Address Code) (receiverUser : UserHeader Address) :
    Result (UserHeader Address × ReferralCode Address Code × UserHeader Address) := do
  ensure (code.code ≠ default) .preconditionsAreNotMet
  ensure (user.isInitialized = true) .invalidUserAccount
  ensure (receiverUser.isInitialized = true) .invalidUserAccount
  ensure (receiverUser.referral.code = default) .preconditionsAreNotMet
  ensure (receiverUser.owner = code.nextOwner) .preconditionsAreNotMet
  .ok ({ user with referral := { user.referral with code := default } },
    { code with owner := receiverUser.owner },
    { receiverUser with referral :=
      { receiverUser.referral with code := user.referral.code } })

end UserHeader

/-! ## Instructions -/

/-- The user and code accounts of a store, by their addresses. -/
structure World (Address Code : Type) where
  users : IndexMap Address (UserHeader Address)
  codes : IndexMap Address (ReferralCode Address Code)

/-- The calls with their signer first and their accounts as the caller passes
them. -/
inductive Call (Address Code : Type)
  | prepareUser (owner : Address)
  | initializeReferralCode (owner user : Address) (code : Code)
  | setReferrer (owner user referralCode referrerUser : Address) (code : Code)
  | transferReferralCode (owner user referralCode receiverUser : Address)
  | cancelReferralCodeTransfer (owner user referralCode : Address)
  | acceptReferralCode (nextOwner user referralCode receiverUser : Address)

namespace World

variable (derive : Addresses Address Code)

def empty : World Address Code := ⟨.empty, .empty⟩

def user (world : World Address Code) (key : Address) : Result (UserHeader Address) :=
  okOr (world.users.get key) .accountNotInitialized

def referralCode (world : World Address Code) (key : Address) :
    Result (ReferralCode Address Code) :=
  okOr (world.codes.get key) .accountNotInitialized

def setUser (world : World Address Code) (key : Address)
    (header : UserHeader Address) : World Address Code :=
  { world with users := world.users.set key header }

def setCode (world : World Address Code) (key : Address)
    (code : ReferralCode Address Code) : World Address Code :=
  { world with codes := world.codes.set key code }

/-- The `init_if_needed` account of an owner. -/
def prepareUser (world : World Address Code) (owner : Address) :
    Result (World Address Code) :=
  let key := derive.userAddress owner
  if hvacant : key ∉ world.users.keys then
    .ok { world with users := world.users.insertVacant key (.init owner) hvacant }
  else do
    let header ← world.user key
    ensure (header.isInitialized = true) .invalidUserAccount
    ensure (header.owner = owner) .invalidUserAccount
    .ok world

/-- The `init` account of a code. -/
def initCode (world : World Address Code) (key : Address)
    (code : ReferralCode Address Code) : Result (World Address Code) :=
  if hvacant : key ∉ world.codes.keys then
    .ok { world with codes := world.codes.insertVacant key code hvacant }
  else .error .accountAlreadyInUse

/-- The checks on the account of the owner that signs. -/
def ownUser (world : World Address Code) (key owner : Address) :
    Result (UserHeader Address) := do
  let header ← world.user key
  ensure (header.owner = owner) .constraintHasOne
  ensure (key = derive.userAddress owner) .constraintSeeds
  .ok header

/-- The checks on the account of a code. -/
def codeAt (world : World Address Code) (key : Address) :
    Result (ReferralCode Address Code) := do
  let code ← world.referralCode key
  ensure (key = derive.codeAddress code.code) .constraintSeeds
  .ok code

/-- The checks that a user has the code that names it as its owner. -/
def ensureOwns (header : UserHeader Address) (code : ReferralCode Address Code)
    (codeKey : Address) : Result Unit := do
  ensure (header.owner = code.owner) .ownerMismatched
  ensure (header.referral.code = codeKey) .referralCodeMismatched

def initializeReferralCode (world : World Address Code) (owner user : Address)
    (code : Code) : Result (World Address Code) := do
  let key := derive.codeAddress code
  let next ← world.initCode key (.init code owner)
  let header ← world.ownUser derive user owner
  ensure (header.isInitialized = true) .invalidUserAccount
  ensure (code ≠ default) .invalidArgument
  let referral ← header.referral.setCode key
  .ok (next.setUser user { header with referral })

def setReferrer (world : World Address Code)
    (owner user referralCode referrerUser : Address) (code : Code) :
    Result (World Address Code) := do
  let header ← world.ownUser derive user owner
  ensure (header.isInitialized = true) .invalidUserAccount
  let account ← world.codeAt derive referralCode
  ensure (account.code = code) .referralCodeMismatched
  let referrer ← world.user referrerUser
  ensure (referrer.isInitialized = true) .invalidUserAccount
  ensureOwns referrer account referralCode
  ensure (referrerUser ≠ user) .selfReferral
  ensure (referrerUser = derive.userAddress referrer.owner) .constraintSeeds
  ensure (referrer.referral.referrer ≠ header.owner) .mutualReferral
  let (referral, referrer) ← header.referral.setReferrer referrer
  .ok ((world.setUser user { header with referral }).setUser referrerUser referrer)

def transferReferralCode (world : World Address Code)
    (owner user referralCode receiverUser : Address) :
    Result (World Address Code) := do
  let header ← world.ownUser derive user owner
  let account ← world.codeAt derive referralCode
  ensureOwns header account referralCode
  let receiver ← world.user receiverUser
  ensure (receiverUser ≠ user) .selfReferral
  ensure (receiverUser = derive.userAddress receiver.owner) .constraintSeeds
  let account ← header.uncheckedTransferCode account receiver
  .ok (world.setCode referralCode account)

def cancelReferralCodeTransfer (world : World Address Code)
    (owner user referralCode : Address) : Result (World Address Code) := do
  let header ← world.ownUser derive user owner
  let account ← world.codeAt derive referralCode
  ensureOwns header account referralCode
  let account ← account.setNextOwner owner
  .ok (world.setCode referralCode account)

def acceptReferralCode (world : World Address Code)
    (nextOwner user referralCode receiverUser : Address) :
    Result (World Address Code) := do
  let header ← world.user user
  let account ← world.codeAt derive referralCode
  ensureOwns header account referralCode
  ensure (user = derive.userAddress account.owner) .constraintSeeds
  let receiver ← world.user receiverUser
  ensure (receiver.owner = nextOwner) .ownerMismatched
  ensure (receiverUser ≠ user) .selfReferral
  ensure (receiverUser = derive.userAddress nextOwner) .constraintSeeds
  let (header, account, receiver) ←
    header.uncheckedCompleteCodeTransfer account receiver
  .ok (((world.setUser user header).setCode referralCode account).setUser
    receiverUser receiver)

def perform (world : World Address Code) :
    Call Address Code → Result (World Address Code)
  | .prepareUser owner => world.prepareUser derive owner
  | .initializeReferralCode owner user code =>
      world.initializeReferralCode derive owner user code
  | .setReferrer owner user referralCode referrerUser code =>
      world.setReferrer derive owner user referralCode referrerUser code
  | .transferReferralCode owner user referralCode receiverUser =>
      world.transferReferralCode derive owner user referralCode receiverUser
  | .cancelReferralCodeTransfer owner user referralCode =>
      world.cancelReferralCodeTransfer derive owner user referralCode
  | .acceptReferralCode nextOwner user referralCode receiverUser =>
      world.acceptReferralCode derive nextOwner user referralCode receiverUser

/-- A failed call leaves the accounts as they are. -/
def step (world : World Address Code) (call : Call Address Code) :
    World Address Code :=
  match world.perform derive call with
  | .ok after => after
  | .error _ => world

def run (world : World Address Code) (calls : List (Call Address Code)) :
    World Address Code :=
  calls.foldl (step derive) world

end World

end Gmsol.User
