import Gmsol.Container.Runs
import Gmsol.Library.Bitmap
import Gmsol.Library.Layout
import Gmsol.Store.Error

/-!
# Roles

The role table of a store.  A role name is the list of its bytes, and the
program keeps it padded with zeros; the role map finds it by a hash.  A member
is kept with the bits of the roles it holds.
-/

namespace Gmsol.Store

open Gmsol.Container Gmsol.Fallible Gmsol.FixedArray Gmsol.Layout

abbrev RoleName : Type := List Byte

def maxRoleNameLen : ℕ := 32

def maxRoles : ℕ := 32

def maxMembers : ℕ := 64

/-! ## Strings of a fixed size -/

def fixedStrToBytes (maxLen : ℕ) (name : List Byte) :
    Result (Vector Byte maxLen) := do
  ensure (name.length ≤ maxLen) .exceedMaxLengthLimit
  .ok (Vector.ofFn fun slot => name.getD slot 0)

/-- The bytes before the first zero are those of a string whenever the padded
string was one. -/
def bytesToFixedStr {maxLen : ℕ} (bytes : Vector Byte maxLen) :
    Result (List Byte) :=
  match bytes.toList.findIdx? (· = 0) with
  | some length => .ok (bytes.toList.take length)
  | none => .error .invalidArgument

/-! ## Role metadata -/

/-- Why a call to the role table fails. -/
inductive RoleError
  | core (error : CoreError)
  | container (error : GeneralError)
  | stopped (panic : Panic)
  | storeOutdated
deriving DecidableEq

structure RoleMetadata where
  nameBytes : Vector Byte maxRoleNameLen
  enabled : ℕ
  index : ℕ
deriving DecidableEq

namespace RoleMetadata

instance : Inhabited RoleMetadata :=
  ⟨{ nameBytes := Vector.replicate maxRoleNameLen 0, enabled := 0, index := 0 }⟩

def roleEnabled : ℕ := 255

def new (name : RoleName) (index : ℕ) : Result RoleMetadata := do
  let nameBytes ← fixedStrToBytes maxRoleNameLen name
  .ok { nameBytes, enabled := roleEnabled, index }

def name (metadata : RoleMetadata) : Result RoleName :=
  bytesToFixedStr metadata.nameBytes

def isEnabled (metadata : RoleMetadata) : Bool :=
  metadata.enabled = roleEnabled

def setEnable (metadata : RoleMetadata) : RoleMetadata :=
  { metadata with enabled := roleEnabled }

def setDisable (metadata : RoleMetadata) : RoleMetadata :=
  { metadata with enabled := 0 }

def enable (metadata : RoleMetadata) : Result RoleMetadata := do
  ensure (metadata.isEnabled = false) .preconditionsAreNotMet
  .ok metadata.setEnable

def disable (metadata : RoleMetadata) : Result RoleMetadata := do
  ensure metadata.isEnabled .preconditionsAreNotMet
  .ok metadata.setDisable

/-- The check that the metadata found for a role is that role's. -/
def requireName (metadata : RoleMetadata) (role : RoleName) : Result Unit := do
  let name ← metadata.name
  ensure (name = role) .invalidArgument

end RoleMetadata

abbrev RoleBitmap : Type := Bitmap maxRoles

/-! ## The role table -/

structure RoleStore (K : Type) where
  roles : FixedMap maxRoles K RoleMetadata
  members : FixedMap maxMembers Pubkey RoleBitmap

namespace RoleStore

variable {N : ℕ} {Q K V : Type} [LinearOrder K] [Inhabited K] [Inhabited V]

def zeroed : RoleStore K where
  roles := FixedMap.zeroed
  members := FixedMap.zeroed

/-- The entry of a map for a key. -/
def find (toKey : Q → K) (map : FixedMap N K V) (key : Q) :
    Except RoleError (Option V) :=
  (map.get toKey key).mapError .stopped

/-- Writes through the mutable reference to the entry of a key. -/
def assign (toKey : Q → K) (map : FixedMap N K V) (key : Q) (value : V) :
    Except RoleError (FixedMap N K V) := do
  let (map, _) ← (map.getMut toKey key fun _ => value).mapError .stopped
  .ok map

def insertNew (toKey : Q → K) (map : FixedMap N K V) (key : Q) (value : V) :
    Except RoleError (FixedMap N K V) := do
  let (map, outcome) ←
    (map.insertWithOptions toKey key value true).mapError .stopped
  let _ ← outcome.mapError .container
  .ok map

def removeEntry (toKey : Q → K) (map : FixedMap N K V) (key : Q) :
    Except RoleError (FixedMap N K V) := do
  let (map, _) ← (map.remove toKey key).mapError .stopped
  .ok map

/-- An index that fits in eight bits. -/
def tryIntoU8 (index : ℕ) : Except RoleError ℕ := do
  ensure (index < 256) (.core .exceedMaxLengthLimit)
  .ok index

variable (toKey : RoleName → K)

def enableRole (table : RoleStore K) (role : RoleName) :
    Except RoleError (RoleStore K) := do
  match ← find toKey table.roles role with
  | some metadata =>
    (metadata.requireName role).mapError .core
    let metadata ← metadata.enable.mapError .core
    let roles ← assign toKey table.roles role metadata
    .ok { table with roles }
  | none =>
    let index ← tryIntoU8 table.roles.len
    let metadata ← (RoleMetadata.new role index).mapError .core
    let roles ← insertNew toKey table.roles role metadata
    .ok { table with roles }

def disableRole (table : RoleStore K) (role : RoleName) :
    Except RoleError (RoleStore K) := do
  match ← find toKey table.roles role with
  | some metadata =>
    (metadata.requireName role).mapError .core
    let metadata ← metadata.disable.mapError .core
    let roles ← assign toKey table.roles role metadata
    .ok { table with roles }
  | none => .ok table

def roleIndex (table : RoleStore K) (role : RoleName) :
    Except RoleError (Option ℕ) := do
  match ← find toKey table.roles role with
  | some metadata =>
    (metadata.requireName role).mapError .core
    .ok (some metadata.index)
  | none => .ok none

def enabledRoleIndex (table : RoleStore K) (role : RoleName) :
    Except RoleError (Option ℕ) := do
  match ← find toKey table.roles role with
  | some metadata =>
    (metadata.requireName role).mapError .core
    ensure metadata.isEnabled (.core .preconditionsAreNotMet)
    .ok (some metadata.index)
  | none => .ok none

def hasRole (table : RoleStore K) (authority : Pubkey) (role : RoleName) :
    Except RoleError Bool := do
  let member ← find id table.members authority
  let value ← okOr member (.core .permissionDenied)
  let found ← table.enabledRoleIndex toKey role
  let index ← okOr found (.core .notFound)
  .ok (value.get index)

def grant (table : RoleStore K) (authority : Pubkey) (role : RoleName) :
    Except RoleError (RoleStore K) := do
  let found ← table.enabledRoleIndex toKey role
  let index ← okOr found (.core .notFound)
  match ← find id table.members authority with
  | some value =>
    ensure (value.get index = false) (.core .preconditionsAreNotMet)
    let members ← assign id table.members authority (value.set index true)
    .ok { table with members }
  | none =>
    let members ← insertNew id table.members authority
      (Bitmap.set 0 index true)
    .ok { table with members }

/-- The role does not have to be enabled. -/
def revoke (table : RoleStore K) (authority : Pubkey) (role : RoleName) :
    Except RoleError (RoleStore K) := do
  let found ← table.roleIndex toKey role
  let index ← okOr found (.core .notFound)
  let member ← find id table.members authority
  let value ← okOr member (.core .permissionDenied)
  ensure (value.get index) (.core .preconditionsAreNotMet)
  let members ← assign id table.members authority (value.set index false)
  if (value.set index false).isEmpty then
    let members ← removeEntry id members authority
    .ok { table with members }
  else .ok { table with members }

/-! ## Calls -/

inductive Call
  | enableRole (role : RoleName)
  | disableRole (role : RoleName)
  | grant (authority : Pubkey) (role : RoleName)
  | revoke (authority : Pubkey) (role : RoleName)
deriving DecidableEq

def perform (table : RoleStore K) : Call → Except RoleError (RoleStore K)
  | .enableRole role => table.enableRole toKey role
  | .disableRole role => table.disableRole toKey role
  | .grant authority role => table.grant toKey authority role
  | .revoke authority role => table.revoke toKey authority role

/-- A call of a run and whether it succeeded. -/
structure Record where
  call : Call
  succeeded : Bool
deriving DecidableEq

/-- A failed call leaves the table as it was. -/
def step (table : RoleStore K) (call : Call) :
    Except RoleError (RoleStore K × Record) :=
  match table.perform toKey call with
  | .ok after => .ok (after, { call, succeeded := true })
  | .error _ => .ok (table, { call, succeeded := false })

end RoleStore

def asciiName (name : String) : RoleName :=
  name.toList.map fun character => Fin.ofNat 256 character.toNat

def restartAdmin : RoleName := asciiName "RESTART_ADMIN"

end Gmsol.Store

namespace Gmsol

open Gmsol.Store

/-! ## The store -/

/-- What the role checks read of a store account. -/
structure Store (K : Type) where
  role : RoleStore K
  lastRestartedSlot : ℕ

end Gmsol

namespace Gmsol.Store

open Gmsol.Container Gmsol.Fallible

variable {K : Type} [LinearOrder K] [Inhabited K]

def hasRestarted (lastRestartSlot : ℕ) (store : Store K) : Bool :=
  store.lastRestartedSlot ≠ lastRestartSlot

def hasRole (toKey : RoleName → K) (lastRestartSlot : ℕ) (store : Store K)
    (authority : Pubkey) (role : RoleName) : Except RoleError Bool := do
  if store.hasRestarted lastRestartSlot then
    let isRestartAdmin ← store.role.hasRole toKey authority restartAdmin
    if isRestartAdmin then .ok true else .error .storeOutdated
  else store.role.hasRole toKey authority role

def updateLastRestartedSlot (lastRestartSlot : ℕ) (store : Store K) :
    Except RoleError (Store K) := do
  ensure (store.lastRestartedSlot ≠ lastRestartSlot)
    (.core .preconditionsAreNotMet)
  .ok { store with lastRestartedSlot := lastRestartSlot }

end Gmsol.Store
