import Gmsol.Library.Run
import Gmsol.Store.Roles

/-!
# What the role table holds

The table is read as two finite maps, one from roles to their metadata and one
from members to their bits.  Every successful call has one of a few effects on
them, and along every run they tell what the last successful calls were.
-/

namespace Gmsol.Store

open Gmsol.Container Gmsol.Fallible Gmsol.Layout

namespace RoleStore

/-! ## The two maps -/

section Maps

variable {N : ℕ} {Q K V : Type} [LinearOrder K] [Inhabited K] [Inhabited V]
  {toKey : Q → K} {map after : FixedMap N K V} {model : FiniteMap K V} {key : Q}

theorem find_eq (hrep : Represents map model) (key : Q) :
    find toKey map key = .ok (model.lookup (toKey key)) := by
  rw [find, hrep.get key]
  rfl

theorem find_eq_ok {found : Option V} (hrep : Represents map model) :
    find toKey map key = .ok found ↔ model.lookup (toKey key) = found := by
  rw [find_eq hrep, Except.ok.injEq]

theorem assign_represents {previous value : V} (hrep : Represents map model)
    (hlookup : model.lookup (toKey key) = some previous)
    (hassign : assign toKey map key value = .ok after) :
    Represents after (model.insert (toKey key) value) := by
  obtain ⟨next, hnext, hrepNext⟩ :
      Represents.Returns (map.getMut toKey key fun _ => value) _ :=
    hrep.getMut key _
  simp only [FiniteMap.updateValue, hlookup] at hrepNext
  rw [assign, hnext] at hassign
  obtain rfl : next = after := by simpa [Except.mapError, bind, Except.bind] using hassign
  exact hrepNext

theorem insertNew_represents {value : V} (hrep : Represents map model)
    (hinsert : insertNew toKey map key value = .ok after) :
    model.lookup (toKey key) = none ∧ model.keys.card < N ∧
      Represents after (model.insert (toKey key) value) := by
  simp only [insertNew, bind_eq_ok, mapError_eq_ok] at hinsert
  obtain ⟨⟨next, outcome⟩, hnext, previous, rfl, hdone⟩ := hinsert
  obtain rfl : next = after := Except.ok.inj hdone
  have hsafe : model.Safe N toKey (.insertWithOptions key value true) := by
    by_contra hrefused
    rw [hrep.insertWithOptions_panics key value true hrefused] at hnext
    exact absurd hnext (by simp)
  obtain ⟨reached, hreached, hrepReached⟩ :=
    hrep.insertWithOptions key value true hsafe
  rw [hnext] at hreached
  obtain ⟨rfl, houtcome⟩ := Prod.mk.inj (Except.ok.inj hreached)
  cases hlookup : model.lookup (toKey key) with
  | some found => simp [FiniteMap.insertBounded, hlookup] at houtcome
  | none =>
      simp only [FiniteMap.insertBounded, hlookup] at houtcome hrepReached
      split_ifs at houtcome hrepReached with hfull
      exact ⟨rfl, not_le.mp hfull, hrepReached⟩

theorem removeEntry_represents (hrep : Represents map model)
    (hremove : removeEntry toKey map key = .ok after) :
    Represents after (model.erase (toKey key)) := by
  simp only [removeEntry, bind_eq_ok, mapError_eq_ok] at hremove
  obtain ⟨⟨next, removed⟩, hnext, hdone⟩ := hremove
  obtain rfl : next = after := Except.ok.inj hdone
  have hsafe : model.Safe N toKey (.remove key : Container.Operation Q K V) := by
    by_contra hrefused
    rw [hrep.remove_panics key hrefused] at hnext
    exact absurd hnext (by simp)
  obtain ⟨reached, hreached, hrepReached⟩ := hrep.remove key hsafe
  rw [hnext] at hreached
  obtain ⟨rfl, -⟩ := Prod.mk.inj (Except.ok.inj hreached)
  exact hrepReached

end Maps

variable {K : Type} [LinearOrder K]

structure Model (K : Type) where
  roles : FiniteMap K RoleMetadata
  members : FiniteMap Pubkey RoleBitmap

structure TableRepresents [Inhabited K] (table : RoleStore K) (model : Model K) : Prop where
  roles : Represents table.roles model.roles
  members : Represents table.members model.members

namespace Model

/-- The bits of a member; who is no member has none. -/
def bits (model : Model K) (authority : Pubkey) : RoleBitmap :=
  (model.members.lookup authority).getD 0

/-- Gives a member other bits, and drops it when it has none left. -/
def place (model : Model K) (authority : Pubkey) (bitmap : RoleBitmap) :
    Model K :=
  let members := model.members.insert authority bitmap
  { model with
    members := if bitmap.isEmpty then members.erase authority else members }

omit [LinearOrder K] in
@[simp]
theorem place_roles (model : Model K) (authority : Pubkey)
    (bitmap : RoleBitmap) : (model.place authority bitmap).roles = model.roles :=
  rfl

end Model

variable (toKey : RoleName → K)

/-- What a successful call does. -/
inductive Effect (model : Model K) : Call → Model K → Prop
  | created {role : RoleName} {metadata : RoleMetadata}
      (absent : model.roles.lookup (toKey role) = none)
      (room : model.roles.keys.card < maxRoles)
      (new : RoleMetadata.new role model.roles.keys.card = .ok metadata) :
      Effect model (.enableRole role)
        { model with roles := model.roles.insert (toKey role) metadata }
  | enabled {role : RoleName} {metadata : RoleMetadata}
      (found : model.roles.lookup (toKey role) = some metadata) :
      Effect model (.enableRole role)
        { model with
          roles := model.roles.insert (toKey role) metadata.setEnable }
  | disabled {role : RoleName} {metadata : RoleMetadata}
      (found : model.roles.lookup (toKey role) = some metadata) :
      Effect model (.disableRole role)
        { model with
          roles := model.roles.insert (toKey role) metadata.setDisable }
  | missing {role : RoleName}
      (absent : model.roles.lookup (toKey role) = none) :
      Effect model (.disableRole role) model
  | granted {authority : Pubkey} {role : RoleName} {metadata : RoleMetadata}
      (found : model.roles.lookup (toKey role) = some metadata)
      (named : metadata.name = .ok role) :
      Effect model (.grant authority role)
        (model.place authority
          ((model.bits authority).set metadata.index true))
  | revoked {authority : Pubkey} {role : RoleName} {metadata : RoleMetadata}
      (found : model.roles.lookup (toKey role) = some metadata)
      (named : metadata.name = .ok role) :
      Effect model (.revoke authority role)
        (model.place authority
          ((model.bits authority).set metadata.index false))

variable {toKey} {model : Model K} {role other : RoleName}
  {authority member : Pubkey}

section Calls

variable [Inhabited K] {table after : RoleStore K}

omit [LinearOrder K] [Inhabited K] in
theorem requireName_eq_ok {metadata : RoleMetadata} {result : Unit} :
    metadata.requireName role = .ok result ↔ metadata.name = .ok role := by
  simp only [RoleMetadata.requireName, bind_eq_ok, ensure_eq_ok]
  constructor
  · rintro ⟨name, hname, rfl⟩
    exact hname
  · intro hname
    exact ⟨role, hname, rfl⟩

theorem roleIndex_eq_ok (hrep : TableRepresents table model) {found : ℕ} :
    table.roleIndex toKey role = .ok (some found) ↔
      ∃ metadata, model.roles.lookup (toKey role) = some metadata ∧
        metadata.name = .ok role ∧ metadata.index = found := by
  simp only [roleIndex, find_eq hrep.roles]
  cases hlookup : model.roles.lookup (toKey role) with
  | none => simp [bind, Except.bind]
  | some metadata =>
      simp only [bind_eq_ok, Except.ok.injEq, exists_eq_left', mapError_eq_ok,
        requireName_eq_ok]
      simp

theorem enabledRoleIndex_eq_ok (hrep : TableRepresents table model) {found : ℕ} :
    table.enabledRoleIndex toKey role = .ok (some found) ↔
      ∃ metadata, model.roles.lookup (toKey role) = some metadata ∧
        metadata.name = .ok role ∧ metadata.isEnabled = true ∧
        metadata.index = found := by
  simp only [enabledRoleIndex, find_eq hrep.roles]
  cases hlookup : model.roles.lookup (toKey role) with
  | none => simp [bind, Except.bind]
  | some metadata =>
      simp only [bind_eq_ok, Except.ok.injEq, exists_eq_left', mapError_eq_ok,
        requireName_eq_ok, ensure_eq_ok]
      simp

theorem hasRole_eq_ok (hrep : TableRepresents table model) :
    table.hasRole toKey authority role = .ok true ↔
      ∃ metadata, model.roles.lookup (toKey role) = some metadata ∧
        metadata.name = .ok role ∧ metadata.isEnabled = true ∧
        (model.bits authority).get metadata.index = true := by
  simp only [hasRole, bind_eq_ok, find_eq_ok hrep.members, okOr_eq_ok,
    Except.ok.injEq, id_eq]
  constructor
  · rintro ⟨_, hmember, value, rfl, _, hfound, index, rfl, hbit⟩
    obtain ⟨metadata, hlookup, hname, henabled, rfl⟩ :=
      (enabledRoleIndex_eq_ok hrep).mp hfound
    refine ⟨metadata, hlookup, hname, henabled, ?_⟩
    rw [Model.bits, hmember]
    exact hbit
  · rintro ⟨metadata, hlookup, hname, henabled, hbit⟩
    cases hmember : model.members.lookup authority with
    | none =>
        rw [Model.bits, hmember, Option.getD_none, Bitmap.get_zero] at hbit
        exact absurd hbit Bool.false_ne_true
    | some value =>
        rw [Model.bits, hmember, Option.getD_some] at hbit
        exact ⟨_, rfl, value, rfl, _, (enabledRoleIndex_eq_ok hrep).mpr
          ⟨metadata, hlookup, hname, henabled, rfl⟩, _, rfl, hbit⟩

/-! ## The effect of a call -/

/-- The name that the metadata records is checked before anything else. -/
theorem enableRole_effect (hrep : TableRepresents table model)
    (hcall : table.enableRole toKey role = .ok after) :
    ∃ next, Effect toKey model (.enableRole role) next ∧
      TableRepresents after next := by
  simp only [enableRole, find_eq hrep.roles] at hcall
  cases hlookup : model.roles.lookup (toKey role) with
  | none =>
      simp only [hlookup, bind_eq_ok, Except.ok.injEq, exists_eq_left',
        tryIntoU8, ensure_eq_ok, mapError_eq_ok] at hcall
      obtain ⟨index, ⟨-, -, rfl⟩, metadata, hnew, roles, hinsert, rfl⟩ := hcall
      obtain ⟨-, hroom, hroles⟩ := insertNew_represents hrep.roles hinsert
      rw [FixedMap.len, ← hrep.roles.card_eq] at hnew
      exact ⟨_, .created hlookup hroom hnew, hroles, hrep.members⟩
  | some metadata =>
      simp only [hlookup, bind_eq_ok, Except.ok.injEq, exists_eq_left',
        mapError_eq_ok, RoleMetadata.enable] at hcall
      obtain ⟨-, -, _, ⟨-, -, rfl⟩, roles, hassign, rfl⟩ := hcall
      exact ⟨_, .enabled hlookup,
        assign_represents hrep.roles hlookup hassign, hrep.members⟩

theorem disableRole_effect (hrep : TableRepresents table model)
    (hcall : table.disableRole toKey role = .ok after) :
    ∃ next, Effect toKey model (.disableRole role) next ∧
      TableRepresents after next := by
  simp only [disableRole, find_eq hrep.roles] at hcall
  cases hlookup : model.roles.lookup (toKey role) with
  | none =>
      simp only [hlookup, bind_eq_ok, Except.ok.injEq, exists_eq_left'] at hcall
      subst hcall
      exact ⟨_, .missing hlookup, hrep⟩
  | some metadata =>
      simp only [hlookup, bind_eq_ok, Except.ok.injEq, exists_eq_left',
        mapError_eq_ok, RoleMetadata.disable] at hcall
      obtain ⟨-, -, _, ⟨-, -, rfl⟩, roles, hassign, rfl⟩ := hcall
      exact ⟨_, .disabled hlookup,
        assign_represents hrep.roles hlookup hassign, hrep.members⟩

omit [LinearOrder K] [Inhabited K] in
theorem place_of_isEmpty {bitmap : RoleBitmap} (hempty : bitmap.isEmpty = true) :
    model.place authority bitmap =
      { model with
        members := (model.members.insert authority bitmap).erase authority } := by
  simp [Model.place, hempty]

omit [LinearOrder K] [Inhabited K] in
theorem place_of_not_isEmpty {bitmap : RoleBitmap}
    (hne : ¬bitmap.isEmpty = true) :
    model.place authority bitmap =
      { model with members := model.members.insert authority bitmap } := by
  simp [Model.place, hne]

omit [LinearOrder K] [Inhabited K] in
theorem set_true_not_isEmpty (bitmap : RoleBitmap) {index : ℕ}
    (hindex : index < maxRoles) : ¬(bitmap.set index true).isEmpty = true := by
  intro hempty
  have hzero : bitmap.set index true = 0 := by
    exact Bitmap.isEmpty_iff.mp hempty
  have hbit := bitmap.get_set index true hindex
  rw [hzero, Bitmap.get_zero, if_pos rfl] at hbit
  exact Bool.false_ne_true hbit

theorem grant_effect (hindex : ∀ key metadata,
      model.roles.lookup key = some metadata → metadata.index < maxRoles)
    (hrep : TableRepresents table model)
    (hcall : table.grant toKey authority role = .ok after) :
    ∃ next, Effect toKey model (.grant authority role) next ∧
      TableRepresents after next := by
  simp only [grant, bind_eq_ok, okOr_eq_ok, find_eq_ok hrep.members,
    id_eq] at hcall
  obtain ⟨_, hfound, index, rfl, _, hmember, hcall⟩ := hcall
  obtain ⟨metadata, hlookup, hname, -, rfl⟩ :=
    (enabledRoleIndex_eq_ok hrep).mp hfound
  have hplace : model.place authority _ = _ := place_of_not_isEmpty
    (set_true_not_isEmpty (model.bits authority) (hindex _ _ hlookup))
  refine ⟨_, .granted hlookup hname, ?_⟩
  rw [hplace]
  cases hlookupMember : model.members.lookup authority with
  | none =>
      rw [hlookupMember] at hmember
      subst hmember
      simp only [bind_eq_ok, Except.ok.injEq] at hcall
      obtain ⟨members, hinsert, rfl⟩ := hcall
      obtain ⟨-, -, hmembers⟩ := insertNew_represents hrep.members hinsert
      rw [Model.bits, hlookupMember]
      exact ⟨hrep.roles, hmembers⟩
  | some value =>
      rw [hlookupMember] at hmember
      subst hmember
      simp only [bind_eq_ok, Except.ok.injEq] at hcall
      obtain ⟨-, -, members, hassign, rfl⟩ := hcall
      rw [Model.bits, hlookupMember]
      exact ⟨hrep.roles, assign_represents hrep.members hlookupMember hassign⟩

theorem revoke_effect (hrep : TableRepresents table model)
    (hcall : table.revoke toKey authority role = .ok after) :
    ∃ next, Effect toKey model (.revoke authority role) next ∧
      TableRepresents after next := by
  simp only [revoke, bind_eq_ok, okOr_eq_ok, find_eq_ok hrep.members,
    id_eq] at hcall
  obtain ⟨_, hfound, index, rfl, _, hmember, value, rfl, -, -, members,
    hassign, hcall⟩ := hcall
  obtain ⟨metadata, hlookup, hname, rfl⟩ := (roleIndex_eq_ok hrep).mp hfound
  have hassigned := assign_represents hrep.members hmember hassign
  have hbits : model.bits authority = value := by
    rw [Model.bits, hmember, Option.getD_some]
  refine ⟨_, .revoked hlookup hname, ?_⟩
  rw [hbits]
  by_cases hempty : (value.set metadata.index false).isEmpty = true
  · rw [if_pos hempty] at hcall
    simp only [bind_eq_ok, Except.ok.injEq] at hcall
    obtain ⟨members, hremove, rfl⟩ := hcall
    rw [place_of_isEmpty hempty]
    exact ⟨hrep.roles, removeEntry_represents hassigned hremove⟩
  · rw [if_neg hempty] at hcall
    obtain rfl := Except.ok.inj hcall
    rw [place_of_not_isEmpty hempty]
    exact ⟨hrep.roles, hassigned⟩

theorem perform_effect {call : Call} (hindex : ∀ key metadata,
      model.roles.lookup key = some metadata → metadata.index < maxRoles)
    (hrep : TableRepresents table model)
    (hcall : table.perform toKey call = .ok after) :
    ∃ next, Effect toKey model call next ∧ TableRepresents after next := by
  cases call with
  | enableRole role => exact enableRole_effect hrep hcall
  | disableRole role => exact disableRole_effect hrep hcall
  | grant authority role => exact grant_effect hindex hrep hcall
  | revoke authority role => exact revoke_effect hrep hcall

end Calls

/-! ## What the calls so far say -/

/-- The last successful call of a kind; the latest call comes first. -/
def lastSuccess (log : List Record) (about : Call → Prop)
    [DecidablePred about] : Option Call :=
  ((log.filter (·.succeeded)).map (·.call)).find? fun call => about call

def SetsRole (role : RoleName) (call : Call) : Prop :=
  call = .enableRole role ∨ call = .disableRole role

def SetsMember (authority : Pubkey) (role : RoleName) (call : Call) : Prop :=
  call = .grant authority role ∨ call = .revoke authority role

instance (role : RoleName) : DecidablePred (SetsRole role) :=
  fun _ => inferInstanceAs (Decidable (_ ∨ _))

instance (authority : Pubkey) (role : RoleName) :
    DecidablePred (SetsMember authority role) :=
  fun _ => inferInstanceAs (Decidable (_ ∨ _))

/-- The last successful call that enabled or disabled the role enabled it. -/
def Enabled (log : List Record) (role : RoleName) : Prop :=
  lastSuccess log (SetsRole role) = some (.enableRole role)

/-- The last successful grant or revoke of the role was a grant. -/
def Granted (log : List Record) (authority : Pubkey) (role : RoleName) : Prop :=
  lastSuccess log (SetsMember authority role) = some (.grant authority role)

theorem lastSuccess_failed (log : List Record) (call : Call)
    (about : Call → Prop) [DecidablePred about] :
    lastSuccess ({ call, succeeded := false } :: log) about =
      lastSuccess log about := by
  simp [lastSuccess]

theorem lastSuccess_succeeded (log : List Record) (call : Call)
    (about : Call → Prop) [DecidablePred about] :
    lastSuccess ({ call, succeeded := true } :: log) about =
      if about call then some call else lastSuccess log about := by
  by_cases habout : about call <;> simp [lastSuccess, habout]

theorem enabled_succeeded {log : List Record} {call : Call} :
    Enabled ({ call, succeeded := true } :: log) role ↔
      call = .enableRole role ∨
        (call ≠ .disableRole role ∧ Enabled log role) := by
  rw [Enabled, lastSuccess_succeeded, Enabled]
  by_cases henable : call = .enableRole role
  · simp [SetsRole, henable]
  · by_cases hdisable : call = .disableRole role
    · simp [SetsRole, hdisable]
    · simp [SetsRole, henable, hdisable]

theorem granted_succeeded {log : List Record} {call : Call} :
    Granted ({ call, succeeded := true } :: log) authority role ↔
      call = .grant authority role ∨
        (call ≠ .revoke authority role ∧ Granted log authority role) := by
  rw [Granted, lastSuccess_succeeded, Granted]
  by_cases hgrant : call = .grant authority role
  · simp [SetsMember, hgrant]
  · by_cases hrevoke : call = .revoke authority role
    · simp [SetsMember, hrevoke]
    · simp [SetsMember, hgrant, hrevoke]

/-! ## The invariant -/

/-- The role is recorded under its own name, with this index. -/
def HasIndex (toKey : RoleName → K) (model : Model K) (role : RoleName)
    (index : ℕ) : Prop :=
  ∃ metadata, model.roles.lookup (toKey role) = some metadata ∧
    metadata.name = .ok role ∧ metadata.index = index

/-- What the table holds after the calls of a log. -/
structure Holds (toKey : RoleName → K) (log : List Record) (model : Model K) :
    Prop where
  card_le : model.roles.keys.card ≤ maxRoles
  index_lt : ∀ key metadata, model.roles.lookup key = some metadata →
    metadata.index < model.roles.keys.card
  index_injective : ∀ key other metadata otherMetadata,
    model.roles.lookup key = some metadata →
    model.roles.lookup other = some otherMetadata →
    metadata.index = otherMetadata.index → key = other
  enabled_iff : ∀ role, Enabled log role ↔
    ∃ metadata, model.roles.lookup (toKey role) = some metadata ∧
      metadata.isEnabled = true
  granted_iff : ∀ authority role, Granted log authority role ↔
    ∃ index, HasIndex toKey model role index ∧
      (model.bits authority).get index = true
  bit_known : ∀ authority index, (model.bits authority).get index = true →
    ∃ role, HasIndex toKey model role index
  member_ne_zero : ∀ authority value,
    model.members.lookup authority = some value → value ≠ 0

section Updates

variable {metadata updated : RoleMetadata}

/-- A lookup after a role was written. -/
theorem lookup_insert_cases {key other : K} {found : RoleMetadata}
    {roles : FiniteMap K RoleMetadata}
    (hlookup : (roles.insert key updated).lookup other = some found) :
    (other = key ∧ found = updated) ∨ roles.lookup other = some found := by
  rcases (FiniteMap.lookup_insert_iff roles key other updated found).mp hlookup
    with hsame | ⟨-, hother⟩
  · exact .inl hsame
  · exact .inr hother

theorem keys_insert_of_mem {key : K} {roles : FiniteMap K RoleMetadata}
    (hfound : roles.lookup key = some metadata) :
    (roles.insert key updated).keys = roles.keys := by
  rw [FiniteMap.keys_insert, Finset.insert_eq_of_mem]
  exact Finmap.mem_keys.mpr (Finmap.mem_of_lookup_eq_some hfound)

/-- A write that only enables or disables a role leaves every index where it
was. -/
theorem hasIndex_of_update (hfound : model.roles.lookup (toKey role) = some metadata)
    (hname : updated.nameBytes = metadata.nameBytes)
    (hindex : updated.index = metadata.index) {index : ℕ} :
    HasIndex toKey { model with
      roles := model.roles.insert (toKey role) updated } other index ↔
      HasIndex toKey model other index := by
  by_cases hsame : toKey other = toKey role
  · rw [HasIndex, HasIndex, hsame, hfound, Finmap.lookup_insert]
    simp only [RoleMetadata.name, Option.some.injEq, exists_eq_left', hname,
      hindex]
  · simp only [HasIndex, Finmap.lookup_insert_of_ne model.roles hsame]

/-- Enabling or disabling a role that exists. -/
theorem Holds.update {log : List Record} {call : Call} (hinjective :
      Function.Injective toKey) (hholds : Holds toKey log model)
    (hfound : model.roles.lookup (toKey role) = some metadata)
    (hname : updated.nameBytes = metadata.nameBytes)
    (hindex : updated.index = metadata.index)
    (henabled : call = .enableRole role ∧ updated.isEnabled = true ∨
      call = .disableRole role ∧ updated.isEnabled = false) :
    Holds toKey ({ call, succeeded := true } :: log)
      { model with roles := model.roles.insert (toKey role) updated } where
  card_le := by
    rw [keys_insert_of_mem hfound]
    exact hholds.card_le
  index_lt := by
    intro key found hlookup
    rw [keys_insert_of_mem hfound]
    rcases lookup_insert_cases hlookup with ⟨-, rfl⟩ | hother
    · rw [hindex]
      exact hholds.index_lt _ _ hfound
    · exact hholds.index_lt _ _ hother
  index_injective := by
    -- Every entry has the index that the entry of its key had before.
    have hbefore : ∀ {key found},
        (model.roles.insert (toKey role) updated).lookup key = some found →
        ∃ old, model.roles.lookup key = some old ∧ old.index = found.index := by
      intro key found hlookup
      rcases lookup_insert_cases hlookup with ⟨rfl, rfl⟩ | hother
      · exact ⟨metadata, hfound, hindex.symm⟩
      · exact ⟨found, hother, rfl⟩
    intro key otherKey left right hleft hright hsame
    obtain ⟨oldLeft, holdLeft, hleftIndex⟩ := hbefore hleft
    obtain ⟨oldRight, holdRight, hrightIndex⟩ := hbefore hright
    apply hholds.index_injective _ _ _ _ holdLeft holdRight
    rw [hleftIndex, hrightIndex, hsame]
  enabled_iff := by
    intro other
    rw [enabled_succeeded]
    by_cases hsame : other = role
    · subst hsame
      rw [Finmap.lookup_insert]
      rcases henabled with ⟨rfl, hon⟩ | ⟨rfl, hoff⟩
      · simp [hon]
      · simp [hoff]
    · rw [Finmap.lookup_insert_of_ne _ (hinjective.ne hsame), ← hholds.enabled_iff]
      rcases henabled with ⟨rfl, -⟩ | ⟨rfl, -⟩
      · simp [Ne.symm hsame]
      · simp [Ne.symm hsame]
  granted_iff := by
    intro member other
    rw [granted_succeeded]
    simp only [hasIndex_of_update hfound hname hindex]
    rw [show Model.bits { model with
      roles := model.roles.insert (toKey role) updated } member =
        model.bits member from rfl, ← hholds.granted_iff]
    rcases henabled with ⟨rfl, -⟩ | ⟨rfl, -⟩
    · simp
    · simp
  bit_known := by
    intro member index hbit
    obtain ⟨other, hother⟩ := hholds.bit_known member index hbit
    exact ⟨other, (hasIndex_of_update hfound hname hindex).mpr hother⟩
  member_ne_zero := hholds.member_ne_zero

/-- A new role gets the index that no role has yet. -/
theorem Holds.create {log : List Record} (hinjective : Function.Injective toKey)
    (hholds : Holds toKey log model)
    (habsent : model.roles.lookup (toKey role) = none)
    (hroom : model.roles.keys.card < maxRoles)
    (hnew : RoleMetadata.new role model.roles.keys.card = .ok metadata) :
    Holds toKey ({ call := .enableRole role, succeeded := true } :: log)
      { model with roles := model.roles.insert (toKey role) metadata } := by
  obtain ⟨hindex, hon⟩ : metadata.index = model.roles.keys.card ∧
      metadata.isEnabled = true := by
    simp only [RoleMetadata.new, bind_eq_ok, Except.ok.injEq] at hnew
    obtain ⟨nameBytes, -, rfl⟩ := hnew
    exact ⟨rfl, by simp [RoleMetadata.isEnabled]⟩
  have hcard : (model.roles.insert (toKey role) metadata).keys.card =
      model.roles.keys.card + 1 := by
    rw [FiniteMap.keys_insert, Finset.card_insert_of_notMem]
    rw [Finmap.mem_keys]
    exact Finmap.lookup_eq_none.mp habsent
  -- The other roles keep their indices, and the new role had none.
  have hother : ∀ {other index}, other ≠ role →
      (HasIndex toKey { model with
        roles := model.roles.insert (toKey role) metadata } other index ↔
        HasIndex toKey model other index) := by
    intro other index hne
    simp only [HasIndex,
      Finmap.lookup_insert_of_ne model.roles (hinjective.ne hne)]
  have hnone : ∀ {index}, ¬HasIndex toKey model role index := by
    rintro index ⟨found, hfound, -⟩
    rw [habsent] at hfound
    exact absurd hfound (by simp)
  have hlt : ∀ {member index}, (model.bits member).get index = true →
      index < model.roles.keys.card := by
    intro member index hbit
    obtain ⟨known, found, hfound, -, rfl⟩ := hholds.bit_known member index hbit
    exact hholds.index_lt _ _ hfound
  refine ⟨?_, ?_, ?_, ?_, ?_, ?_, hholds.member_ne_zero⟩
  · rw [hcard]
    exact hroom
  · intro key found hlookup
    rw [hcard]
    rcases lookup_insert_cases hlookup with ⟨-, rfl⟩ | hold
    · rw [hindex]
      exact Nat.lt_succ_self _
    · exact (hholds.index_lt _ _ hold).trans (Nat.lt_succ_self _)
  · intro key otherKey left right hleft hright hsame
    rcases lookup_insert_cases hleft with ⟨rfl, rfl⟩ | hleftOld
    · rcases lookup_insert_cases hright with ⟨rfl, -⟩ | hrightOld
      · rfl
      · exact absurd (hholds.index_lt _ _ hrightOld) (by omega)
    · rcases lookup_insert_cases hright with ⟨rfl, rfl⟩ | hrightOld
      · exact absurd (hholds.index_lt _ _ hleftOld) (by omega)
      · exact hholds.index_injective _ _ _ _ hleftOld hrightOld hsame
  · intro other
    rw [enabled_succeeded]
    by_cases hsame : other = role
    · subst hsame
      simp [hon]
    · rw [Finmap.lookup_insert_of_ne _ (hinjective.ne hsame),
        ← hholds.enabled_iff]
      simp [Ne.symm hsame]
  · intro member other
    rw [granted_succeeded]
    simp only [reduceCtorEq, false_or, ne_eq, not_false_eq_true, true_and]
    rw [hholds.granted_iff]
    by_cases hsame : other = role
    · subst hsame
      constructor
      · rintro ⟨index, hnever, -⟩
        exact absurd hnever hnone
      · rintro ⟨_, ⟨found, hfound, -, rfl⟩, hbit⟩
        rw [Finmap.lookup_insert, Option.some.injEq] at hfound
        subst hfound
        exact absurd (hlt hbit) (by omega)
    · simp only [hother hsame]
      rfl
  · intro member index hbit
    obtain ⟨known, hknown⟩ := hholds.bit_known member index hbit
    have hne : known ≠ role := by
      rintro rfl
      exact hnone hknown
    exact ⟨known, (hother hne).mpr hknown⟩

end Updates

/-! ## Grants and revokes -/

omit [LinearOrder K] in
theorem bits_place (model : Model K) (authority member : Pubkey)
    (bitmap : RoleBitmap) :
    (model.place authority bitmap).bits member =
      if member = authority then bitmap else model.bits member := by
  by_cases hempty : bitmap.isEmpty = true
  · have hzero : bitmap = 0 := Bitmap.isEmpty_iff.mp hempty
    rw [place_of_isEmpty hempty]
    by_cases hsame : member = authority
    · subst hsame
      rw [Model.bits, Finmap.lookup_erase, if_pos rfl, hzero, Option.getD_none]
    · rw [Model.bits, Finmap.lookup_erase_ne hsame,
        Finmap.lookup_insert_of_ne _ hsame, if_neg hsame, Model.bits]
  · rw [place_of_not_isEmpty hempty]
    by_cases hsame : member = authority
    · subst hsame
      rw [Model.bits, Finmap.lookup_insert, if_pos rfl, Option.getD_some]
    · rw [Model.bits, Finmap.lookup_insert_of_ne _ hsame, if_neg hsame,
        Model.bits]

theorem HasIndex.unique {first second : ℕ}
    (hfirst : HasIndex toKey model role first)
    (hsecond : HasIndex toKey model role second) : first = second := by
  obtain ⟨metadata, hlookup, -, rfl⟩ := hfirst
  obtain ⟨found, hfound, -, rfl⟩ := hsecond
  rw [hlookup, Option.some.injEq] at hfound
  rw [hfound]

theorem Holds.role_eq {log : List Record} {index : ℕ}
    (hinjective : Function.Injective toKey) (hholds : Holds toKey log model)
    (hrole : HasIndex toKey model role index)
    (hother : HasIndex toKey model other index) : other = role := by
  obtain ⟨metadata, hlookup, -, rfl⟩ := hrole
  obtain ⟨found, hfound, -, hsame⟩ := hother
  exact hinjective (hholds.index_injective _ _ _ _ hfound hlookup hsame)

/-- A grant sets the bit of its role, and a revoke clears it. -/
theorem Holds.place {log : List Record} {call : Call} {index : ℕ} {value : Bool}
    (hinjective : Function.Injective toKey) (hholds : Holds toKey log model)
    (hrole : HasIndex toKey model role index)
    (hcall : call = .grant authority role ∧ value = true ∨
      call = .revoke authority role ∧ value = false) :
    Holds toKey ({ call, succeeded := true } :: log)
      (model.place authority ((model.bits authority).set index value)) := by
  have hindex : index < maxRoles := by
    obtain ⟨metadata, hlookup, -, rfl⟩ := hrole
    exact (hholds.index_lt _ _ hlookup).trans_le hholds.card_le
  refine ⟨hholds.card_le, hholds.index_lt, hholds.index_injective, ?_, ?_, ?_, ?_⟩
  · intro other
    rw [enabled_succeeded]
    rcases hcall with ⟨rfl, -⟩ | ⟨rfl, -⟩
    · simpa using hholds.enabled_iff other
    · simpa using hholds.enabled_iff other
  · intro member other
    rw [granted_succeeded, bits_place]
    by_cases hmember : member = authority
    · subst hmember
      rw [if_pos rfl]
      by_cases hsame : other = role
      · subst hsame
        -- The bit of the role itself is the one that was written.
        have hwritten : (∃ found, HasIndex toKey model other found ∧
            ((model.bits member).set index value).get found = true) ↔
            value = true := by
          constructor
          · rintro ⟨found, hfound, hbit⟩
            rw [hfound.unique hrole, Bitmap.get_set _ _ _ hindex,
              if_pos rfl] at hbit
            exact hbit
          · intro hvalue
            refine ⟨index, hrole, ?_⟩
            rw [Bitmap.get_set _ _ _ hindex, if_pos rfl]
            exact hvalue
        refine Iff.trans ?_ hwritten.symm
        rcases hcall with ⟨rfl, rfl⟩ | ⟨rfl, rfl⟩
        · simp
        · simp
      · -- Another role has another bit.
        have hkept : ∀ found, HasIndex toKey model other found →
            ((model.bits member).set index value).get found =
              (model.bits member).get found := by
          intro found hfound
          rw [Bitmap.get_set _ _ _ hindex, if_neg]
          rintro rfl
          exact hsame (hholds.role_eq hinjective hrole hfound)
        have hbits : (∃ found, HasIndex toKey model other found ∧
            ((model.bits member).set index value).get found = true) ↔
            Granted log member other := by
          rw [hholds.granted_iff]
          apply exists_congr
          intro found
          apply and_congr_right
          intro hfound
          rw [hkept found hfound]
        refine Iff.trans ?_ hbits.symm
        rcases hcall with ⟨rfl, -⟩ | ⟨rfl, -⟩
        · simp [Ne.symm hsame]
        · simp [Ne.symm hsame]
    · rw [if_neg hmember]
      refine Iff.trans ?_ (hholds.granted_iff member other)
      rcases hcall with ⟨rfl, -⟩ | ⟨rfl, -⟩
      · simp [Ne.symm hmember]
      · simp [Ne.symm hmember]
  · intro member found hbit
    rw [bits_place] at hbit
    by_cases hmember : member = authority
    · rw [if_pos hmember, Bitmap.get_set _ _ _ hindex] at hbit
      by_cases hsame : found = index
      · exact ⟨role, hsame ▸ hrole⟩
      · rw [if_neg hsame] at hbit
        exact hholds.bit_known authority found hbit
    · rw [if_neg hmember] at hbit
      exact hholds.bit_known member found hbit
  · intro member bitmap hlookup
    by_cases hempty : ((model.bits authority).set index value).isEmpty = true
    · rw [place_of_isEmpty hempty, FiniteMap.lookup_erase_iff,
        FiniteMap.lookup_insert_iff] at hlookup
      obtain ⟨hne, ⟨hsame, -⟩ | ⟨-, hold⟩⟩ := hlookup
      · exact absurd hsame hne
      · exact hholds.member_ne_zero member bitmap hold
    · rw [place_of_not_isEmpty hempty, FiniteMap.lookup_insert_iff] at hlookup
      obtain ⟨-, rfl⟩ | ⟨-, hold⟩ := hlookup
      · intro hzero
        exact hempty (Bitmap.isEmpty_iff.mpr hzero)
      · exact hholds.member_ne_zero member bitmap hold

/-! ## Steps and runs -/

/-- Every effect of a call keeps the invariant. -/
theorem Holds.effect {log : List Record} {call : Call} {next : Model K}
    (hinjective : Function.Injective toKey) (hholds : Holds toKey log model)
    (heffect : Effect toKey model call next) :
    Holds toKey ({ call, succeeded := true } :: log) next := by
  cases heffect with
  | created absent room new => exact hholds.create hinjective absent room new
  | enabled found =>
      exact hholds.update hinjective found rfl rfl
        (.inl ⟨rfl, by simp [RoleMetadata.isEnabled, RoleMetadata.setEnable]⟩)
  | disabled found =>
      exact hholds.update hinjective found rfl rfl
        (.inr ⟨rfl, by simp [RoleMetadata.isEnabled, RoleMetadata.setDisable,
          RoleMetadata.roleEnabled]⟩)
  | @missing role absent =>
      refine ⟨hholds.card_le, hholds.index_lt, hholds.index_injective, ?_, ?_,
        hholds.bit_known, hholds.member_ne_zero⟩
      · intro other
        rw [enabled_succeeded, ← hholds.enabled_iff]
        by_cases hsame : other = role
        · subst hsame
          simp [hholds.enabled_iff, absent]
        · simp [Ne.symm hsame]
      · intro member other
        rw [granted_succeeded, ← hholds.granted_iff]
        simp
  | granted found named =>
      exact hholds.place hinjective ⟨_, found, named, rfl⟩ (.inl ⟨rfl, rfl⟩)
  | revoked found named =>
      exact hholds.place hinjective ⟨_, found, named, rfl⟩ (.inr ⟨rfl, rfl⟩)

/-- A role that exists goes on existing, with its index. -/
theorem Effect.keeps_index {call : Call} {next : Model K} {key : K}
    {metadata : RoleMetadata} (heffect : Effect toKey model call next)
    (hlookup : model.roles.lookup key = some metadata) :
    ∃ kept, next.roles.lookup key = some kept ∧
      kept.index = metadata.index := by
  cases heffect with
  | @created role _ absent room new =>
      have hne : key ≠ toKey role := by
        rintro rfl
        rw [absent] at hlookup
        exact absurd hlookup (by simp)
      exact ⟨metadata, by rw [Finmap.lookup_insert_of_ne _ hne, hlookup], rfl⟩
  | @enabled role found hfound | @disabled role found hfound =>
      by_cases hsame : key = toKey role
      · subst hsame
        rw [hfound, Option.some.injEq] at hlookup
        exact ⟨_, Finmap.lookup_insert _, by rw [← hlookup]; rfl⟩
      · exact ⟨metadata, by rw [Finmap.lookup_insert_of_ne _ hsame, hlookup], rfl⟩
  | missing absent => exact ⟨metadata, hlookup, rfl⟩
  | granted found named | revoked found named => exact ⟨metadata, hlookup, rfl⟩

section Runs

variable [Inhabited K] {table after : RoleStore K} {log : List Record}

/-- The table is one whose two maps hold what the log says. -/
def Reached (toKey : RoleName → K) (log : List Record) (table : RoleStore K) :
    Prop :=
  ∃ model, TableRepresents table model ∧ Holds toKey log model

theorem reached_zeroed : Reached toKey [] (zeroed : RoleStore K) := by
  refine ⟨⟨∅, ∅⟩, ⟨represents_zeroed, represents_zeroed⟩, ?_⟩
  refine ⟨by simp, ?_, ?_, ?_, ?_, ?_, ?_⟩
  · intro key metadata hlookup
    exact absurd hlookup (by simp)
  · intro key otherKey metadata found hlookup
    exact absurd hlookup (by simp)
  · intro role
    simp [Enabled, lastSuccess]
  · intro authority role
    simp [Granted, lastSuccess, HasIndex]
  · intro authority index hbit
    exact absurd hbit (by simp [Model.bits, Bitmap.get])
  · intro authority value hlookup
    exact absurd hlookup (by simp)

omit [Inhabited K] in
theorem Holds.index_lt_max (hholds : Holds toKey log model) (key : K)
    (metadata : RoleMetadata)
    (hlookup : model.roles.lookup key = some metadata) :
    metadata.index < maxRoles :=
  (hholds.index_lt key metadata hlookup).trans_le hholds.card_le

omit [Inhabited K] in
/-- A step fails and changes nothing, or has the effect of its call. -/
theorem step_cases {call : Call} {record : Record}
    (hstep : step toKey table call = .ok (after, record)) :
    (record = { call, succeeded := false } ∧ after = table) ∨
      (record = { call, succeeded := true } ∧
        table.perform toKey call = .ok after) := by
  rw [step] at hstep
  cases hperform : table.perform toKey call with
  | error failure =>
      rw [hperform] at hstep
      obtain ⟨rfl, rfl⟩ := Prod.mk.inj (Except.ok.inj hstep)
      exact .inl ⟨rfl, rfl⟩
  | ok next =>
      rw [hperform] at hstep
      obtain ⟨rfl, rfl⟩ := Prod.mk.inj (Except.ok.inj hstep)
      exact .inr ⟨rfl, rfl⟩

theorem enabled_failed {call : Call} :
    Enabled ({ call, succeeded := false } :: log) role ↔ Enabled log role := by
  rw [Enabled, lastSuccess_failed, Enabled]

theorem granted_failed {call : Call} :
    Granted ({ call, succeeded := false } :: log) authority role ↔
      Granted log authority role := by
  rw [Granted, lastSuccess_failed, Granted]

theorem Reached.next {call : Call} {record : Record}
    (hinjective : Function.Injective toKey) (hreached : Reached toKey log table)
    (hstep : step toKey table call = .ok (after, record)) :
    Reached toKey (record :: log) after := by
  obtain ⟨model, hrep, hholds⟩ := hreached
  rcases step_cases hstep with ⟨rfl, rfl⟩ | ⟨rfl, hperform⟩
  · refine ⟨model, hrep, hholds.card_le, hholds.index_lt,
      hholds.index_injective, ?_, ?_, hholds.bit_known, hholds.member_ne_zero⟩
    · intro role
      rw [enabled_failed, hholds.enabled_iff]
    · intro authority role
      rw [granted_failed, hholds.granted_iff]
  · obtain ⟨next, heffect, hrepNext⟩ :=
      perform_effect hholds.index_lt_max hrep hperform
    exact ⟨next, hrepNext, hholds.effect hinjective heffect⟩

theorem reached_of_run (hinjective : Function.Injective toKey)
    (hrun : Run (step toKey) (fun _ _ => True) zeroed log table) :
    Reached toKey log table := by
  apply hrun.invariant (Reached toKey) reached_zeroed
  intro outputs before call next record hreached _ hstep
  exact hreached.next hinjective hstep

/-- What a later call leaves of the index of a role. -/
theorem Reached.index_kept {later : RoleStore K} {more : List Record}
    {metadata : RoleMetadata} (hinjective : Function.Injective toKey)
    (hreached : Reached toKey log table)
    (hfind : find toKey table.roles role = .ok (some metadata))
    (hrun : Run (step toKey) (fun _ _ => True) table more later) :
    ∃ kept, find toKey later.roles role = .ok (some kept) ∧
      kept.index = metadata.index := by
  have hkept : ∃ earlier, Reached toKey earlier later ∧
      ∃ kept, find toKey later.roles role = .ok (some kept) ∧
        kept.index = metadata.index := by
    apply hrun.invariant (fun _ state => ∃ earlier,
      Reached toKey earlier state ∧ ∃ kept,
        find toKey state.roles role = .ok (some kept) ∧
          kept.index = metadata.index) ⟨log, hreached, metadata, hfind, rfl⟩
    rintro outputs before call next record
      ⟨earlier, hbefore, kept, hkept, hindex⟩ _ hstep
    refine ⟨record :: earlier, hbefore.next hinjective hstep, ?_⟩
    rcases step_cases hstep with ⟨-, rfl⟩ | ⟨-, hperform⟩
    · exact ⟨kept, hkept, hindex⟩
    · obtain ⟨model, hrep, hholds⟩ := hbefore
      obtain ⟨nextModel, heffect, hrepNext⟩ :=
        perform_effect hholds.index_lt_max hrep hperform
      rw [find_eq_ok hrep.roles] at hkept
      obtain ⟨found, hfound, hsame⟩ := heffect.keeps_index hkept
      exact ⟨found, (find_eq_ok hrepNext.roles).mpr hfound, hsame.trans hindex⟩
  obtain ⟨-, -, hfinal⟩ := hkept
  exact hfinal

theorem Reached.hasRole_iff (hreached : Reached toKey log table) :
    table.hasRole toKey authority role = .ok true ↔
      Enabled log role ∧ Granted log authority role := by
  obtain ⟨model, hrep, hholds⟩ := hreached
  rw [hasRole_eq_ok hrep, hholds.enabled_iff, hholds.granted_iff]
  constructor
  · rintro ⟨metadata, hlookup, hname, henabled, hbit⟩
    exact ⟨⟨metadata, hlookup, henabled⟩, _, ⟨metadata, hlookup, hname, rfl⟩, hbit⟩
  · rintro ⟨⟨metadata, hlookup, henabled⟩, _, ⟨found, hfound, hname, rfl⟩, hbit⟩
    rw [hlookup, Option.some.injEq] at hfound
    subst hfound
    exact ⟨metadata, hlookup, hname, henabled, hbit⟩

/-- The call is about this role, and about this member if it is a grant or a
revoke. -/
def Concerns (authority : Pubkey) (role : RoleName) (call : Call) : Prop :=
  SetsRole role call ∨ SetsMember authority role call

theorem Reached.unaffected {call : Call} {record : Record}
    (hinjective : Function.Injective toKey) (hreached : Reached toKey log table)
    (hstep : step toKey table call = .ok (after, record))
    (hother : ¬Concerns authority role call) :
    after.hasRole toKey authority role = .ok true ↔
      table.hasRole toKey authority role = .ok true := by
  rw [(hreached.next hinjective hstep).hasRole_iff, hreached.hasRole_iff]
  simp only [Concerns, SetsRole, SetsMember, not_or] at hother
  obtain ⟨⟨henable, hdisable⟩, hgrant, hrevoke⟩ := hother
  rcases step_cases hstep with ⟨rfl, -⟩ | ⟨rfl, -⟩
  · rw [enabled_failed, granted_failed]
  · rw [enabled_succeeded, granted_succeeded]
    simp [henable, hdisable, hgrant, hrevoke]

theorem Reached.member_iff (hreached : Reached toKey log table) :
    (∃ value, find id table.members authority = .ok (some value)) ↔
      ∃ role, Granted log authority role := by
  obtain ⟨model, hrep, hholds⟩ := hreached
  simp only [find_eq_ok hrep.members, id_eq, hholds.granted_iff]
  constructor
  · rintro ⟨value, hlookup⟩
    obtain ⟨index, -, hbit⟩ := Bitmap.exists_get_of_ne_zero
      (hholds.member_ne_zero authority value hlookup)
    have hheld : (model.bits authority).get index = true := by
      rw [Model.bits, hlookup]
      exact hbit
    obtain ⟨role, hrole⟩ := hholds.bit_known authority index hheld
    exact ⟨role, index, hrole, hheld⟩
  · rintro ⟨role, index, -, hbit⟩
    cases hlookup : model.members.lookup authority with
    | some value => exact ⟨value, rfl⟩
    | none =>
        rw [Model.bits, hlookup, Option.getD_none, Bitmap.get_zero] at hbit
        exact absurd hbit Bool.false_ne_true

/-- What a role table tells about the calls so far. -/
structure Correct (toKey : RoleName → K) (log : List Record)
    (table : RoleStore K) : Prop where
  hasRole_iff : ∀ authority role,
    table.hasRole toKey authority role = .ok true ↔
      Enabled log role ∧ Granted log authority role
  index_lt : ∀ role metadata,
    find toKey table.roles role = .ok (some metadata) →
    metadata.index < maxRoles
  index_ne : ∀ role other metadata otherMetadata, role ≠ other →
    find toKey table.roles role = .ok (some metadata) →
    find toKey table.roles other = .ok (some otherMetadata) →
    metadata.index ≠ otherMetadata.index
  index_kept : ∀ role metadata more later,
    find toKey table.roles role = .ok (some metadata) →
    Run (step toKey) (fun _ _ => True) table more later →
    ∃ kept, find toKey later.roles role = .ok (some kept) ∧
      kept.index = metadata.index
  member_iff : ∀ authority,
    (∃ value, find id table.members authority = .ok (some value)) ↔
      ∃ role, Granted log authority role
  member_bits : ∀ authority value,
    find id table.members authority = .ok (some value) →
    ∃ index < maxRoles, value.get index = true
  unaffected : ∀ call after record authority role,
    step toKey table call = .ok (after, record) →
    ¬Concerns authority role call →
    (after.hasRole toKey authority role = .ok true ↔
      table.hasRole toKey authority role = .ok true)

/-- The role table is correct after every sequence of calls. -/
theorem correct_of_run {toKey : RoleName → K}
    (hinjective : Function.Injective toKey) {table : RoleStore K}
    {log : List Record}
    (hrun : Run (step toKey) (fun _ _ => True) zeroed log table) :
    Correct toKey log table := by
  have hreached := reached_of_run hinjective hrun
  obtain ⟨model, hrep, hholds⟩ := id hreached
  refine ⟨fun _ _ => hreached.hasRole_iff, ?_, ?_, ?_,
    fun _ => hreached.member_iff, ?_, ?_⟩
  · intro role metadata hfind
    exact hholds.index_lt_max _ _ ((find_eq_ok hrep.roles).mp hfind)
  · intro role other metadata otherMetadata hne hfind hother hsame
    exact hne (hinjective (hholds.index_injective _ _ _ _
      ((find_eq_ok hrep.roles).mp hfind) ((find_eq_ok hrep.roles).mp hother)
      hsame))
  · intro role metadata more later hfind hlater
    exact hreached.index_kept hinjective hfind hlater
  · intro authority value hfind
    exact Bitmap.exists_get_of_ne_zero (hholds.member_ne_zero authority value
      ((find_eq_ok hrep.members).mp hfind))
  · intro call after record authority role hstep hother
    exact hreached.unaffected hinjective hstep hother

/-- A role that is disabled while it is held, and a second member. -/
def disabledAndRevoked : List Call :=
  [.enableRole [71, 84], .enableRole [77, 75], .grant 1 [71, 84],
    .grant 1 [77, 75], .grant 2 [71, 84], .revoke 2 [71, 84],
    .disableRole [77, 75], .grant 2 [77, 75]]

theorem correct_of_disabledAndRevoked :
    ∃ (table : RoleStore (List Byte)) (log : List Record),
      table.hasRole id 1 [71, 84] = .ok true ∧
        ¬table.hasRole id 1 [77, 75] = .ok true ∧ Correct id log table := by
  have hrun : ∃ result, Gmsol.perform (step (id : RoleName → List Byte))
      (fun _ _ => True) ([], zeroed) disabledAndRevoked = some result ∧
      (result.2.hasRole id 1 [71, 84] = .ok true ∧
        ¬result.2.hasRole id 1 [77, 75] = .ok true) :=
    exists_of_any (by decide +kernel)
  obtain ⟨⟨log, table⟩, hperform, hheld, hdisabled⟩ := hrun
  exact ⟨table, log, hheld, hdisabled,
    correct_of_run Function.injective_id (Run.perform .refl hperform)⟩

end Runs

end RoleStore

end Gmsol.Store
