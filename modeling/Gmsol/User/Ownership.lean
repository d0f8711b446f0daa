import Gmsol.User.Referral

/-!
# Ownership of referral codes

The owner of a code is kept in the code and the code of a user in the user.
This module keeps the two records together while users and codes are created
and codes move.
-/

namespace Gmsol.User

open Gmsol.Fallible

variable {Address Code : Type} [DecidableEq Address] [Inhabited Address]
  {derive : Addresses Address Code}

abbrev Users (Address : Type) : Type := IndexMap Address (UserHeader Address)

abbrev Codes (Address Code : Type) : Type :=
  IndexMap Address (ReferralCode Address Code)

/-! ## Users that agree on a view -/

/-- The users have the same accounts, up to what the view leaves out. -/
def AgreeOn {β : Type} (view : UserHeader Address → β)
    (users next : Users Address) : Prop :=
  ∀ key, (next.get key).map view = (users.get key).map view

section AgreeOn

variable {β : Type} {view : UserHeader Address → β} {users next : Users Address}
  {key : Address} {header : UserHeader Address}

omit [Inhabited Address] in
theorem AgreeOn.trans {last : Users Address} (hfirst : AgreeOn view users next)
    (hsecond : AgreeOn view next last) : AgreeOn view users last :=
  fun key => (hsecond key).trans (hfirst key)

omit [Inhabited Address] in
theorem AgreeOn.before (hagree : AgreeOn view users next)
    (hget : next.get key = some header) :
    ∃ old, users.get key = some old ∧ view old = view header := by
  have hview := hagree key
  rw [hget, Option.map_some] at hview
  exact Option.map_eq_some_iff.mp hview.symm

omit [Inhabited Address] in
theorem AgreeOn.after (hagree : AgreeOn view users next)
    (hget : users.get key = some header) :
    ∃ new, next.get key = some new ∧ view new = view header := by
  have hview := hagree key
  rw [hget, Option.map_some] at hview
  exact Option.map_eq_some_iff.mp hview

omit [Inhabited Address] in
theorem agreeOn_set {old new : UserHeader Address}
    (hget : users.get key = some old) (hview : view new = view old) :
    AgreeOn view users (users.set key new) := by
  intro other
  rw [IndexMap.get_set (IndexMap.mem_keys_of_get hget)]
  split
  · rename_i hsame
    rw [hsame, hget, Option.map_some, Option.map_some, hview]
  · rfl

end AgreeOn

/-- What links a user to its code. -/
def linkView (header : UserHeader Address) : Address × Bool × Address :=
  (header.owner, header.isInitialized, header.referral.code)

/-! ## Codes and their owners -/

/-- The owners of the codes have the codes of their owners. -/
structure Linked (derive : Addresses Address Code) (users : Users Address)
    (codes : Codes Address Code) : Prop where
  user_at : ∀ {key header}, users.get key = some header →
    key = derive.userAddress header.owner
  initialized : ∀ {key header}, users.get key = some header →
    header.isInitialized = true
  code_ne_default : ∀ {key code}, codes.get key = some code → key ≠ default
  linked : ∀ {key code}, codes.get key = some code → ∃ header,
    users.get (derive.userAddress code.owner) = some header ∧
      header.referral.code = key
  backed : ∀ {key header}, users.get key = some header →
    header.referral.code ≠ default → ∃ code,
      codes.get header.referral.code = some code ∧ code.owner = header.owner

section Linked

variable {users next : Users Address} {codes : Codes Address Code}
  {key codeKey : Address} {header : UserHeader Address}
  {code : ReferralCode Address Code}

theorem Linked.owner_eq (hlinked : Linked derive users codes) {other : Address}
    {old : UserHeader Address} (hget : users.get key = some header)
    (hother : users.get other = some old) (howner : header.owner = old.owner) :
    key = other := by
  rw [hlinked.user_at hget, hlinked.user_at hother, howner]

/-- The owner of a code is the user whose code it is. -/
theorem Linked.owner_iff (hlinked : Linked derive users codes)
    (hcode : codes.get codeKey = some code) (hget : users.get key = some header) :
    code.owner = header.owner ↔ header.referral.code = codeKey := by
  constructor
  · intro howner
    obtain ⟨found, hfound, hlink⟩ := hlinked.linked hcode
    rw [howner, ← hlinked.user_at hget, hget] at hfound
    obtain rfl := Option.some.inj hfound
    exact hlink
  · intro hlink
    obtain ⟨other, hother, howner⟩ := hlinked.backed hget
      (hlink ▸ hlinked.code_ne_default hcode)
    rw [hlink, hcode] at hother
    obtain rfl := Option.some.inj hother
    exact howner

/-- No owner has two codes. -/
theorem Linked.code_unique (hlinked : Linked derive users codes)
    {other : Address} {second : ReferralCode Address Code}
    (hcode : codes.get codeKey = some code) (hother : codes.get other = some second)
    (howner : code.owner = second.owner) : codeKey = other := by
  obtain ⟨header, hget, hlink⟩ := hlinked.linked hcode
  obtain ⟨found, hfound, hlinkOther⟩ := hlinked.linked hother
  rw [howner, hfound] at hget
  obtain rfl := Option.some.inj hget
  exact hlink.symm.trans hlinkOther

theorem linked_empty : Linked derive .empty (.empty : Codes Address Code) where
  user_at hget := absurd hget (by simp [IndexMap.get, IndexMap.empty, IndexMap.find])
  initialized hget := absurd hget (by simp [IndexMap.get, IndexMap.empty, IndexMap.find])
  code_ne_default hget :=
    absurd hget (by simp [IndexMap.get, IndexMap.empty, IndexMap.find])
  linked hget := absurd hget (by simp [IndexMap.get, IndexMap.empty, IndexMap.find])
  backed hget := absurd hget (by simp [IndexMap.get, IndexMap.empty, IndexMap.find])

theorem Linked.agree (hlinked : Linked derive users codes)
    (hagree : AgreeOn linkView users next) : Linked derive next codes where
  user_at hget := by
    obtain ⟨old, hold, hview⟩ := hagree.before hget
    simp only [linkView, Prod.mk.injEq] at hview
    exact hview.1 ▸ hlinked.user_at hold
  initialized hget := by
    obtain ⟨old, hold, hview⟩ := hagree.before hget
    simp only [linkView, Prod.mk.injEq] at hview
    exact hview.2.1 ▸ hlinked.initialized hold
  code_ne_default := hlinked.code_ne_default
  linked hcode := by
    obtain ⟨old, hold, hlink⟩ := hlinked.linked hcode
    obtain ⟨new, hnew, hview⟩ := hagree.after hold
    simp only [linkView, Prod.mk.injEq] at hview
    exact ⟨new, hnew, hview.2.2.trans hlink⟩
  backed hget hne := by
    obtain ⟨old, hold, hview⟩ := hagree.before hget
    simp only [linkView, Prod.mk.injEq] at hview
    rw [← hview.2.2] at hne ⊢
    rw [← hview.1]
    exact hlinked.backed hold hne

/-- Writing a code that keeps its owner. -/
theorem Linked.setCode (hlinked : Linked derive users codes)
    (hcode : codes.get codeKey = some code) {written : ReferralCode Address Code}
    (howner : written.owner = code.owner) :
    Linked derive users (codes.set codeKey written) := by
  have hget := fun other => IndexMap.get_set (IndexMap.mem_keys_of_get hcode) written other
  refine ⟨hlinked.user_at, hlinked.initialized, ?_, ?_, ?_⟩
  · intro other found hfound
    rw [hget] at hfound
    split at hfound
    · rename_i hsame
      exact hsame ▸ hlinked.code_ne_default hcode
    · exact hlinked.code_ne_default hfound
  · intro other found hfound
    rw [hget] at hfound
    split at hfound
    · rename_i hsame
      obtain rfl := Option.some.inj hfound
      rw [howner, hsame]
      exact hlinked.linked hcode
    · exact hlinked.linked hfound
  · intro other found hfound hne
    obtain ⟨old, hold, holdOwner⟩ := hlinked.backed hfound hne
    rw [hget]
    split
    · rename_i hsame
      rw [hsame, hcode] at hold
      obtain rfl := Option.some.inj hold
      exact ⟨written, rfl, howner.trans holdOwner⟩
    · exact ⟨old, hold, holdOwner⟩

/-- A new user has no code. -/
theorem Linked.insertUser (hlinked : Linked derive users codes) {owner : Address}
    (hvacant : derive.userAddress owner ∉ users.keys) :
    Linked derive
      (users.insertVacant (derive.userAddress owner) (.init owner) hvacant)
      codes := by
  have hget := fun other =>
    users.get_insertVacant (derive.userAddress owner) other (.init owner) hvacant
  refine ⟨?_, ?_, hlinked.code_ne_default, ?_, ?_⟩
  · intro other found hfound
    rw [hget] at hfound
    split at hfound
    · rename_i hsame
      obtain rfl := Option.some.inj hfound
      exact hsame
    · exact hlinked.user_at hfound
  · intro other found hfound
    rw [hget] at hfound
    split at hfound
    · obtain rfl := Option.some.inj hfound
      rfl
    · exact hlinked.initialized hfound
  · intro other found hfound
    obtain ⟨old, hold, hlink⟩ := hlinked.linked hfound
    refine ⟨old, ?_, hlink⟩
    rw [hget, if_neg]
    · exact hold
    · intro hsame
      rw [hsame] at hold
      exact hvacant (IndexMap.mem_keys_of_get hold)
  · intro other found hfound hne
    rw [hget] at hfound
    split at hfound
    · obtain rfl := Option.some.inj hfound
      exact absurd rfl hne
    · exact hlinked.backed hfound hne

/-- A user without a code gets a new one. -/
theorem Linked.insertCode (hlinked : Linked derive users codes)
    (hget : users.get key = some header) (hnone : header.referral.code = default)
    (hvacant : codeKey ∉ codes.keys) (hne : codeKey ≠ default)
    (howner : code.owner = header.owner) :
    Linked derive (users.set key { header with
        referral := { header.referral with code := codeKey } })
      (codes.insertVacant codeKey code hvacant) := by
  have husers := fun other => IndexMap.get_set (IndexMap.mem_keys_of_get hget)
    ({ header with referral := { header.referral with code := codeKey } } :
      UserHeader Address) other
  have hcodes := fun other => codes.get_insertVacant codeKey other code hvacant
  have hat := hlinked.user_at hget
  refine ⟨?_, ?_, ?_, ?_, ?_⟩
  · intro other found hfound
    rw [husers] at hfound
    split at hfound
    · rename_i hsame
      obtain rfl := Option.some.inj hfound
      exact hsame.trans hat
    · exact hlinked.user_at hfound
  · intro other found hfound
    rw [husers] at hfound
    split at hfound
    · obtain rfl := Option.some.inj hfound
      have hinitialized := hlinked.initialized hget
      exact hinitialized
    · exact hlinked.initialized hfound
  · intro other found hfound
    rw [hcodes] at hfound
    split at hfound
    · rename_i hsame
      exact hsame ▸ hne
    · exact hlinked.code_ne_default hfound
  · intro other found hfound
    rw [hcodes] at hfound
    split at hfound
    · rename_i hsame
      obtain rfl := Option.some.inj hfound
      rw [howner, ← hat, husers, if_pos rfl]
      exact ⟨_, rfl, hsame.symm⟩
    · obtain ⟨old, hold, hlink⟩ := hlinked.linked hfound
      refine ⟨old, ?_, hlink⟩
      rw [husers, if_neg]
      · exact hold
      · -- the user had no code, so it is not the owner of this one
        intro hsame
        rw [hsame, hget] at hold
        obtain rfl := Option.some.inj hold
        exact hlinked.code_ne_default hfound (hlink.symm.trans hnone)
  · intro other found hfound hneFound
    rw [husers] at hfound
    split at hfound
    · obtain rfl := Option.some.inj hfound
      refine ⟨code, ?_, howner⟩
      rw [hcodes, if_pos rfl]
    · obtain ⟨old, hold, holdOwner⟩ := hlinked.backed hfound hneFound
      refine ⟨old, ?_, holdOwner⟩
      rw [hcodes, if_neg]
      · exact hold
      · intro hsame
        exact hvacant (hsame ▸ IndexMap.mem_keys_of_get hold)

/-- The users after one of them has handed its code to another. -/
def codeMoved (users : Users Address) (key receiverKey : Address)
    (header receiver : UserHeader Address) : Users Address :=
  (users.set key { header with
      referral := { header.referral with code := default } }).set receiverKey
    { receiver with
      referral := { receiver.referral with code := header.referral.code } }

/-- A code moves from its owner to a user without a code. -/
theorem Linked.moveCode (hlinked : Linked derive users codes)
    {receiverKey : Address} {receiver : UserHeader Address}
    (hget : users.get key = some header)
    (hcode : codes.get codeKey = some code)
    (hlink : header.referral.code = codeKey)
    (hreceiver : users.get receiverKey = some receiver)
    (hnone : receiver.referral.code = default) :
    Linked derive (codeMoved users key receiverKey header receiver)
      (codes.set codeKey { code with owner := receiver.owner }) := by
  rw [codeMoved]
  have hne := hlinked.code_ne_default hcode
  have husers := fun other => IndexMap.get_set_set (IndexMap.mem_keys_of_get hget)
    (IndexMap.mem_keys_of_get hreceiver)
    ({ header with referral := { header.referral with code := default } } :
      UserHeader Address)
    { receiver with
      referral := { receiver.referral with code := header.referral.code } } other
  have hcodes := fun other => IndexMap.get_set (IndexMap.mem_keys_of_get hcode)
    { code with owner := receiver.owner } other
  have hreceiverAt := hlinked.user_at hreceiver
  have hreceiverInit := hlinked.initialized hreceiver
  have hheaderAt := hlinked.user_at hget
  have hheaderInit := hlinked.initialized hget
  refine ⟨?_, ?_, ?_, ?_, ?_⟩
  · intro other found hfound
    rw [husers] at hfound
    split at hfound
    · rename_i hsame
      obtain rfl := Option.some.inj hfound
      exact hsame.trans hreceiverAt
    · split at hfound
      · rename_i hsame
        obtain rfl := Option.some.inj hfound
        exact hsame.trans hheaderAt
      · exact hlinked.user_at hfound
  · intro other found hfound
    rw [husers] at hfound
    split at hfound
    · obtain rfl := Option.some.inj hfound
      exact hreceiverInit
    · split at hfound
      · obtain rfl := Option.some.inj hfound
        exact hheaderInit
      · exact hlinked.initialized hfound
  · intro other found hfound
    rw [hcodes] at hfound
    split at hfound
    · rename_i hsame
      exact hsame ▸ hne
    · exact hlinked.code_ne_default hfound
  · intro other found hfound
    rw [hcodes] at hfound
    split at hfound
    · rename_i hsame
      obtain rfl := Option.some.inj hfound
      rw [← hreceiverAt, husers, if_pos rfl]
      exact ⟨_, rfl, hlink.trans hsame.symm⟩
    · rename_i hother
      obtain ⟨old, hold, hlinkOld⟩ := hlinked.linked hfound
      refine ⟨old, ?_, hlinkOld⟩
      rw [husers, if_neg, if_neg]
      · exact hold
      · -- the one code of the old owner is the code that moves
        intro hsame
        rw [hsame, hget] at hold
        obtain rfl := Option.some.inj hold
        exact hother (hlinkOld.symm.trans hlink)
      · -- the receiver had no code before
        intro hsame
        rw [hsame, hreceiver] at hold
        obtain rfl := Option.some.inj hold
        exact hlinked.code_ne_default hfound (hlinkOld.symm.trans hnone)
  · intro other found hfound hneFound
    rw [husers] at hfound
    split at hfound
    · obtain rfl := Option.some.inj hfound
      rw [hcodes, if_pos hlink]
      exact ⟨_, rfl, rfl⟩
    · split at hfound
      · obtain rfl := Option.some.inj hfound
        exact absurd rfl hneFound
      · rename_i hother
        obtain ⟨old, hold, holdOwner⟩ := hlinked.backed hfound hneFound
        refine ⟨old, ?_, holdOwner⟩
        rw [hcodes, if_neg]
        · exact hold
        · -- nobody but the old owner had the code that moves
          intro hsame
          have hheaderOwner := (hlinked.owner_iff hcode hget).mpr hlink
          have hfoundOwner := (hlinked.owner_iff hcode hfound).mpr hsame
          exact hother (hlinked.owner_eq hfound hget
            (hfoundOwner.symm.trans hheaderOwner))

end Linked

end Gmsol.User
