import Gmsol.User.Referrers

/-!
# Laws of the referral program

Every instruction keeps the codes linked to their owners and the referrers
counted, and no instruction replaces a referrer that is set.
-/

namespace Gmsol.User

open Gmsol.Fallible

section Keeps

variable {Address : Type} [DecidableEq Address] [Inhabited Address]
  {users next last : Users Address} {key : Address} {header : UserHeader Address}

/-- No user is lost, and none that has a referrer gets another one. -/
def KeepsReferrers (users next : Users Address) : Prop :=
  ∀ key header, users.get key = some header → ∃ after,
    next.get key = some after ∧ ∀ owner,
      header.referral.referrer? = some owner →
      after.referral.referrer? = some owner

theorem KeepsReferrers.refl (users : Users Address) : KeepsReferrers users users :=
  fun _ header hget => ⟨header, hget, fun _ hset => hset⟩

theorem KeepsReferrers.trans (hfirst : KeepsReferrers users next)
    (hsecond : KeepsReferrers next last) : KeepsReferrers users last := by
  intro key header hget
  obtain ⟨middle, hmiddle, hkept⟩ := hfirst key header hget
  obtain ⟨after, hafter, hkeptAfter⟩ := hsecond key middle hmiddle
  exact ⟨after, hafter, fun owner hset => hkeptAfter owner (hkept owner hset)⟩

theorem keepsReferrers_set (hget : users.get key = some header)
    {written : UserHeader Address}
    (hkept : ∀ owner, header.referral.referrer? = some owner →
      written.referral.referrer? = some owner) :
    KeepsReferrers users (users.set key written) := by
  intro other found hfound
  rw [IndexMap.get_set (IndexMap.mem_keys_of_get hget)]
  split
  · rename_i hsame
    rw [hsame, hget] at hfound
    obtain rfl := Option.some.inj hfound
    exact ⟨written, rfl, hkept⟩
  · exact ⟨found, hfound, fun _ hset => hset⟩

theorem keepsReferrers_insertVacant (users : Users Address) (key : Address)
    (header : UserHeader Address) (hvacant : key ∉ users.keys) :
    KeepsReferrers users (users.insertVacant key header hvacant) := by
  intro other found hfound
  refine ⟨found, ?_, fun _ hset => hset⟩
  rw [IndexMap.get_insertVacant, if_neg]
  · exact hfound
  · intro hsame
    exact hvacant (hsame ▸ IndexMap.mem_keys_of_get hfound)

theorem keepsReferrers_referrerSet {referrerKey : Address}
    {referrer : UserHeader Address} (hget : users.get key = some header)
    (hreferrer : users.get referrerKey = some referrer)
    (hdifferent : referrerKey ≠ key)
    (hnone : header.referral.referrer = default) :
    KeepsReferrers users (referrerSet users key referrerKey header referrer) := by
  have hfirst : KeepsReferrers users (users.set key { header with referral :=
      { header.referral with referrer := referrer.owner } }) := by
    apply keepsReferrers_set hget
    intro owner hset
    rw [Referral.referrer?, hnone, optionalAddress_default] at hset
    exact absurd hset.symm (Option.some_ne_none owner)
  have hreferrerAfter :=
    (users.get_set_of_ne hdifferent { header with referral :=
      { header.referral with referrer := referrer.owner } }).trans hreferrer
  apply hfirst.trans
  exact keepsReferrers_set hreferrerAfter fun _ hset => hset

theorem keepsReferrers_codeMoved {receiverKey : Address}
    {receiver : UserHeader Address} (hget : users.get key = some header)
    (hreceiver : users.get receiverKey = some receiver)
    (hdifferent : receiverKey ≠ key) :
    KeepsReferrers users (codeMoved users key receiverKey header receiver) := by
  have hfirst : KeepsReferrers users (users.set key { header with
      referral := { header.referral with code := default } }) :=
    keepsReferrers_set hget fun _ hset => hset
  apply hfirst.trans
  exact keepsReferrers_set ((users.get_set_of_ne hdifferent _).trans hreceiver)
    fun _ hset => hset

omit [Inhabited Address] in
theorem agreeOn_referrerSet {referrerKey : Address}
    {referrer : UserHeader Address} (hget : users.get key = some header)
    (hreferrer : users.get referrerKey = some referrer)
    (hdifferent : referrerKey ≠ key) :
    AgreeOn linkView users (referrerSet users key referrerKey header referrer) := by
  have hreferrerAfter :=
    (users.get_set_of_ne hdifferent { header with referral :=
      { header.referral with referrer := referrer.owner } }).trans hreferrer
  have hfirst : AgreeOn linkView users (users.set key { header with referral :=
      { header.referral with referrer := referrer.owner } }) :=
    agreeOn_set hget rfl
  apply hfirst.trans
  exact agreeOn_set hreferrerAfter rfl

end Keeps

namespace World

variable {Address Code : Type} [DecidableEq Address] [Inhabited Address]
  [DecidableEq Code] [Inhabited Code] {derive : Addresses Address Code}
  {world next : World Address Code}

/-! ## What a successful instruction has checked -/

omit [Inhabited Address] [DecidableEq Code] [Inhabited Code] in
theorem user_eq_ok {key : Address} {header : UserHeader Address} :
    world.user key = .ok header ↔ world.users.get key = some header :=
  okOr_eq_ok

omit [DecidableEq Code] [Inhabited Code] in
theorem ownUser_eq_ok {key owner : Address} {header : UserHeader Address} :
    world.ownUser derive key owner = .ok header ↔
      world.users.get key = some header ∧ header.owner = owner ∧
        key = derive.userAddress owner := by
  simp only [ownUser, bind_eq_ok, user_eq_ok, ensure_eq_ok, exists_const,
    Except.ok.injEq]
  constructor
  · rintro ⟨found, hget, howner, hkey, rfl⟩
    exact ⟨hget, howner, hkey⟩
  · rintro ⟨hget, howner, hkey⟩
    exact ⟨header, hget, howner, hkey, rfl⟩

omit [DecidableEq Code] [Inhabited Code] in
theorem codeAt_eq_ok {key : Address} {code : ReferralCode Address Code} :
    world.codeAt derive key = .ok code ↔
      world.codes.get key = some code ∧ key = derive.codeAddress code.code := by
  simp only [codeAt, referralCode, bind_eq_ok, okOr_eq_ok, ensure_eq_ok,
    exists_const, Except.ok.injEq]
  constructor
  · rintro ⟨found, hget, hkey, rfl⟩
    exact ⟨hget, hkey⟩
  · rintro ⟨hget, hkey⟩
    exact ⟨code, hget, hkey, rfl⟩

omit [Inhabited Address] [DecidableEq Code] [Inhabited Code] in
theorem ensureOwns_eq_ok {header : UserHeader Address}
    {code : ReferralCode Address Code} {codeKey : Address} {done : Unit} :
    ensureOwns header code codeKey = .ok done ↔
      header.owner = code.owner ∧ header.referral.code = codeKey := by
  simp only [ensureOwns, bind_eq_ok, ensure_eq_ok, exists_const]

omit [Inhabited Address] [DecidableEq Code] [Inhabited Code] in
theorem initCode_eq_ok {key : Address} {code : ReferralCode Address Code}
    (hok : world.initCode key code = .ok next) :
    ∃ hvacant : key ∉ world.codes.keys,
      next = { world with codes := world.codes.insertVacant key code hvacant } := by
  rw [initCode] at hok
  split at hok
  · rename_i hvacant
    obtain rfl := Except.ok.inj hok
    exact ⟨hvacant, rfl⟩
  · exact absurd hok (by simp)

/-! ## One instruction -/

/-- The codes are linked to their owners and the referrers lawful. -/
structure Lawful (derive : Addresses Address Code) (world : World Address Code) :
    Prop where
  linked : Linked derive world.users world.codes
  referred : Referred derive world.users

/-- What an instruction keeps. -/
structure Kept (derive : Addresses Address Code) (world next : World Address Code) :
    Prop where
  lawful : Lawful derive next
  referrers : KeepsReferrers world.users next.users

omit [DecidableEq Code] [Inhabited Code] in
theorem lawful_empty : Lawful derive (empty : World Address Code) :=
  ⟨linked_empty, referred_empty⟩

omit [DecidableEq Code] [Inhabited Code] in
theorem Lawful.refl (hlawful : Lawful derive world) : Kept derive world world :=
  ⟨hlawful, .refl _⟩

omit [DecidableEq Code] [Inhabited Code] in
/-- Writing a code that keeps its owner. -/
theorem Lawful.setCode (hlawful : Lawful derive world) {codeKey : Address}
    {code written : ReferralCode Address Code}
    (hcode : world.codes.get codeKey = some code)
    (howner : written.owner = code.owner) :
    Kept derive world (world.setCode codeKey written) :=
  ⟨⟨hlawful.linked.setCode hcode howner, hlawful.referred⟩, .refl _⟩

omit [DecidableEq Code] [Inhabited Code] in
theorem Lawful.prepareUser (hlawful : Lawful derive world) {owner : Address}
    (hok : world.prepareUser derive owner = .ok next) : Kept derive world next := by
  rw [World.prepareUser] at hok
  split at hok
  · rename_i hvacant
    obtain rfl := Except.ok.inj hok
    exact ⟨⟨hlawful.linked.insertUser hvacant, hlawful.referred.insertUser hvacant⟩,
      keepsReferrers_insertVacant _ _ _ hvacant⟩
  · simp only [bind_eq_ok, user_eq_ok, ensure_eq_ok, exists_const,
      Except.ok.injEq] at hok
    obtain ⟨header, -, -, -, rfl⟩ := hok
    exact hlawful.refl

theorem Lawful.initializeReferralCode (hlawful : Lawful derive world)
    {owner user : Address} {code : Code}
    (hok : world.initializeReferralCode derive owner user code = .ok next) :
    Kept derive world next := by
  simp only [World.initializeReferralCode, bind_eq_ok, ownUser_eq_ok, ensure_eq_ok,
    exists_const, Referral.setCode, Except.ok.injEq] at hok
  obtain ⟨middle, hinit, header, ⟨hget, howner, -⟩, -, -, referral, ⟨hnone, rfl⟩,
    rfl⟩ := hok
  obtain ⟨hvacant, rfl⟩ := initCode_eq_ok hinit
  refine ⟨⟨?_, ?_⟩, ?_⟩
  · exact hlawful.linked.insertCode hget hnone hvacant
      (derive.codeAddress_ne_default code) howner.symm
  · exact hlawful.referred.setUser hget rfl
  · exact keepsReferrers_set hget fun _ hset => hset

omit [Inhabited Code] in
theorem Lawful.setReferrer (hlawful : Lawful derive world)
    {owner user referralCode referrerUser : Address} {code : Code}
    (hok : world.setReferrer derive owner user referralCode referrerUser code =
      .ok next) : Kept derive world next := by
  simp only [World.setReferrer, bind_eq_ok, ownUser_eq_ok, codeAt_eq_ok, user_eq_ok,
    ensureOwns_eq_ok, ensure_eq_ok, exists_const, Referral.setReferrer,
    Except.ok.injEq] at hok
  obtain ⟨header, ⟨hget, -, -⟩, -, account, -, -, referrer, hreferrer, -, -,
    hdifferent, -, hmutual, both, ⟨hnone, hne, rfl⟩, rfl⟩ := hok
  refine ⟨⟨?_, ?_⟩, ?_⟩
  · exact hlawful.linked.agree (agreeOn_referrerSet hget hreferrer hdifferent)
  · exact hlawful.referred.setReferrer hget hreferrer hdifferent hnone hne hmutual
  · exact keepsReferrers_referrerSet hget hreferrer hdifferent hnone

theorem Lawful.transferReferralCode (hlawful : Lawful derive world)
    {owner user referralCode receiverUser : Address}
    (hok : world.transferReferralCode derive owner user referralCode receiverUser =
      .ok next) : Kept derive world next := by
  simp only [World.transferReferralCode, bind_eq_ok, ownUser_eq_ok, codeAt_eq_ok,
    user_eq_ok, ensure_eq_ok, exists_const, UserHeader.uncheckedTransferCode,
    ReferralCode.setNextOwner, Except.ok.injEq] at hok
  obtain ⟨header, -, account, ⟨hcode, -⟩, -, -, receiver, -, -, -, written,
    ⟨-, -, -, -, -, rfl⟩, rfl⟩ := hok
  exact hlawful.setCode hcode rfl

omit [DecidableEq Code] [Inhabited Code] in
theorem Lawful.cancelReferralCodeTransfer (hlawful : Lawful derive world)
    {owner user referralCode : Address}
    (hok : world.cancelReferralCodeTransfer derive owner user referralCode =
      .ok next) : Kept derive world next := by
  simp only [World.cancelReferralCodeTransfer, bind_eq_ok, ownUser_eq_ok,
    codeAt_eq_ok, ensure_eq_ok, exists_const, ReferralCode.setNextOwner,
    Except.ok.injEq] at hok
  obtain ⟨header, -, account, ⟨hcode, -⟩, -, -, written, ⟨-, rfl⟩, rfl⟩ := hok
  exact hlawful.setCode hcode rfl

theorem Lawful.acceptReferralCode (hlawful : Lawful derive world)
    {nextOwner user referralCode receiverUser : Address}
    (hok : world.acceptReferralCode derive nextOwner user referralCode receiverUser =
      .ok next) : Kept derive world next := by
  simp only [World.acceptReferralCode, bind_eq_ok, codeAt_eq_ok, user_eq_ok,
    ensureOwns_eq_ok, ensure_eq_ok, exists_const,
    UserHeader.uncheckedCompleteCodeTransfer, Except.ok.injEq] at hok
  obtain ⟨header, hget, account, ⟨hcode, -⟩, ⟨-, hlink⟩, -, receiver, hreceiver,
    -, hdifferent, -, moved, ⟨-, -, -, hnone, -, rfl⟩, rfl⟩ := hok
  refine ⟨⟨?_, ?_⟩, ?_⟩
  · exact hlawful.linked.moveCode hget hcode hlink hreceiver hnone
  · exact hlawful.referred.moveCode hget hreceiver hdifferent
  · exact keepsReferrers_codeMoved hget hreceiver hdifferent

/-! ## Runs -/

theorem Lawful.perform (hlawful : Lawful derive world) {call : Call Address Code}
    (hok : world.perform derive call = .ok next) : Kept derive world next := by
  cases call with
  | prepareUser owner => exact hlawful.prepareUser hok
  | initializeReferralCode owner user code =>
      exact hlawful.initializeReferralCode hok
  | setReferrer owner user referralCode referrerUser code =>
      exact hlawful.setReferrer hok
  | transferReferralCode owner user referralCode receiverUser =>
      exact hlawful.transferReferralCode hok
  | cancelReferralCodeTransfer owner user referralCode =>
      exact hlawful.cancelReferralCodeTransfer hok
  | acceptReferralCode nextOwner user referralCode receiverUser =>
      exact hlawful.acceptReferralCode hok

theorem Lawful.step (hlawful : Lawful derive world) (call : Call Address Code) :
    Kept derive world (world.step derive call) := by
  rw [World.step]
  split
  · rename_i after hok
    exact hlawful.perform hok
  · exact hlawful.refl

theorem Lawful.run (hlawful : Lawful derive world)
    (calls : List (Call Address Code)) :
    Kept derive world (world.run derive calls) := by
  induction calls generalizing world with
  | nil => exact hlawful.refl
  | cons call calls ih =>
      have hstep := hlawful.step call
      have hrest := ih hstep.lawful
      exact ⟨hrest.lawful, hstep.referrers.trans hrest.referrers⟩

theorem run_append (world : World Address Code)
    (calls more : List (Call Address Code)) :
    world.run derive (calls ++ more) = (world.run derive calls).run derive more :=
  List.foldl_append

/-- In every state that calls of any users reach, the codes and the users agree
on who owns what, nobody refers itself or its own referrer, the referrers count
their referees, and what is set as a referrer stays. -/
theorem run_referralLaws (derive : Addresses Address Code)
    (calls : List (Call Address Code)) :
    let world := empty.run derive calls
    (∀ codeKey code key header, world.codes.get codeKey = some code →
      world.users.get key = some header →
      (code.owner = header.owner ↔ header.referral.code = codeKey)) ∧
    (∀ codeKey code, world.codes.get codeKey = some code →
      ∃! key, ∃ header, world.users.get key = some header ∧
        code.owner = header.owner) ∧
    (∀ codeKey code other second, world.codes.get codeKey = some code →
      world.codes.get other = some second → code.owner = second.owner →
      codeKey = other) ∧
    (∀ key header, world.users.get key = some header →
      header.referral.referrer? ≠ some header.owner) ∧
    (∀ key header other second, world.users.get key = some header →
      world.users.get other = some second →
      header.referral.referrer? = some second.owner →
      second.referral.referrer? ≠ some header.owner) ∧
    (∀ key header, world.users.get key = some header →
      header.referral.refereeCount =
        min (referees world.users header.owner) maxU128) ∧
    ∀ more key header owner, world.users.get key = some header →
      header.referral.referrer? = some owner →
      ∃ after, (empty.run derive (calls ++ more)).users.get key = some after ∧
        after.referral.referrer? = some owner := by
  intro world
  have hlawful : Lawful derive world := (lawful_empty.run calls).lawful
  have hlinked := hlawful.linked
  have hreferred := hlawful.referred
  refine ⟨?_, ?_, ?_, ?_, ?_, ?_, ?_⟩
  · intro codeKey code key header hcode hget
    exact hlinked.owner_iff hcode hget
  · intro codeKey code hcode
    obtain ⟨header, hget, hlink⟩ := hlinked.linked hcode
    refine ⟨_, ⟨header, hget, (hlinked.owner_iff hcode hget).mpr hlink⟩, ?_⟩
    rintro other ⟨found, hfound, howner⟩
    rw [hlinked.user_at hfound, howner]
  · intro codeKey code other second hcode hsecond howner
    exact hlinked.code_unique hcode hsecond howner
  · intro key header hget
    exact hreferred.no_self hget
  · intro key header other second hget hsecond hset
    exact hreferred.no_mutual hget hsecond hset
  · intro key header hget
    exact hreferred.counted hget
  · intro more key header owner hget hset
    rw [run_append]
    obtain ⟨after, hafter, hkept⟩ := (hlawful.run more).referrers key header hget
    exact ⟨after, hafter, hkept owner hset⟩

/-- Even addresses for the codes, odd ones for the users. -/
def addressesExample : Addresses ℕ ℕ where
  userAddress owner := 2 * owner + 1
  codeAddress code := 2 * code + 2
  userAddress_injective := fun left right hsame => by simpa using hsame
  codeAddress_injective := fun left right hsame => by simpa using hsame
  codeAddress_ne_default := fun code => Nat.succ_ne_zero _

/-- The owner 1 refers the owner 2 and then hands its code over to it. -/
example :
    let world := empty.run addressesExample
      [.prepareUser 1, .prepareUser 2, .initializeReferralCode 1 3 4,
        .setReferrer 2 5 10 3 4, .transferReferralCode 1 3 10 5,
        .acceptReferralCode 2 3 10 5]
    world.users.get 3 = some ⟨true, 1, ⟨0, 0, 1⟩⟩ ∧
      world.users.get 5 = some ⟨true, 2, ⟨1, 10, 0⟩⟩ ∧
      world.codes.get 10 = some ⟨4, 2, 2⟩ := by
  decide

end World

end Gmsol.User
