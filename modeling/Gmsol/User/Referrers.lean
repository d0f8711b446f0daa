import Gmsol.User.Ownership

/-!
# Referrers

Every user may name one referrer, once, and its referrer counts it.  The laws
kept here speak of the referrers and the counters alone, so that what happens to
the codes does not touch them.
-/

namespace Gmsol.User

open Gmsol.Fallible

variable {Address Code : Type} [DecidableEq Address] [Inhabited Address]
  {derive : Addresses Address Code}

theorem optionalAddress_eq_some {address owner : Address} :
    optionalAddress address = some owner ↔ address = owner ∧ owner ≠ default := by
  rw [optionalAddress]
  split
  · rename_i hdefault
    constructor
    · intro hsome
      exact absurd hsome (by simp)
    · rintro ⟨rfl, hne⟩
      exact absurd hdefault hne
  · rename_i hne
    rw [Option.some.injEq]
    constructor
    · rintro rfl
      exact ⟨rfl, hne⟩
    · exact And.left

theorem optionalAddress_default : optionalAddress (default : Address) = none :=
  if_pos rfl

theorem saturatingAdd_min (count : ℕ) :
    saturatingAdd (min count maxU128) 1 = min (count + 1) maxU128 := by
  simp only [saturatingAdd]
  omega

/-- What links a user to its referrer and its referees. -/
def referrerView (header : UserHeader Address) : Address × Address × ℕ :=
  (header.owner, header.referral.referrer, header.referral.refereeCount)

/-- One for a user whose referrer is the owner. -/
def refersTo (owner : Address) (header : UserHeader Address) : ℕ :=
  if header.referral.referrer? = some owner then 1 else 0

/-- The number of users whose referrer is the owner. -/
def referees (users : Users Address) (owner : Address) : ℕ :=
  users.total (refersTo owner)

/-- The laws of the referrers. -/
structure Referred (derive : Addresses Address Code) (users : Users Address) :
    Prop where
  user_at : ∀ {key header}, users.get key = some header →
    key = derive.userAddress header.owner
  known : ∀ {key header owner}, users.get key = some header →
    header.referral.referrer? = some owner →
    derive.userAddress owner ∈ users.keys
  no_self : ∀ {key header}, users.get key = some header →
    header.referral.referrer? ≠ some header.owner
  no_mutual : ∀ {key header other second}, users.get key = some header →
    users.get other = some second →
    header.referral.referrer? = some second.owner →
    second.referral.referrer? ≠ some header.owner
  counted : ∀ {key header}, users.get key = some header →
    header.referral.refereeCount = min (referees users header.owner) maxU128

section Referred

variable {users : Users Address} {key : Address} {header : UserHeader Address}

theorem referred_empty : Referred derive (.empty : Users Address) where
  user_at hget := absurd hget (by simp [IndexMap.get, IndexMap.empty, IndexMap.find])
  known hget := absurd hget (by simp [IndexMap.get, IndexMap.empty, IndexMap.find])
  no_self hget := absurd hget (by simp [IndexMap.get, IndexMap.empty, IndexMap.find])
  no_mutual hget :=
    absurd hget (by simp [IndexMap.get, IndexMap.empty, IndexMap.find])
  counted hget := absurd hget (by simp [IndexMap.get, IndexMap.empty, IndexMap.find])

/-- Writing a user that keeps its owner, its referrer and its counter. -/
theorem Referred.setUser (hreferred : Referred derive users)
    (hget : users.get key = some header) {written : UserHeader Address}
    (hview : referrerView written = referrerView header) :
    Referred derive (users.set key written) := by
  have hagree := agreeOn_set hget hview
  have hreferees : ∀ owner, referees (users.set key written) owner =
      referees users owner := by
    intro owner
    have htotal := users.total_set (refersTo owner) hget written
    simp only [referrerView, Prod.mk.injEq] at hview
    have hsame : refersTo owner written = refersTo owner header := by
      rw [refersTo, refersTo, Referral.referrer?, hview.2.1]
      rfl
    rw [hsame] at htotal
    exact Nat.add_right_cancel htotal
  refine ⟨?_, ?_, ?_, ?_, ?_⟩
  · intro other found hfound
    obtain ⟨old, hold, hsame⟩ := hagree.before hfound
    simp only [referrerView, Prod.mk.injEq] at hsame
    rw [← hsame.1]
    exact hreferred.user_at hold
  · intro other found owner hfound hset
    obtain ⟨old, hold, hsame⟩ := hagree.before hfound
    simp only [referrerView, Prod.mk.injEq] at hsame
    rw [Referral.referrer?, ← hsame.2.1] at hset
    rw [IndexMap.keys_set]
    exact hreferred.known hold hset
  · intro other found hfound
    obtain ⟨old, hold, hsame⟩ := hagree.before hfound
    simp only [referrerView, Prod.mk.injEq] at hsame
    rw [Referral.referrer?, ← hsame.2.1, ← hsame.1]
    exact hreferred.no_self hold
  · intro first found other second hfound hsecond
    obtain ⟨old, hold, hsame⟩ := hagree.before hfound
    obtain ⟨oldSecond, holdSecond, hsameSecond⟩ := hagree.before hsecond
    simp only [referrerView, Prod.mk.injEq] at hsame hsameSecond
    rw [Referral.referrer?, Referral.referrer?, ← hsame.2.1, ← hsame.1,
      ← hsameSecond.2.1, ← hsameSecond.1]
    exact hreferred.no_mutual hold holdSecond
  · intro other found hfound
    obtain ⟨old, hold, hsame⟩ := hagree.before hfound
    simp only [referrerView, Prod.mk.injEq] at hsame
    rw [hreferees, ← hsame.2.2, ← hsame.1]
    exact hreferred.counted hold

/-- Codes move between users that keep their referrers. -/
theorem Referred.moveCode (hreferred : Referred derive users)
    {receiverKey : Address} {receiver : UserHeader Address}
    (hget : users.get key = some header)
    (hreceiver : users.get receiverKey = some receiver)
    (hdifferent : receiverKey ≠ key) :
    Referred derive (codeMoved users key receiverKey header receiver) := by
  have hfirst : Referred derive (users.set key { header with
      referral := { header.referral with code := default } }) :=
    hreferred.setUser hget rfl
  apply hfirst.setUser ((users.get_set_of_ne hdifferent _).trans hreceiver)
  rfl

/-- A new user has no referrer, and nobody refers to it yet. -/
theorem Referred.insertUser (hreferred : Referred derive users) {owner : Address}
    (hvacant : derive.userAddress owner ∉ users.keys) :
    Referred derive
      (users.insertVacant (derive.userAddress owner) (.init owner) hvacant) := by
  have hget := fun other =>
    users.get_insertVacant (derive.userAddress owner) other (.init owner) hvacant
  have hnone : (UserHeader.init owner).referral.referrer? = none :=
    optionalAddress_default
  have hreferees : ∀ other, referees (users.insertVacant
      (derive.userAddress owner) (.init owner) hvacant) other =
        referees users other := by
    intro other
    rw [referees, IndexMap.total_insertVacant, refersTo, hnone]
    rfl
  have hunknown : ∀ {key header}, users.get key = some header →
      header.referral.referrer? ≠ some owner :=
    fun hfound hset => hvacant (hreferred.known hfound hset)
  refine ⟨?_, ?_, ?_, ?_, ?_⟩
  · intro other found hfound
    rw [hget] at hfound
    split at hfound
    · rename_i hsame
      obtain rfl := Option.some.inj hfound
      exact hsame
    · exact hreferred.user_at hfound
  · intro other found referrer hfound hset
    rw [hget] at hfound
    rw [IndexMap.keys_insertVacant]
    split at hfound
    · obtain rfl := Option.some.inj hfound
      exact absurd (hnone.symm.trans hset) (by simp)
    · exact List.mem_append_left _ (hreferred.known hfound hset)
  · intro other found hfound
    rw [hget] at hfound
    split at hfound
    · obtain rfl := Option.some.inj hfound
      rw [hnone]
      exact (Option.some_ne_none _).symm
    · exact hreferred.no_self hfound
  · intro first found other second hfound hsecond hset
    rw [hget] at hfound hsecond
    split at hfound
    · obtain rfl := Option.some.inj hfound
      exact absurd (hnone.symm.trans hset) (by simp)
    · split at hsecond
      · obtain rfl := Option.some.inj hsecond
        exact absurd hset (hunknown hfound)
      · exact hreferred.no_mutual hfound hsecond hset
  · intro other found hfound
    rw [hget] at hfound
    rw [hreferees]
    split at hfound
    · obtain rfl := Option.some.inj hfound
      have hzero : referees users (UserHeader.init owner).owner = 0 :=
        IndexMap.total_eq_zero fun hold => if_neg (hunknown hold)
      rw [hzero]
      rfl
    · exact hreferred.counted hfound

/-- The users after one of them, without a referrer so far, has named one. -/
def referrerSet (users : Users Address) (key referrerKey : Address)
    (header referrer : UserHeader Address) : Users Address :=
  (users.set key { header with referral :=
      { header.referral with referrer := referrer.owner } }).set referrerKey
    { referrer with referral := { referrer.referral with
      refereeCount := saturatingAdd referrer.referral.refereeCount 1 } }

variable {referrerKey : Address} {referrer : UserHeader Address}

/-- Only the one user has another referrer, and only the referrer another
counter. -/
theorem referrerSet_before (hget : users.get key = some header)
    (hreferrer : users.get referrerKey = some referrer)
    (hdifferent : referrerKey ≠ key) (hne : referrer.owner ≠ default)
    {other : Address} {found : UserHeader Address}
    (hfound : (referrerSet users key referrerKey header referrer).get other =
      some found) :
    ∃ old, users.get other = some old ∧ found.owner = old.owner ∧
      found.referral.referrer? =
        (if other = key then some referrer.owner else old.referral.referrer?) ∧
      found.referral.refereeCount =
        if other = referrerKey then saturatingAdd old.referral.refereeCount 1
        else old.referral.refereeCount := by
  rw [referrerSet, IndexMap.get_set_set (IndexMap.mem_keys_of_get hget)
    (IndexMap.mem_keys_of_get hreferrer)] at hfound
  split at hfound
  · rename_i hsame
    obtain rfl := Option.some.inj hfound
    refine ⟨referrer, hsame ▸ hreferrer, rfl, ?_, (if_pos hsame).symm⟩
    rw [if_neg (hsame ▸ hdifferent)]
    rfl
  · rename_i hother
    split at hfound
    · rename_i hsame
      obtain rfl := Option.some.inj hfound
      refine ⟨header, hsame ▸ hget, rfl, ?_, (if_neg hother).symm⟩
      rw [if_pos hsame]
      exact optionalAddress_eq_some.mpr ⟨rfl, hne⟩
    · rename_i hkey
      exact ⟨found, hfound, rfl, (if_neg hkey).symm, (if_neg hother).symm⟩

/-- The referrer has one referee more, and nobody else has. -/
theorem referees_referrerSet (hget : users.get key = some header)
    (hreferrer : users.get referrerKey = some referrer)
    (hdifferent : referrerKey ≠ key)
    (hnone : header.referral.referrer = default)
    (hne : referrer.owner ≠ default) (owner : Address) :
    referees (referrerSet users key referrerKey header referrer) owner =
      referees users owner + if referrer.owner = owner then 1 else 0 := by
  have hfirst := users.total_set (refersTo owner) hget
    { header with referral :=
      { header.referral with referrer := referrer.owner } }
  have hreferrerAfter :=
    (users.get_set_of_ne hdifferent { header with referral :=
      { header.referral with referrer := referrer.owner } }).trans hreferrer
  have hsecond := IndexMap.total_set _ (refersTo owner) hreferrerAfter
    { referrer with referral := { referrer.referral with
      refereeCount := saturatingAdd referrer.referral.refereeCount 1 } }
  have hold : refersTo owner header = 0 := by
    rw [refersTo, Referral.referrer?, hnone, optionalAddress_default]
    exact if_neg (Option.some_ne_none owner).symm
  have hnew : refersTo owner { header with referral :=
      { header.referral with referrer := referrer.owner } } =
        if referrer.owner = owner then 1 else 0 := by
    rw [refersTo, Referral.referrer?, optionalAddress, if_neg hne]
    simp only [Option.some.injEq]
  have hkept : refersTo owner { referrer with referral := { referrer.referral with
      refereeCount := saturatingAdd referrer.referral.refereeCount 1 } } =
        refersTo owner referrer := rfl
  rw [hold, hnew, Nat.add_zero] at hfirst
  rw [hkept] at hsecond
  rw [referees, referrerSet, Nat.add_right_cancel hsecond, hfirst]
  rfl

/-- A user without a referrer names one, which counts it. -/
theorem Referred.setReferrer (hreferred : Referred derive users)
    (hget : users.get key = some header)
    (hreferrer : users.get referrerKey = some referrer)
    (hdifferent : referrerKey ≠ key)
    (hnone : header.referral.referrer = default)
    (hne : referrer.owner ≠ default)
    (hmutual : referrer.referral.referrer ≠ header.owner) :
    Referred derive (referrerSet users key referrerKey header referrer) := by
  have hkeyAt := hreferred.user_at hget
  have hreferrerAt := hreferred.user_at hreferrer
  have hbefore := fun {other found} =>
    @referrerSet_before _ _ _ users key header _ _ hget hreferrer hdifferent hne
      other found
  have howner_eq : ∀ {other found}, users.get other = some found →
      found.owner = referrer.owner → found = referrer := by
    intro other found hfound hsame
    have hkeys : other = referrerKey := by
      rw [hreferred.user_at hfound, hreferrerAt, hsame]
    rw [hkeys, hreferrer] at hfound
    exact (Option.some.inj hfound).symm
  have hreferrerOf : referrer.referral.referrer? ≠ some header.owner :=
    fun hsome => hmutual (optionalAddress_eq_some.mp hsome).1
  refine ⟨?_, ?_, ?_, ?_, ?_⟩
  · intro other found hfound
    obtain ⟨old, hold, howner, -, -⟩ := hbefore hfound
    rw [howner]
    exact hreferred.user_at hold
  · intro other found owner hfound hset
    obtain ⟨old, hold, -, hof, -⟩ := hbefore hfound
    rw [referrerSet, IndexMap.keys_set, IndexMap.keys_set]
    rw [hof] at hset
    split at hset
    · obtain rfl := Option.some.inj hset
      rw [← hreferrerAt]
      exact IndexMap.mem_keys_of_get hreferrer
    · exact hreferred.known hold hset
  · intro other found hfound hset
    obtain ⟨old, hold, howner, hof, -⟩ := hbefore hfound
    rw [hof, howner] at hset
    split at hset
    · rename_i hsame
      have hself := howner_eq hold (Option.some.inj hset).symm
      rw [hsame, hget, hself] at hold
      obtain rfl := Option.some.inj hold
      exact hdifferent (hreferrerAt.trans hkeyAt.symm)
    · exact hreferred.no_self hold hset
  · intro first found other second hfound hsecond hset hback
    obtain ⟨old, hold, howner, hof, -⟩ := hbefore hfound
    obtain ⟨oldSecond, holdSecond, hownerSecond, hofSecond, -⟩ := hbefore hsecond
    rw [hof, hownerSecond] at hset
    rw [hofSecond, howner] at hback
    split at hset
    · rename_i hsame
      -- the user refers to its new referrer, which does not refer to it
      obtain rfl := howner_eq holdSecond (Option.some.inj hset).symm
      rw [hsame, hget] at hold
      obtain rfl := Option.some.inj hold
      split at hback
      · rename_i hsecondKey
        exact hdifferent (hreferrerAt.trans
          ((hreferred.user_at holdSecond).symm.trans hsecondKey))
      · exact hreferrerOf hback
    · split at hback
      · rename_i hsame
        obtain rfl := howner_eq hold (Option.some.inj hback).symm
        rw [hsame, hget] at holdSecond
        obtain rfl := Option.some.inj holdSecond
        exact hreferrerOf hset
      · exact hreferred.no_mutual hold holdSecond hset hback
  · intro other found hfound
    obtain ⟨old, hold, howner, -, hcount⟩ := hbefore hfound
    rw [hcount, howner,
      referees_referrerSet hget hreferrer hdifferent hnone hne]
    have hcounted := hreferred.counted hold
    split
    · rename_i hsame
      rw [hsame, hreferrer] at hold
      obtain rfl := Option.some.inj hold
      rw [hcounted, if_pos rfl, saturatingAdd_min]
    · rename_i hother
      rw [if_neg, Nat.add_zero]
      · exact hcounted
      · intro hsame
        apply hother
        rw [hreferred.user_at hold, hreferrerAt, hsame]

end Referred

end Gmsol.User
