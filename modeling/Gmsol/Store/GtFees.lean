import Gmsol.Store.GtAccounting

/-!
# GT for order fees

An executed order mints GT to its owner for the fees that were paid.  What a
mint does not account for, because GT is minted in whole units, is carried over
to the next one, at whatever minting cost is then in force.
-/

namespace Gmsol.Store

open Gmsol.Fallible Gmsol.Model Gmsol.Mutation

section Processing

variable [MarketNum]

/-- The order's reward, and the accounts that minting changes. -/
structure OrderGtAccounts where
  gtReward : ℕ
  gt : GtState
  user : UserHeader

def OrderGtAccounts.gtAccounts (accounts : OrderGtAccounts) : GtAccounts :=
  { gt := accounts.gt, user := accounts.user }

def OrderGtAccounts.setGtAccounts (part : GtAccounts)
    (accounts : OrderGtAccounts) : OrderGtAccounts :=
  { accounts with gt := part.gt, user := part.user }

/-- The event that GT has been minted. -/
structure GtMinted where
  mintingCost : ℕ
  minted : ℕ
deriving DecidableEq, Repr

/-- The value of fees that the mint accounts for. -/
def GtMinted.value (event : GtMinted) : ℕ := event.minted * event.mintingCost

def saturatingAddValue (left right : ℕ) : ℕ := min (left + right) maxUnsigned

/-- What is written after the mint. -/
def OrderGtAccounts.recordFees (accounts : OrderGtAccounts)
    (minted nextPaidFeeValue nextMintedValue : ℕ) : OrderGtAccounts :=
  let userGt := { accounts.user.gt with
    paidFeeValue := nextPaidFeeValue, mintedFeeValue := nextMintedValue }
  { accounts with gtReward := minted, user := { accounts.user with gt := userGt } }

/-- Mints GT for a fee that was paid. -/
def uncheckedProcessGt (now : ℤ) (paidFeeValue : ℕ) :
    EStateM CoreError OrderGtAccounts (Option GtMinted) := do
  if paidFeeValue = 0 then return none
  else
    let accounts ← get
    let userGt := accounts.user.gt
    -- The overflowed value is ignored.
    let nextPaidFeeValue := saturatingAddValue userGt.paidFeeValue paidFeeValue
    lift (ensure (userGt.mintedFeeValue ≤ nextPaidFeeValue) .invalidUserAccount)
    let (minted, deltaMintedValue, mintingCost) ←
      lift (accounts.gt.getMintAmount (nextPaidFeeValue - userGt.mintedFeeValue))
    let nextMintedValue ←
      lift (okOr (checkedAdd userGt.mintedFeeValue deltaMintedValue) .valueOverflow)
    zoom OrderGtAccounts.gtAccounts OrderGtAccounts.setGtAccounts (mintTo now minted)
    modify fun accounts => accounts.recordFees minted nextPaidFeeValue nextMintedValue
    return some { mintingCost, minted }

/-! ## One call -/

/-- A call that fails has not changed anything. -/
theorem uncheckedProcessGt_keepsOnError (now : ℤ) (paidFeeValue : ℕ) :
    KeepsOnError (uncheckedProcessGt now paidFeeValue) := by
  unfold uncheckedProcessGt
  by_cases hzero : paidFeeValue = 0
  · rw [if_pos hzero]
    exact (infallible_pure none).keepsOnError
  · rw [if_neg hzero]
    apply readOnly_get.bind
    intro accounts
    apply (readOnly_lift _).bind
    intro _
    apply (readOnly_lift _).bind
    rintro ⟨minted, deltaMintedValue, mintingCost⟩
    apply (readOnly_lift _).bind
    intro nextMintedValue
    apply KeepsOnError.bind_infallible
    · exact (mintTo_keepsOnError now minted).zoom fun _ => rfl
    · intro _
      exact (infallible_modify _).bind fun _ => infallible_pure _

/-- The fee values of a user. -/
structure UserHeader.KeepsFees (before after : UserHeader) : Prop where
  paidFeeValue : after.gt.paidFeeValue = before.gt.paidFeeValue
  mintedFeeValue : after.gt.mintedFeeValue = before.gt.mintedFeeValue

omit [MarketNum] in
theorem UserHeader.KeepsFees.refl (user : UserHeader) : user.KeepsFees user := ⟨rfl, rfl⟩

omit [MarketNum] in
theorem GtAccounts.uncheckedUpdateRank_keepsFees (accounts : GtAccounts) :
    accounts.user.KeepsFees accounts.uncheckedUpdateRank.user := by
  unfold uncheckedUpdateRank
  dsimp only
  split_ifs <;> exact ⟨rfl, rfl⟩

/-- Minting does not touch the fee values. -/
theorem mintTo_keepsFees {now : ℤ} {amount : ℕ} {before after : GtAccounts}
    (hmint : mintTo now amount before = .ok () after) :
    before.user.KeepsFees after.user := by
  unfold mintTo at hmint
  by_cases hamount : amount = 0
  · rw [if_neg (not_not_intro hamount)] at hmint
    obtain ⟨-, rfl⟩ := EStateM.Result.ok.inj hmint
    exact .refl _
  · rw [if_pos hamount] at hmint
    simp only [Mutation.bind_eq_ok, lift_eq_ok] at hmint
    obtain ⟨accounts, _, hget, total, _, ⟨-, rfl⟩, next, _, ⟨-, rfl⟩, userTotal, _,
      ⟨-, rfl⟩, userAmount, _, ⟨-, rfl⟩, supply, _, ⟨-, rfl⟩, _, recorded, hrecord,
      hrank⟩ := hmint
    obtain ⟨rfl, rfl⟩ := EStateM.Result.ok.inj hget
    obtain ⟨-, rfl⟩ := EStateM.Result.ok.inj hrecord
    obtain ⟨-, rfl⟩ := EStateM.Result.ok.inj hrank
    obtain ⟨hpaid, hminted⟩ := (before.recordMint now next total userTotal userAmount
      supply).uncheckedUpdateRank_keepsFees
    exact ⟨hpaid, hminted⟩

omit [MarketNum] in
/-- Burning does not touch the fee values. -/
theorem uncheckedBurnFrom_keepsFees {amount : ℕ} {before after : GtAccounts}
    (hburn : uncheckedBurnFrom amount before = .ok () after) :
    before.user.KeepsFees after.user := by
  unfold uncheckedBurnFrom at hburn
  by_cases hamount : amount = 0
  · rw [if_neg (not_not_intro hamount)] at hburn
    obtain ⟨-, rfl⟩ := EStateM.Result.ok.inj hburn
    exact .refl _
  · rw [if_pos hamount] at hburn
    simp only [Mutation.bind_eq_ok, lift_eq_ok] at hburn
    obtain ⟨accounts, _, hget, _, _, ⟨-, rfl⟩, nextAmount, _, ⟨-, rfl⟩, supply, _,
      ⟨-, rfl⟩, _, recorded, hrecord, hrank⟩ := hburn
    obtain ⟨rfl, rfl⟩ := EStateM.Result.ok.inj hget
    obtain ⟨-, rfl⟩ := EStateM.Result.ok.inj hrecord
    obtain ⟨-, rfl⟩ := EStateM.Result.ok.inj hrank
    obtain ⟨hpaid, hminted⟩ :=
      (before.recordBurn nextAmount supply).uncheckedUpdateRank_keepsFees
    exact ⟨hpaid, hminted⟩

omit [MarketNum] in
theorem uncheckedRequestExchange_keepsFees {now : ℤ} {amount : ℕ}
    {before after : ExchangeAccounts}
    (hrequest : uncheckedRequestExchange now amount before = .ok () after) :
    before.user.KeepsFees after.user := by
  unfold uncheckedRequestExchange at hrequest
  simp only [Mutation.bind_eq_ok, lift_eq_ok, zoom_eq_ok] at hrequest
  obtain ⟨accounts, _, hget, _, _, ⟨-, rfl⟩, _, _, ⟨-, rfl⟩, _, _, ⟨-, rfl⟩, _,
    burned, ⟨part, hburn, rfl⟩, vault, _, ⟨-, rfl⟩, _, deposited, hmodify,
    exchange, _, ⟨-, rfl⟩, hdone⟩ := hrequest
  obtain ⟨rfl, rfl⟩ := EStateM.Result.ok.inj hget
  obtain ⟨-, rfl⟩ := EStateM.Result.ok.inj hmodify
  obtain ⟨-, rfl⟩ := EStateM.Result.ok.inj hdone
  exact uncheckedBurnFrom_keepsFees hburn

omit [MarketNum] in
/-- A value is minted for in whole units of the cost in force. -/
theorem GtState.getMintAmount_eq_ok {gt : GtState} {value minted delta cost : ℕ}
    (hamount : gt.getMintAmount value = .ok (minted, delta, cost)) :
    cost = gt.mintingCost ∧ delta = minted * cost ∧ delta ≤ value ∧
      value - delta < cost := by
  simp only [getMintAmount, Fallible.bind_eq_ok, ensure_eq_ok, Except.ok.injEq,
    Prod.mk.injEq] at hamount
  obtain ⟨_, hcost, _, _, rfl, rfl, rfl⟩ := hamount
  have hdivide := Nat.div_add_mod value gt.mintingCost
  have hless := Nat.mod_lt value (Nat.pos_of_ne_zero hcost)
  have hwhole : value - value % gt.mintingCost =
      value / gt.mintingCost * gt.mintingCost := by
    rw [Nat.mul_comm]
    omega
  exact ⟨rfl, hwhole, by omega, by omega⟩

/-- What a call with a fee does to the fee values of the user. -/
structure FeesProcessed (before : GtState) (paidFeeValue : ℕ) (user : UserGtState)
    (event : GtMinted) (after : UserGtState) : Prop where
  cost : event.mintingCost = before.mintingCost
  paid : after.paidFeeValue = saturatingAddValue user.paidFeeValue paidFeeValue
  minted : after.mintedFeeValue = user.mintedFeeValue + event.value
  covered : after.mintedFeeValue ≤ after.paidFeeValue
  remainder : after.paidFeeValue - after.mintedFeeValue < event.mintingCost

theorem uncheckedProcessGt_spec {now : ℤ} {paidFeeValue : ℕ}
    {before after : OrderGtAccounts} {event : Option GtMinted}
    (hprocess : uncheckedProcessGt now paidFeeValue before = .ok event after) :
    (paidFeeValue = 0 ∧ event = none ∧ after = before) ∨
    ∃ minted, event = some minted ∧ after.gtReward = minted.minted ∧
      FeesProcessed before.gt paidFeeValue before.user.gt minted after.user.gt := by
  unfold uncheckedProcessGt at hprocess
  by_cases hzero : paidFeeValue = 0
  · rw [if_pos hzero] at hprocess
    obtain ⟨rfl, rfl⟩ := EStateM.Result.ok.inj hprocess
    exact .inl ⟨hzero, rfl, rfl⟩
  right
  rw [if_neg hzero] at hprocess
  simp only [Mutation.bind_eq_ok, lift_eq_ok, ensure_eq_ok, okOr_eq_ok,
    checkedAdd_eq_some, zoom_eq_ok] at hprocess
  obtain ⟨accounts, _, hget, _, _, ⟨hcovered, rfl⟩, ⟨minted, delta, cost⟩, _,
    ⟨hamount, rfl⟩, nextMinted, _, ⟨⟨_, rfl⟩, rfl⟩, _, mintedAccounts,
    ⟨part, hmint, rfl⟩, _, recorded, hrecord, hdone⟩ := hprocess
  obtain ⟨rfl, rfl⟩ := EStateM.Result.ok.inj hget
  obtain ⟨-, rfl⟩ := EStateM.Result.ok.inj hrecord
  obtain ⟨rfl, rfl⟩ := EStateM.Result.ok.inj hdone
  obtain ⟨rfl, rfl, hdelta, hremainder⟩ := GtState.getMintAmount_eq_ok hamount
  refine ⟨_, rfl, rfl, ⟨rfl, rfl, rfl, ?_, ?_⟩⟩
  · simp only [OrderGtAccounts.recordFees]
    omega
  · simp only [OrderGtAccounts.recordFees]
    omega

/-! ## Runs -/

variable {User Vault : Type} [DecidableEq User] [DecidableEq Vault]

/-- The instructions of GT, and the processing of executed orders. -/
inductive FeeInstruction (User Vault : Type)
  | gt (instruction : GtInstruction User Vault)
  | processGt (user : User) (gtReward paidFeeValue : ℕ)

namespace GtWorld

/-- Processes an order of a user. -/
def processGt (world : GtWorld User Vault) (now : ℤ) (user : User)
    (gtReward paidFeeValue : ℕ) : Result (GtWorld User Vault × Option GtMinted) :=
  match uncheckedProcessGt now paidFeeValue
    { gtReward, gt := world.gt, user := world.users user } with
  | .ok event after =>
    .ok ({ world with
      gt := after.gt, users := Function.update world.users user after.user }, event)
  | .error failure _ => .error failure

/-- An instruction at a time of the cluster clock, with the mint for a fee. -/
def feeStep (world : GtWorld User Vault) (label : ℤ × FeeInstruction User Vault) :
    Result (GtWorld User Vault × Option (User × GtMinted)) :=
  match label.2 with
  | .gt instruction => do
    let world ← world.execute label.1 instruction
    return (world, none)
  | .processGt user gtReward paidFeeValue => do
    let (world, event) ← world.processGt label.1 user gtReward paidFeeValue
    return (world, event.map fun event => (user, event))

/-- The mints of a user in a run, the latest first. -/
def mintsOf (outputs : List (Option (User × GtMinted))) (user : User) : List GtMinted :=
  outputs.filterMap fun output =>
    output.bind fun event => if event.1 = user then some event.2 else none

/-- The fee values of a user after these mints, the latest first: the value of all
mints is covered by what was paid, and what is left of it was not worth a unit at the
latest mint. -/
structure FeeLaws (mints : List GtMinted) (gt : UserGtState) : Prop where
  paid_le : gt.paidFeeValue ≤ maxUnsigned
  minted_le : gt.mintedFeeValue ≤ gt.paidFeeValue
  minted_eq : gt.mintedFeeValue = (mints.map GtMinted.value).sum
  noMint : mints = [] → gt.paidFeeValue = 0
  remainder : ∀ latest earlier, mints = latest :: earlier →
    gt.paidFeeValue - gt.mintedFeeValue < latest.mintingCost

variable {before after : GtWorld User Vault} {now : ℤ} {user : User}
  {gtReward paidFeeValue : ℕ}

/-- The instructions of GT leave the fee values of all users alone. -/
theorem execute_keepsFees {instruction : GtInstruction User Vault}
    (hexecute : before.execute now instruction = .ok after) (other : User) :
    (before.users other).KeepsFees (after.users other) := by
  have hupdate : ∀ (owner : User) (header : UserHeader),
      (before.users owner).KeepsFees header →
      (before.users other).KeepsFees (Function.update before.users owner header other) := by
    intro owner header hkeeps
    rw [Function.update_apply]
    split
    · rename_i hsame
      rw [hsame]
      exact hkeeps
    · exact .refl _
  cases instruction with
  | initUser owner =>
      simp only [execute, initUser, Fallible.bind_eq_ok, ensure_eq_ok] at hexecute
      obtain ⟨-, -, hdone⟩ := hexecute
      obtain rfl := Except.ok.inj hdone
      exact hupdate owner _ ⟨rfl, rfl⟩
  | prepareGtExchangeVault vault =>
      simp only [execute, prepareGtExchangeVault, Fallible.bind_eq_ok] at hexecute
      obtain ⟨-, -, hprepare⟩ := hexecute
      split at hprepare
      · obtain rfl := Except.ok.inj hprepare
        exact .refl _
      · obtain ⟨prepared, -, hdone⟩ := Fallible.bind_eq_ok.mp hprepare
        obtain rfl := Except.ok.inj hdone
        exact .refl _
  | mintTo owner amount =>
      simp only [execute, mintTo, Fallible.bind_eq_ok, settle_eq_ok] at hexecute
      obtain ⟨accounts, ⟨_, hmint⟩, hdone⟩ := hexecute
      obtain rfl := Except.ok.inj hdone
      exact hupdate owner _ (mintTo_keepsFees hmint)
  | requestGtExchange owner vault amount =>
      simp only [execute, requestGtExchange, Fallible.bind_eq_ok, ensure_eq_ok,
        settle_eq_ok] at hexecute
      obtain ⟨-, -, -, -, -, -, exchange, -, accounts, ⟨_, hrequest⟩, hdone⟩ := hexecute
      obtain rfl := Except.ok.inj hdone
      exact hupdate owner _ (uncheckedRequestExchange_keepsFees hrequest)
  | confirmGtExchangeVault vault =>
      simp only [execute, confirmGtExchangeVault, Fallible.bind_eq_ok, ensure_eq_ok,
        settle_eq_ok] at hexecute
      obtain ⟨-, -, -, -, accounts, -, hdone⟩ := hexecute
      obtain rfl := Except.ok.inj hdone
      exact .refl _

omit [DecidableEq Vault] in
/-- A processed order changes the fee values of its owner only. -/
theorem processGt_spec {event : Option GtMinted}
    (hprocess : before.processGt now user gtReward paidFeeValue = .ok (after, event)) :
    (paidFeeValue = 0 ∧ event = none ∧ after = before) ∨
    ∃ minted header, event = some minted ∧
      after.users = Function.update before.users user header ∧
      FeesProcessed before.gt paidFeeValue (before.users user).gt minted header.gt := by
  unfold processGt at hprocess
  split at hprocess
  · rename_i result accounts hresult
    obtain ⟨rfl, rfl⟩ := Prod.mk.inj (Except.ok.inj hprocess)
    rcases uncheckedProcessGt_spec hresult with
      ⟨hzero, rfl, rfl⟩ | ⟨minted, rfl, -, hprocessed⟩
    · refine .inl ⟨hzero, rfl, ?_⟩
      simp only [Function.update_eq_self]
    · exact .inr ⟨minted, accounts.user, rfl, rfl, hprocessed⟩
  · cases hprocess

omit [MarketNum] in
theorem mintsOf_cons (output : Option (User × GtMinted))
    (outputs : List (Option (User × GtMinted))) (user : User) :
    mintsOf (output :: outputs) user =
      ((output.bind fun event => if event.1 = user then some event.2 else none).toList) ++
        mintsOf outputs user := by
  simp only [mintsOf, List.filterMap_cons]
  cases output.bind fun event => if event.1 = user then some event.2 else none <;> rfl

omit [MarketNum] [DecidableEq Vault] in
theorem FeeLaws.keeps [MarketNum] {mints : List GtMinted} {header other : UserHeader}
    (hlaws : FeeLaws mints header.gt) (hkeeps : header.KeepsFees other) :
    FeeLaws mints other.gt := by
  obtain ⟨hpaid, hminted⟩ := hkeeps
  refine ⟨?_, ?_, ?_, ?_, ?_⟩
  · rw [hpaid]
    exact hlaws.paid_le
  · rw [hpaid, hminted]
    exact hlaws.minted_le
  · rw [hminted]
    exact hlaws.minted_eq
  · rw [hpaid]
    exact hlaws.noMint
  · rw [hpaid, hminted]
    exact hlaws.remainder

/-- The laws after one more mint, at the cost then in force. -/
theorem FeeLaws.mint {mints : List GtMinted} {userGt next : UserGtState}
    {gt : GtState} {event : GtMinted} (hlaws : FeeLaws mints userGt)
    (hprocessed : FeesProcessed gt paidFeeValue userGt event next) :
    FeeLaws (event :: mints) next where
  paid_le := by
    rw [hprocessed.paid]
    exact min_le_right _ _
  minted_le := hprocessed.covered
  minted_eq := by
    rw [hprocessed.minted, hlaws.minted_eq, List.map_cons, List.sum_cons, Nat.add_comm]
  noMint := nofun
  remainder := by
    intro latest earlier hmints
    obtain ⟨rfl, -⟩ := List.cons.inj hmints
    exact hprocessed.remainder

/-- Every step keeps the laws of every user. -/
theorem feeStep_laws {outputs : List (Option (User × GtMinted))}
    {label : ℤ × FeeInstruction User Vault} {output : Option (User × GtMinted)}
    (hlaws : ∀ user, FeeLaws (mintsOf outputs user) (before.users user).gt)
    (hstep : before.feeStep label = .ok (after, output)) (other : User) :
    FeeLaws (mintsOf (output :: outputs) other) (after.users other).gt := by
  obtain ⟨now, instruction | ⟨user, gtReward, paidFeeValue⟩⟩ := label
  · simp only [feeStep, Fallible.bind_eq_ok, pure_eq_ok, Prod.mk.injEq] at hstep
    obtain ⟨world, hexecute, rfl, rfl⟩ := hstep
    rw [mintsOf_cons]
    exact (hlaws other).keeps (execute_keepsFees hexecute other)
  · simp only [feeStep, Fallible.bind_eq_ok, pure_eq_ok, Prod.mk.injEq] at hstep
    obtain ⟨⟨world, event⟩, hprocess, rfl, rfl⟩ := hstep
    rw [mintsOf_cons]
    rcases processGt_spec hprocess with ⟨-, rfl, rfl⟩ | ⟨minted, header, rfl, husers, hfees⟩
    · exact hlaws other
    · rw [husers, Function.update_apply]
      by_cases hsame : other = user
      · subst hsame
        simpa using (hlaws other).mint hfees
      · have hother : user ≠ other := fun heq => hsame heq.symm
        simpa [hsame, hother] using hlaws other

theorem feeRun_laws {gt : GtState} {outputs : List (Option (User × GtMinted))}
    {world : GtWorld User Vault}
    (hrun : Run feeStep (fun _ _ => True) (start gt) outputs world) (user : User) :
    FeeLaws (mintsOf outputs user) (world.users user).gt := by
  have hall : ∀ user, FeeLaws (mintsOf outputs user) (world.users user).gt := by
    apply hrun.invariant fun outputs state =>
      ∀ user, FeeLaws (mintsOf outputs user) (state.users user).gt
    · intro user
      exact ⟨Nat.zero_le _, le_rfl, rfl, fun _ => rfl, nofun⟩
    · intro outputs before label after output hbefore _ hstep
      exact feeStep_laws hbefore hstep
  exact hall user

/-- GT is minted only for fees that were paid.  After every run the minted value of
each user is the value of the user's mints, each at the cost in force, and is covered
by the fees paid; the next fee passes its check; and a call either processes the fee
at the cost in force, or has no fee and changes nothing, or fails and changes nothing. -/
theorem gt_minted_for_fees {gt : GtState} {outputs : List (Option (User × GtMinted))}
    {world : GtWorld User Vault}
    (hrun : Run feeStep (fun _ _ => True) (start gt) outputs world) :
    (∀ user, FeeLaws (mintsOf outputs user) (world.users user).gt) ∧
    (∀ user paidFeeValue, (world.users user).gt.mintedFeeValue ≤
      saturatingAddValue (world.users user).gt.paidFeeValue paidFeeValue) ∧
    (∀ now user gtReward paidFeeValue after event,
      world.processGt now user gtReward paidFeeValue = .ok (after, event) →
      (paidFeeValue = 0 ∧ event = none ∧ after = world) ∨
      ∃ minted, event = some minted ∧ FeesProcessed world.gt paidFeeValue
        (world.users user).gt minted (after.users user).gt) ∧
    (∀ now paidFeeValue, KeepsOnError (uncheckedProcessGt now paidFeeValue)) := by
  have hlaws := feeRun_laws hrun
  refine ⟨hlaws, ?_, ?_, uncheckedProcessGt_keepsOnError⟩
  · intro user paidFeeValue
    have hpaid := (hlaws user).paid_le
    have hminted := (hlaws user).minted_le
    exact le_min (by omega) (hminted.trans hpaid)
  · intro now user gtReward paidFeeValue after event hprocess
    rcases processGt_spec hprocess with hnone | ⟨minted, header, hevent, husers, hfees⟩
    · exact .inl hnone
    · refine .inr ⟨minted, hevent, ?_⟩
      rw [husers, Function.update_self]
      exact hfees

end GtWorld

end Processing

section Store

attribute [local instance] storeNumbers

/-- A user pays two fees, between which another user is minted GT and the cost doubles
twice. -/
theorem gt_minted_for_fees_twice :
    ∃ (outputs : List (Option (Fin 2 × GtMinted))) (world : GtWorld (Fin 2) (Fin 1)),
      Run GtWorld.feeStep (fun _ _ => True)
        (GtWorld.start (GtState.doublingCost [3, 6])) outputs world ∧
      GtWorld.mintsOf outputs 0 = [⟨28, 1⟩, ⟨7, 4⟩] ∧
      (world.users 0).gt.mintedFeeValue = 56 ∧ (world.users 0).gt.paidFeeValue < 56 + 28 := by
  have hperformed : ∃ result,
      perform GtWorld.feeStep (fun _ _ => True)
        ([], (GtWorld.start (GtState.doublingCost [3, 6]) : GtWorld (Fin 2) (Fin 1)))
        [(2, .processGt 0 0 30), (3, .gt (.mintTo 1 5)), (4, .processGt 0 0 40)] =
          some result ∧ GtWorld.mintsOf result.1 0 = [⟨28, 1⟩, ⟨7, 4⟩] :=
    exists_of_any (by decide +kernel)
  obtain ⟨⟨outputs, world⟩, hperform, hmints⟩ := hperformed
  have hrun : Run GtWorld.feeStep (fun _ _ => True)
      (GtWorld.start (GtState.doublingCost [3, 6])) outputs world :=
    Run.perform .refl hperform
  have hlaws := (GtWorld.gt_minted_for_fees hrun).1 0
  have hminted : (world.users 0).gt.mintedFeeValue = 56 := by
    rw [hlaws.minted_eq, hmints]
    rfl
  have hremainder := hlaws.remainder _ _ hmints
  rw [hminted] at hremainder
  exact ⟨outputs, world, hrun, hmints, hminted, by
    dsimp only at hremainder
    omega⟩

end Store

end Gmsol.Store
