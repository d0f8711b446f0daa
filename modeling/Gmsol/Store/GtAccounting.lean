import Gmsol.Library.Aggregate
import Gmsol.Store.GtMinting

/-!
# Accounting of GT

Whatever users, vaults and exchanges the instructions touch and in whatever
order, the counters of the store remain the totals of the accounts.
-/

namespace Gmsol.Store

open Gmsol.Fallible Gmsol.Model Gmsol.Mutation

/-! ## Exchanges -/

theorem GtExchangeVault.add_eq_ok {vault after : GtExchangeVault} {now : ℤ}
    {amount : ℕ} (hadd : vault.add now amount = .ok after) :
    vault.isConfirmed = false ∧
      after = { vault with amount := vault.amount + amount } := by
  simp only [GtExchangeVault.add, GtExchangeVault.validateDepositable,
    Fallible.bind_eq_ok, ensure_eq_ok, checkedAddU64_eq_ok] at hadd
  obtain ⟨-, ⟨-, hopen, -⟩, total, ⟨-, rfl⟩, hdone⟩ := hadd
  exact ⟨hopen, (Except.ok.inj hdone).symm⟩

theorem GtExchange.add_eq_ok {exchange after : GtExchange} {amount : ℕ}
    (hadd : exchange.add amount = .ok after) :
    after = { exchange with amount := exchange.amount + amount } := by
  simp only [GtExchange.add, Fallible.bind_eq_ok, checkedAddU64_eq_ok] at hadd
  obtain ⟨total, ⟨-, rfl⟩, hdone⟩ := hadd
  exact (Except.ok.inj hdone).symm

/-- What a successful exchange request has moved. -/
structure ExchangeAccounts.Requested (amount : ℕ)
    (before after : ExchangeAccounts) : Prop where
  user_ge : amount ≤ before.user.gt.amount
  supply_ge : amount ≤ before.gt.supply
  gt : after.gt = { before.gt with supply := before.gt.supply - amount }
  user : UserHeader.Holds after.gt (before.user.gt.amount - amount) before.user
    after.user
  isConfirmed : before.vault.isConfirmed = false
  vault : after.vault =
    { before.vault with amount := before.vault.amount + amount }
  exchange : after.exchange.amount = before.exchange.amount + amount

theorem uncheckedRequestExchange_spec {now : ℤ} {amount : ℕ}
    {before after : ExchangeAccounts}
    (hrequest : uncheckedRequestExchange now amount before = .ok () after) :
    before.Requested amount after := by
  unfold uncheckedRequestExchange at hrequest
  simp only [Mutation.bind_eq_ok, lift_eq_ok, ensure_eq_ok, zoom_eq_ok]
    at hrequest
  obtain ⟨accounts, _, hget, _, _, ⟨-, rfl⟩, _, _, ⟨-, rfl⟩, _, _, ⟨-, rfl⟩, _,
    burned, ⟨part, hburn, rfl⟩, vault, _, ⟨hvault, rfl⟩, _, deposited, hmodify,
    exchange, _, ⟨hexchange, rfl⟩, hdone⟩ := hrequest
  obtain ⟨rfl, rfl⟩ := EStateM.Result.ok.inj hget
  obtain ⟨-, rfl⟩ := EStateM.Result.ok.inj hmodify
  obtain ⟨-, rfl⟩ := EStateM.Result.ok.inj hdone
  obtain ⟨huser, hsupply, hgt, hholds⟩ := uncheckedBurnFrom_spec hburn
  obtain ⟨hopen, rfl⟩ := GtExchangeVault.add_eq_ok hvault
  exact ⟨huser, hsupply, hgt, hholds, hopen, rfl,
    congrArg GtExchange.amount (GtExchange.add_eq_ok hexchange)⟩

theorem uncheckedConfirmExchangeVault_spec {now : ℤ}
    {before after : GtState × GtExchangeVault}
    (hconfirm : uncheckedConfirmExchangeVault now before = .ok () after) :
    before.2.isConfirmed = false ∧
      after.1 = { before.1 with gtVault := before.1.gtVault + before.2.amount } ∧
      after.2 = { before.2 with isConfirmed := true } := by
  unfold uncheckedConfirmExchangeVault at hconfirm
  simp only [Mutation.bind_eq_ok, lift_eq_ok, ensure_eq_ok] at hconfirm
  obtain ⟨accounts, _, hget, _, _, ⟨-, rfl⟩, confirmed, _, ⟨hvault, rfl⟩, _, _,
    hmodify, gt, _, ⟨hgt, rfl⟩, hdone⟩ := hconfirm
  obtain ⟨rfl, rfl⟩ := EStateM.Result.ok.inj hget
  obtain ⟨-, rfl⟩ := EStateM.Result.ok.inj hmodify
  obtain ⟨-, rfl⟩ := EStateM.Result.ok.inj hdone
  simp only [GtExchangeVault.confirm, GtExchangeVault.validateConfirmable,
    Fallible.bind_eq_ok, ensure_eq_ok] at hvault
  obtain ⟨-, ⟨-, -, -, hopen, -⟩, hconfirmed⟩ := hvault
  obtain rfl := Except.ok.inj hconfirmed
  refine ⟨hopen, ?_, rfl⟩
  unfold GtState.processGtVault at hgt
  split_ifs at hgt with hamount
  · obtain ⟨total, htotal, hdone⟩ := Fallible.bind_eq_ok.mp hgt
    obtain ⟨-, rfl⟩ := checkedAddU64_eq_ok.mp htotal
    exact (Except.ok.inj hdone).symm
  · obtain rfl := Except.ok.inj hgt
    rw [not_not] at hamount
    dsimp only at hamount ⊢
    rw [hamount]
    rfl

/-! ## Steps -/

section Steps

variable [MarketNum] {User Vault : Type} [DecidableEq User] [DecidableEq Vault]

/-- What an instruction changes in the world. -/
inductive GtWorld.Stepped (before : GtWorld User Vault) :
    GtWorld User Vault → Prop
  | userOpened (user : User) : before.Stepped { before with
      users := Function.update before.users user
        { before.users user with isInitialized := true } }
  | vaultOpened (vault : Vault) (opened : GtExchangeVault)
      (isConfirmed : opened.isConfirmed = (before.vaults vault).isConfirmed)
      (amount : opened.amount = (before.vaults vault).amount) :
      before.Stepped { before with
        vaults := Function.update before.vaults vault opened }
  | kept : before.Stepped before
  | minted (user : User) (amount : ℕ) (gt : GtState) (header : UserHeader)
      (minted : before.gt.Minted amount gt)
      (holds : UserHeader.Holds gt ((before.users user).gt.amount + amount)
        (before.users user) header) :
      before.Stepped { before with
        gt, users := Function.update before.users user header }
  | requested (user : User) (vault : Vault) (amount : ℕ) (header : UserHeader)
      (exchange : GtExchange)
      (user_ge : amount ≤ (before.users user).gt.amount)
      (supply_ge : amount ≤ before.gt.supply)
      (holds : UserHeader.Holds
        { before.gt with supply := before.gt.supply - amount }
        ((before.users user).gt.amount - amount) (before.users user) header)
      (isConfirmed : (before.vaults vault).isConfirmed = false)
      (exchanged : exchange.amount =
        (before.exchanges (vault, user)).amount + amount) :
      before.Stepped
        { gt := { before.gt with supply := before.gt.supply - amount }
          users := Function.update before.users user header
          vaults := Function.update before.vaults vault
            { before.vaults vault with
              amount := (before.vaults vault).amount + amount }
          exchanges :=
            Function.update before.exchanges (vault, user) exchange }
  | confirmed (vault : Vault)
      (isConfirmed : (before.vaults vault).isConfirmed = false) :
      before.Stepped { before with
        gt := { before.gt with
          gtVault := before.gt.gtVault + (before.vaults vault).amount }
        vaults := Function.update before.vaults vault
          { before.vaults vault with isConfirmed := true } }

theorem GtWorld.prepareGtExchangeVault_stepped {before after : GtWorld User Vault}
    {now : ℤ} {vault : Vault}
    (hprepare : before.prepareGtExchangeVault now vault = .ok after) :
    before.Stepped after := by
  simp only [prepareGtExchangeVault, Fallible.bind_eq_ok, ensure_eq_ok] at hprepare
  obtain ⟨-, -, hprepare⟩ := hprepare
  split_ifs at hprepare
  · obtain rfl := Except.ok.inj hprepare
    exact .kept
  · obtain ⟨prepared, hinit, hdone⟩ := Fallible.bind_eq_ok.mp hprepare
    obtain rfl := Except.ok.inj hdone
    simp only [GtExchangeVault.init, Fallible.bind_eq_ok, ensure_eq_ok] at hinit
    obtain ⟨-, -, -, -, hopened⟩ := hinit
    obtain rfl := Except.ok.inj hopened
    exact .vaultOpened vault _ rfl rfl

theorem GtWorld.requestGtExchange_stepped {before after : GtWorld User Vault}
    {now : ℤ} {user : User} {vault : Vault} {amount : ℕ}
    (hrequest : before.requestGtExchange now user vault amount = .ok after) :
    before.Stepped after := by
  simp only [requestGtExchange, Fallible.bind_eq_ok, ensure_eq_ok] at hrequest
  obtain ⟨-, -, -, -, -, -, exchange, hexchange, accounts, haccounts, hdone⟩ :=
    hrequest
  obtain rfl := Except.ok.inj hdone
  obtain ⟨⟨⟩, hok⟩ := settle_eq_ok.mp haccounts
  have hspec := uncheckedRequestExchange_spec hok
  have hamount : exchange.amount = (before.exchanges (vault, user)).amount := by
    unfold GtExchange.initIfNeeded at hexchange
    split_ifs at hexchange
    · exact congrArg GtExchange.amount (Except.ok.inj hexchange).symm
    · simp only [GtExchange.init, Fallible.bind_eq_ok, ensure_eq_ok] at hexchange
      obtain ⟨-, -, hopened⟩ := hexchange
      rw [← Except.ok.inj hopened]
  have huser := hspec.user
  rw [hspec.gt] at huser ⊢
  rw [hspec.vault]
  refine .requested user vault amount accounts.user accounts.exchange
    hspec.user_ge hspec.supply_ge huser hspec.isConfirmed ?_
  rw [hspec.exchange, hamount]

theorem GtWorld.step_stepped {before after : GtWorld User Vault}
    {label : ℤ × GtInstruction User Vault}
    (hstep : before.step label = .ok (after, ())) : before.Stepped after := by
  simp only [step, Fallible.bind_eq_ok] at hstep
  obtain ⟨world, hworld, hdone⟩ := hstep
  obtain ⟨rfl, -⟩ := Prod.mk.inj (Except.ok.inj hdone)
  obtain ⟨now, instruction⟩ := label
  cases instruction with
  | initUser user =>
      simp only [execute, initUser, Fallible.bind_eq_ok, ensure_eq_ok] at hworld
      obtain ⟨-, -, hdone⟩ := hworld
      obtain rfl := Except.ok.inj hdone
      exact .userOpened user
  | prepareGtExchangeVault vault =>
      exact prepareGtExchangeVault_stepped hworld
  | mintTo user amount =>
      obtain ⟨accounts, haccounts, hdone⟩ := Fallible.bind_eq_ok.mp hworld
      obtain rfl := Except.ok.inj hdone
      obtain ⟨⟨⟩, hok⟩ := settle_eq_ok.mp haccounts
      obtain ⟨hminted, hholds⟩ := mintTo_spec hok
      exact .minted user amount accounts.gt accounts.user hminted hholds
  | requestGtExchange user vault amount =>
      exact requestGtExchange_stepped hworld
  | confirmGtExchangeVault vault =>
      simp only [execute, confirmGtExchangeVault, Fallible.bind_eq_ok,
        ensure_eq_ok] at hworld
      obtain ⟨-, -, -, -, accounts, haccounts, hdone⟩ := hworld
      obtain rfl := Except.ok.inj hdone
      obtain ⟨⟨⟩, hok⟩ := settle_eq_ok.mp haccounts
      obtain ⟨hopen, hgt, hvault⟩ := uncheckedConfirmExchangeVault_spec hok
      rw [hgt, hvault]
      exact .confirmed vault hopen

end Steps

/-! ## The minting cost -/

section Cost

variable [MarketNum] {User Vault : Type} [DecidableEq User] [DecidableEq Vault]

/-- A run of instructions, at whatever times. -/
def GtWorld.Reaches (start finish : GtWorld User Vault) : Prop :=
  ∃ outputs, Run GtWorld.step (fun _ _ => True) start outputs finish

/-- GT that was initialised with the given prices and has grown since. -/
structure GrowsFrom (initialMintingCost growFactor growStep : ℕ)
    (gt : GtState) : Prop where
  growFactor : gt.mintingCostGrowFactor = growFactor
  growStep : gt.growStepAmount = growStep
  hasGrown : HasGrown initialMintingCost gt

variable {before after : GtWorld User Vault}
  {initialMintingCost growFactor growStep : ℕ}

theorem GtWorld.Stepped.growsFrom (hstep : before.Stepped after)
    (hgrows : GrowsFrom initialMintingCost growFactor growStep before.gt) :
    GrowsFrom initialMintingCost growFactor growStep after.gt := by
  cases hstep with
  | minted user amount gt header hminted hholds =>
      exact ⟨hminted.growFactor.trans hgrows.growFactor,
        hminted.growStepAmount.trans hgrows.growStep,
        hminted.hasGrown _ hgrows.hasGrown⟩
  | kept | userOpened | vaultOpened => exact hgrows
  | requested | confirmed =>
      exact ⟨hgrows.growFactor, hgrows.growStep, hgrows.hasGrown.growSteps,
        hgrows.hasGrown.mintingCost⟩

theorem GtWorld.Reaches.growsFrom (hreaches : before.Reaches after)
    (hgrows : GrowsFrom initialMintingCost growFactor growStep before.gt) :
    GrowsFrom initialMintingCost growFactor growStep after.gt := by
  obtain ⟨outputs, hrun⟩ := hreaches
  apply hrun.invariant (fun _ world =>
    GrowsFrom initialMintingCost growFactor growStep world.gt) hgrows
  intro outputs world label next output hworld _ hstep
  exact (step_stepped hstep).growsFrom hworld

theorem growsFrom_init {gt : GtState} {now : ℤ} {ranks : List ℕ}
    (hinit : GtState.zeroed.init now initialMintingCost growFactor growStep
      ranks = .ok gt) :
    GrowsFrom initialMintingCost growFactor growStep gt := by
  simp only [GtState.init, Fallible.bind_eq_ok, ensure_eq_ok] at hinit
  obtain ⟨-, -, -, -, -, -, -, -, -, -, -, -, -, -, hdone⟩ := hinit
  obtain rfl := Except.ok.inj hdone
  exact ⟨rfl, rfl, (Nat.zero_div growStep).symm, rfl⟩

/-- The price path: the cost is the initial one, grown once for every whole step
of the total, so that it does not depend on how the total was minted; and a
mint that fails leaves no trace. -/
theorem minting_cost_of_totalMinted {gt : GtState} {now : ℤ} {ranks : List ℕ}
    {first second firstStart secondStart : GtWorld User Vault}
    (hinit : GtState.zeroed.init now initialMintingCost growFactor growStep
      ranks = .ok gt)
    (hfirstStart : firstStart.gt = gt) (hsecondStart : secondStart.gt = gt)
    (hfirst : firstStart.Reaches first) (hsecond : secondStart.Reaches second) :
    first.gt.growSteps = first.gt.totalMinted / growStep ∧
    first.gt.mintingCost =
      (fun cost => cost * growFactor / unit)^[first.gt.growSteps]
        initialMintingCost ∧
    (first.gt.totalMinted = second.gt.totalMinted →
      first.gt.mintingCost = second.gt.mintingCost) ∧
    ∀ (time : ℤ) (amount : ℕ) (accounts after : GtAccounts) (failure : CoreError),
      mintTo time amount accounts = .error failure after → after = accounts := by
  have hgrows := growsFrom_init hinit
  have hgrown := hfirst.growsFrom (hfirstStart ▸ hgrows)
  have hgrown' := hsecond.growsFrom (hsecondStart ▸ hgrows)
  have hsteps := hgrown.hasGrown.growSteps
  have hcost := hgrown.hasGrown.mintingCost
  rw [hgrown.growStep] at hsteps
  rw [hgrown.growFactor] at hcost
  refine ⟨hsteps, hcost, fun htotal => ?_, ?_⟩
  · rw [hcost, hgrown'.hasGrown.mintingCost, hgrown'.hasGrown.growSteps,
      hgrown'.growFactor, hgrown'.growStep, hsteps, htotal]
  · intro time amount accounts after failure hfail
    exact mintTo_keepsOnError time amount accounts failure after hfail

end Cost

section Split

attribute [local instance] storeNumbers

/-- GT whose cost doubles with every four units, with the given thresholds. -/
def GtState.doublingCost (ranks : List ℕ) : GtState :=
  { GtState.zeroed with
    lastMintedAt := 1, growStepAmount := 4, mintingCostGrowFactor := 2 * 10 ^ 20,
    mintingCost := 7, ranks, exchangeTimeWindow := defaultGtVaultTimeWindow }

/-- Nine units that are minted at once or in two parts double the cost twice. -/
theorem minting_cost_of_split_mint :
    ∃ first second : GtWorld (Fin 2) (Fin 1),
      (GtWorld.start (GtState.doublingCost [3, 6])).Reaches first ∧
      (GtWorld.start (GtState.doublingCost [3, 6])).Reaches second ∧
      (first.gt.totalMinted = 9 ∧ second.gt.totalMinted = 9) ∧
      first.gt.mintingCost = 28 ∧ second.gt.mintingCost = 28 := by
  have hinit : GtState.zeroed.init 1 7 (2 * 10 ^ 20) 4 [3, 6] =
      .ok (GtState.doublingCost [3, 6]) := rfl
  have hatOnce : ∃ result, perform GtWorld.step (fun _ _ => True)
      ([], (GtWorld.start (GtState.doublingCost [3, 6]) : GtWorld (Fin 2) (Fin 1)))
      [(4, .mintTo 0 9)] = some result ∧ result.2.gt.totalMinted = 9 ∧
        result.2.gt.mintingCost = 28 :=
    exists_of_any (by decide +kernel)
  have hsplit : ∃ result, perform GtWorld.step (fun _ _ => True)
      ([], (GtWorld.start (GtState.doublingCost [3, 6]) : GtWorld (Fin 2) (Fin 1)))
      [(4, .mintTo 0 5), (6, .mintTo 1 4)] = some result ∧
      result.2.gt.totalMinted = 9 :=
    exists_of_any (by decide +kernel)
  obtain ⟨⟨_, first⟩, hperform, hfirst, hcost⟩ := hatOnce
  obtain ⟨⟨_, second⟩, hperform', hsecond⟩ := hsplit
  have hreaches : (GtWorld.start (GtState.doublingCost [3, 6])).Reaches first :=
    ⟨_, Run.perform .refl hperform⟩
  have hreaches' : (GtWorld.start (GtState.doublingCost [3, 6])).Reaches second :=
    ⟨_, Run.perform .refl hperform'⟩
  refine ⟨first, second, hreaches, hreaches', ⟨hfirst, hsecond⟩, hcost, ?_⟩
  rw [← hcost]
  exact ((minting_cost_of_totalMinted hinit rfl rfl hreaches hreaches').2.2.1
    (hfirst.trans hsecond.symm)).symm

end Split

/-! ## The invariant -/

section Invariant

variable [MarketNum] {User Vault : Type} [DecidableEq User] [DecidableEq Vault]
  [Fintype User] [Fintype Vault]

def UserHeader.balance (user : UserHeader) : ℤ := user.gt.amount

def GtExchangeVault.balance (vault : GtExchangeVault) : ℤ := vault.amount

def GtExchangeVault.confirmedBalance (vault : GtExchangeVault) : ℤ :=
  if vault.isConfirmed then vault.amount else 0

def GtExchange.balance (exchange : GtExchange) : ℤ := exchange.amount

/-- The stored rank is the one of the amount, unless the user has never had any
GT: the rank is only computed when the amount changes. -/
def UserHeader.RankedBy (gt : GtState) (user : UserHeader) : Prop :=
  user.gt.rank = gt.thresholdsReached user.gt.amount ∨
    (user.gt.totalMinted = 0 ∧ user.gt.amount = 0 ∧ user.gt.rank = 0)

/-- The counters of the store are the totals of the accounts. -/
structure GtWorld.Balanced (initialMintingCost : ℕ)
    (world : GtWorld User Vault) : Prop where
  hasGrown : HasGrown initialMintingCost world.gt
  ranked : world.gt.Ranked
  maxRank_le : world.gt.maxRank ≤ maxRanks
  supply : Tracks (world.gt.supply : ℤ) UserHeader.balance world.users
  totalMinted : (world.gt.totalMinted : ℤ) =
    world.gt.supply + contributed GtExchangeVault.balance world.vaults
  gtVault : Tracks (world.gt.gtVault : ℤ) GtExchangeVault.confirmedBalance
    world.vaults
  vaults : ∀ vault, Tracks (world.vaults vault).balance GtExchange.balance
    fun user => world.exchanges (vault, user)
  users : ∀ user, (world.users user).RankedBy world.gt

namespace GtWorld

omit [DecidableEq User] [DecidableEq Vault] in
theorem balanced_start {gt : GtState} {now : ℤ}
    {initialMintingCost growFactor growStep : ℕ} {ranks : List ℕ}
    (hinit : GtState.zeroed.init now initialMintingCost growFactor growStep
      ranks = .ok gt) :
    (start gt : GtWorld User Vault).Balanced initialMintingCost := by
  simp only [GtState.init, Fallible.bind_eq_ok, ensure_eq_ok] at hinit
  obtain ⟨-, -, -, -, -, -, -, -, -, -, -, -, -, hchain, hdone⟩ := hinit
  obtain rfl := Except.ok.inj hdone
  refine ⟨⟨(Nat.zero_div growStep).symm, rfl⟩, ?_, ?_, ?_, ?_, ?_, ?_, ?_⟩
  · exact List.sortedLT_iff_isChain.mpr hchain
  · exact (List.length_take_le _ _)
  · exact (contributed_eq_zero fun _ => rfl).symm
  · exact ((zero_add _).trans (contributed_eq_zero fun _ => rfl)).symm
  · exact (contributed_eq_zero fun _ => rfl).symm
  · exact fun _ => (contributed_eq_zero fun _ => rfl).symm
  · exact fun _ => .inr ⟨rfl, rfl, rfl⟩

variable {before after : GtWorld User Vault} {initialMintingCost : ℕ}

omit [MarketNum] in
/-- A balance that has moved is ranked anew. -/
theorem rankedBy_of_holds {gt : GtState} {balance : ℕ} {header user : UserHeader}
    (hranked : gt.Ranked) (huser : user.RankedBy gt)
    (hholds : UserHeader.Holds gt balance user header) : header.RankedBy gt := by
  by_cases hsame : user.gt.amount = balance
  · rw [hholds.unchanged hsame]
    exact huser
  · left
    rw [hholds.rank hsame, hholds.amount]
    exact GtState.rankOf_eq hranked balance

omit [MarketNum] in
theorem rankedBy_of_ranks {gt next : GtState} {user : UserHeader}
    (hranks : next.ranks = gt.ranks) (huser : user.RankedBy gt) :
    user.RankedBy next := by
  have hthresholds : next.thresholdsReached user.gt.amount =
      gt.thresholdsReached user.gt.amount := by
    simp only [GtState.thresholdsReached, hranks]
  unfold UserHeader.RankedBy
  rw [hthresholds]
  exact huser

/-- A vault holds what the users have put into it. -/
def VaultTracked (world : GtWorld User Vault) (vault : Vault)
    (account : GtExchangeVault) : Prop :=
  Tracks account.balance GtExchange.balance
    fun user => world.exchanges (vault, user)

omit [DecidableEq Vault] in
/-- The users stay ranked when one of them holds another balance. -/
theorem Balanced.users_of_holds (hbalanced : before.Balanced initialMintingCost)
    {gt : GtState} {balance : ℕ} {user : User} {header : UserHeader}
    (hranks : gt.ranks = before.gt.ranks)
    (hholds : UserHeader.Holds gt balance (before.users user) header)
    (other : User) :
    (Function.update before.users user header other).RankedBy gt := by
  have hranked : gt.Ranked := by
    unfold GtState.Ranked
    rw [hranks]
    exact hbalanced.ranked
  have husers : ∀ other, (before.users other).RankedBy gt :=
    fun other => rankedBy_of_ranks hranks (hbalanced.users other)
  exact forall_update (fun _ => UserHeader.RankedBy gt)
    (rankedBy_of_holds hranked (husers user) hholds) husers other

omit [DecidableEq Vault] in
theorem Balanced.userOpened (hbalanced : before.Balanced initialMintingCost)
    (user : User) : Balanced initialMintingCost { before with
      users := Function.update before.users user
        { before.users user with isInitialized := true } } where
  hasGrown := hbalanced.hasGrown
  ranked := hbalanced.ranked
  maxRank_le := hbalanced.maxRank_le
  supply := hbalanced.supply.update (by simp [UserHeader.balance])
  totalMinted := hbalanced.totalMinted
  gtVault := hbalanced.gtVault
  vaults := hbalanced.vaults
  users := forall_update (fun _ => UserHeader.RankedBy before.gt)
    (hbalanced.users user) hbalanced.users

omit [DecidableEq User] in
theorem Balanced.vaultOpened (hbalanced : before.Balanced initialMintingCost)
    {vault : Vault} {opened : GtExchangeVault}
    (hconfirmed : opened.isConfirmed = (before.vaults vault).isConfirmed)
    (hamount : opened.amount = (before.vaults vault).amount) :
    Balanced initialMintingCost { before with
      vaults := Function.update before.vaults vault opened } := by
  have hbalance : opened.balance = (before.vaults vault).balance :=
    congrArg Nat.cast hamount
  refine ⟨hbalanced.hasGrown, hbalanced.ranked, hbalanced.maxRank_le,
    hbalanced.supply, ?_, ?_, ?_, hbalanced.users⟩
  · rw [contributed_update, hbalance, sub_self, add_zero]
    exact hbalanced.totalMinted
  · apply hbalanced.gtVault.update
    simp [GtExchangeVault.confirmedBalance, hamount, hconfirmed]
  · apply forall_update before.VaultTracked ?_ hbalanced.vaults
    unfold VaultTracked
    rw [hbalance]
    exact hbalanced.vaults vault

omit [DecidableEq Vault] in
theorem Balanced.minted (hbalanced : before.Balanced initialMintingCost)
    {user : User} {amount : ℕ} {gt : GtState} {header : UserHeader}
    (hminted : before.gt.Minted amount gt)
    (hholds : UserHeader.Holds gt ((before.users user).gt.amount + amount)
      (before.users user) header) :
    Balanced initialMintingCost { before with
      gt, users := Function.update before.users user header } := by
  refine ⟨hminted.hasGrown _ hbalanced.hasGrown, ?_, ?_, ?_, ?_, ?_,
    hbalanced.vaults, hbalanced.users_of_holds hminted.ranks hholds⟩
  · unfold GtState.Ranked
    rw [hminted.ranks]
    exact hbalanced.ranked
  · unfold GtState.maxRank
    rw [hminted.ranks]
    exact hbalanced.maxRank_le
  · apply hbalanced.supply.update
    simp [UserHeader.balance, hholds.amount, hminted.supply]
  · have htotal := hbalanced.totalMinted
    simp only [hminted.totalMinted, hminted.supply]
    push_cast
    linarith
  · rw [hminted.gtVault]
    exact hbalanced.gtVault

theorem Balanced.requested (hbalanced : before.Balanced initialMintingCost)
    {user : User} {vault : Vault} {amount : ℕ} {header : UserHeader}
    {exchange : GtExchange} (huser : amount ≤ (before.users user).gt.amount)
    (hsupply : amount ≤ before.gt.supply)
    (hholds : UserHeader.Holds
      { before.gt with supply := before.gt.supply - amount }
      ((before.users user).gt.amount - amount) (before.users user) header)
    (hopen : (before.vaults vault).isConfirmed = false)
    (hexchange : exchange.amount =
      (before.exchanges (vault, user)).amount + amount) :
    Balanced initialMintingCost
      { gt := { before.gt with supply := before.gt.supply - amount }
        users := Function.update before.users user header
        vaults := Function.update before.vaults vault
          { before.vaults vault with
            amount := (before.vaults vault).amount + amount }
        exchanges :=
          Function.update before.exchanges (vault, user) exchange } := by
  refine ⟨⟨hbalanced.hasGrown.growSteps, hbalanced.hasGrown.mintingCost⟩,
    hbalanced.ranked, hbalanced.maxRank_le, ?_, ?_, ?_, ?_,
    hbalanced.users_of_holds rfl hholds⟩
  · apply hbalanced.supply.update
    simp only [UserHeader.balance, hholds.amount]
    push_cast [huser, hsupply]
    ring
  · have htotal := hbalanced.totalMinted
    simp only [contributed_update, GtExchangeVault.balance]
    push_cast [hsupply]
    linarith
  · apply hbalanced.gtVault.update
    simp [GtExchangeVault.confirmedBalance, hopen]
  · apply Tracks.update_pair hbalanced.vaults
    simp [GtExchangeVault.balance, GtExchange.balance, hexchange]

omit [DecidableEq User] in
theorem Balanced.confirmed (hbalanced : before.Balanced initialMintingCost)
    {vault : Vault} (hopen : (before.vaults vault).isConfirmed = false) :
    Balanced initialMintingCost { before with
      gt := { before.gt with
        gtVault := before.gt.gtVault + (before.vaults vault).amount }
      vaults := Function.update before.vaults vault
        { before.vaults vault with isConfirmed := true } } := by
  refine ⟨⟨hbalanced.hasGrown.growSteps, hbalanced.hasGrown.mintingCost⟩,
    hbalanced.ranked, hbalanced.maxRank_le, hbalanced.supply, ?_, ?_,
    forall_update before.VaultTracked (hbalanced.vaults vault) hbalanced.vaults,
    hbalanced.users⟩
  · have htotal := hbalanced.totalMinted
    simpa [contributed_update, GtExchangeVault.balance] using htotal
  · apply hbalanced.gtVault.update
    simp [GtExchangeVault.confirmedBalance, hopen]

theorem Balanced.step (hbalanced : before.Balanced initialMintingCost)
    (hstep : before.Stepped after) : after.Balanced initialMintingCost := by
  cases hstep with
  | kept => exact hbalanced
  | userOpened user => exact hbalanced.userOpened user
  | vaultOpened vault opened hconfirmed hamount =>
      exact hbalanced.vaultOpened hconfirmed hamount
  | minted user amount gt header hminted hholds =>
      exact hbalanced.minted hminted hholds
  | requested user vault amount header exchange huser hsupply hholds hopen
      hexchange =>
      exact hbalanced.requested huser hsupply hholds hopen hexchange
  | confirmed vault hopen => exact hbalanced.confirmed hopen

theorem Balanced.reaches (hbalanced : before.Balanced initialMintingCost)
    (hreaches : before.Reaches after) : after.Balanced initialMintingCost := by
  obtain ⟨outputs, hrun⟩ := hreaches
  exact hrun.preserves hbalanced fun _ _ _ _ hbefore _ hstep =>
    hbefore.step (step_stepped hstep)

omit [Fintype User] [Fintype Vault] in
/-- A confirmed vault is never touched again. -/
theorem Stepped.confirmed_vault (hstep : before.Stepped after) {vault : Vault}
    (hconfirmed : (before.vaults vault).isConfirmed = true) :
    (after.vaults vault).isConfirmed = true ∧
      (after.vaults vault).amount = (before.vaults vault).amount := by
  cases hstep with
  | kept => exact ⟨hconfirmed, rfl⟩
  | userOpened user => exact ⟨hconfirmed, rfl⟩
  | minted user amount gt header hminted hholds => exact ⟨hconfirmed, rfl⟩
  | vaultOpened other opened hopened hamount =>
      by_cases hsame : vault = other
      · subst hsame
        simp [hopened, hconfirmed, hamount]
      · simp [hsame, hconfirmed]
  | requested user other amount header exchange huser hsupply hholds hopen
      hexchange =>
      have hne : vault ≠ other := by
        rintro rfl
        exact absurd (hconfirmed.symm.trans hopen) (by simp)
      simp [hne, hconfirmed]
  | confirmed other hopen =>
      have hne : vault ≠ other := by
        rintro rfl
        exact absurd (hconfirmed.symm.trans hopen) (by simp)
      simp [hne, hconfirmed]

omit [Fintype User] [Fintype Vault] in
theorem Reaches.confirmed_vault (hreaches : before.Reaches after) {vault : Vault}
    (hconfirmed : (before.vaults vault).isConfirmed = true) :
    (after.vaults vault).isConfirmed = true ∧
      (after.vaults vault).amount = (before.vaults vault).amount := by
  obtain ⟨outputs, hrun⟩ := hreaches
  refine hrun.invariant (fun _ world =>
    (world.vaults vault).isConfirmed = true ∧
      (world.vaults vault).amount = (before.vaults vault).amount)
    ⟨hconfirmed, rfl⟩ ?_
  intro outputs middle label next output hmiddle _ hstep
  obtain ⟨hnext, hamount⟩ := (step_stepped hstep).confirmed_vault hmiddle.1
  exact ⟨hnext, hamount.trans hmiddle.2⟩

omit [DecidableEq User] [DecidableEq Vault] in
/-- The rank of a user never exceeds the highest rank. -/
theorem Balanced.rank_le (hbalanced : before.Balanced initialMintingCost)
    (user : User) : (before.users user).gt.rank ≤ before.gt.maxRank := by
  rcases hbalanced.users user with hrank | ⟨-, -, hrank⟩
  · rw [hrank]
    exact before.gt.thresholdsReached_le _
  · rw [hrank]
    exact Nat.zero_le _

omit [DecidableEq User] [DecidableEq Vault] in
theorem Balanced.rank_eq (hbalanced : before.Balanced initialMintingCost)
    (user : User) (hheld : (before.users user).gt.totalMinted ≠ 0 ∨
      0 ∉ before.gt.ranks) :
    (before.users user).gt.rank =
      before.gt.thresholdsReached (before.users user).gt.amount := by
  rcases hbalanced.users user with hrank | ⟨hminted, hamount, hrank⟩
  · exact hrank
  · rw [hrank, hamount]
    symm
    apply List.countP_eq_zero.mpr
    intro threshold hmem hle
    rw [decide_eq_true_iff, Nat.le_zero] at hle
    subst hle
    exact hheld.resolve_left (absurd hminted) hmem

omit [DecidableEq User] [DecidableEq Vault] in
theorem Balanced.factors (hbalanced : before.Balanced initialMintingCost)
    (user : User) :
    (∃ factor, before.gt.orderFeeDiscountFactor (before.users user).gt.rank =
      .ok factor) ∧
    ∃ factor, before.gt.referralRewardFactor (before.users user).gt.rank =
      .ok factor := by
  have hrank := hbalanced.rank_le user
  have hlt : (before.users user).gt.rank < maxRanks + 1 :=
    Nat.lt_succ_of_le (hrank.trans hbalanced.maxRank_le)
  constructor
  · refine ⟨before.gt.orderFeeDiscountFactors[(before.users user).gt.rank], ?_⟩
    simp [GtState.orderFeeDiscountFactor, ensure, hrank, bind, Except.bind, okOr,
      hlt]
  · refine ⟨before.gt.referralRewardFactors[(before.users user).gt.rank], ?_⟩
    simp [GtState.referralRewardFactor, ensure, hrank, bind, Except.bind, okOr,
      hlt]

/-- Whatever is minted, exchanged and confirmed, the counters are the totals of
the accounts, a confirmed vault keeps its amount, and ranks are the ones of the
amounts for every user who has ever had GT, and for all when no threshold is
zero. -/
theorem gt_accounting {gt : GtState} {now : ℤ}
    {initialMintingCost growFactor growStep : ℕ} {ranks : List ℕ}
    {world later : GtWorld User Vault}
    (hinit : GtState.zeroed.init now initialMintingCost growFactor growStep
      ranks = .ok gt)
    (hreaches : (start gt).Reaches world) (hlater : world.Reaches later) :
    world.gt.supply = ∑ user, (world.users user).gt.amount ∧
    world.gt.totalMinted =
      world.gt.supply + ∑ vault, (world.vaults vault).amount ∧
    world.gt.gtVault = ∑ vault with (world.vaults vault).isConfirmed = true,
      (world.vaults vault).amount ∧
    (∀ vault, (world.vaults vault).amount =
      ∑ user, (world.exchanges (vault, user)).amount) ∧
    (∀ vault, (world.vaults vault).isConfirmed = true →
      (later.vaults vault).amount = (world.vaults vault).amount) ∧
    ∀ user,
      ((world.users user).gt.totalMinted ≠ 0 ∨ 0 ∉ world.gt.ranks →
        (world.users user).gt.rank =
          world.gt.thresholdsReached (world.users user).gt.amount) ∧
      (world.users user).gt.rank ≤ world.gt.maxRank ∧
      (∃ factor, world.gt.orderFeeDiscountFactor (world.users user).gt.rank =
        .ok factor) ∧
      ∃ factor, world.gt.referralRewardFactor (world.users user).gt.rank =
        .ok factor := by
  have hbalanced := (balanced_start hinit).reaches hreaches
  refine ⟨?_, ?_, ?_, ?_, ?_, ?_⟩
  · have hsupply := hbalanced.supply
    simp only [Tracks, contributed, UserHeader.balance] at hsupply
    exact_mod_cast hsupply
  · have htotal := hbalanced.totalMinted
    simp only [contributed, GtExchangeVault.balance] at htotal
    exact_mod_cast htotal
  · have hvault := hbalanced.gtVault
    simp only [Tracks, contributed, GtExchangeVault.confirmedBalance] at hvault
    rw [Finset.sum_filter]
    exact_mod_cast hvault
  · intro vault
    have hvault := hbalanced.vaults vault
    simp only [Tracks, contributed, GtExchangeVault.balance,
      GtExchange.balance] at hvault
    exact_mod_cast hvault
  · exact fun vault hconfirmed => (hlater.confirmed_vault hconfirmed).2
  · exact fun user => ⟨hbalanced.rank_eq user, hbalanced.rank_le user,
      hbalanced.factors user⟩

end GtWorld

end Invariant

section Store

attribute [local instance] storeNumbers

/-- A user holds 5 GT of which 2 are exchanged. -/
theorem gt_accounting_after_exchange :
    ∃ world : GtWorld (Fin 2) (Fin 1),
      GtState.zeroed.init 1 7 (2 * 10 ^ 20) 4 [3, 6] =
        .ok (GtState.doublingCost [3, 6]) ∧
      (GtWorld.start (GtState.doublingCost [3, 6])).Reaches world ∧
      ((world.users 0).gt.amount = 3 ∧ (world.vaults 0).amount = 2) ∧
      world.gt.supply = ∑ user, (world.users user).gt.amount := by
  have hinit : GtState.zeroed.init 1 7 (2 * 10 ^ 20) 4 [3, 6] =
      .ok (GtState.doublingCost [3, 6]) := rfl
  have hperformed : ∃ result,
      perform GtWorld.step (fun _ _ => True)
        ([], GtWorld.start (GtState.doublingCost [3, 6]))
        [(2, .initUser 0), (3, .prepareGtExchangeVault 0), (4, .mintTo 0 5),
          (5, .requestGtExchange 0 0 2)] = some result ∧
      (result.2.users (0 : Fin 2)).gt.amount = 3 ∧
        (result.2.vaults (0 : Fin 1)).amount = 2 :=
    exists_of_any (by decide +kernel)
  obtain ⟨⟨outputs, world⟩, hperform, hvalues⟩ := hperformed
  have hreaches : (GtWorld.start (GtState.doublingCost [3, 6])).Reaches world :=
    ⟨outputs, Run.perform .refl hperform⟩
  exact ⟨world, hinit, hreaches, hvalues,
    (GtWorld.gt_accounting hinit hreaches ⟨[], .refl⟩).1⟩

/-- With a threshold of zero a new user has fewer ranks than thresholds. -/
theorem new_user_rank_ne_thresholdsReached :
    ∃ world : GtWorld (Fin 1) (Fin 1),
      GtState.zeroed.init 1 7 (2 * 10 ^ 20) 4 [0] =
        .ok (GtState.doublingCost [0]) ∧
      (GtWorld.start (GtState.doublingCost [0])).Reaches world ∧
      (world.users 0).isInitialized = true ∧
      (world.users 0).gt.rank ≠
        world.gt.thresholdsReached (world.users 0).gt.amount := by
  have hperformed : ∃ result,
      perform GtWorld.step (fun _ _ => True)
        ([], (GtWorld.start (GtState.doublingCost [0]) : GtWorld _ (Fin 1)))
        [(2, .initUser 0)] = some result ∧
      (result.2.users (0 : Fin 1)).isInitialized = true ∧
        (result.2.users 0).gt.rank ≠
          result.2.gt.thresholdsReached (result.2.users 0).gt.amount :=
    exists_of_any (by decide +kernel)
  obtain ⟨⟨outputs, world⟩, hperform, hvalues⟩ := hperformed
  exact ⟨world, rfl, ⟨outputs, Run.perform .refl hperform⟩, hvalues⟩

end Store

end Gmsol.Store
