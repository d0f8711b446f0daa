import Gmsol.Library.SharedVault
import Gmsol.Ops.OrderRefinement
import Gmsol.Ops.Records
import Gmsol.Ops.Vaults

/-!
# The vaults back what is recorded

What the markets have recorded of a token, all of them together, is what is in its vault
apart from what the vault was given without a record.  So no market can be owed more than
the vault can pay, whatever orders, deposits, withdrawals and shifts have moved between the
markets in the meantime.
-/

namespace Gmsol.Ops

open Fallible Container Store SwapPath

/-! ## Recorded balances -/

namespace MarketAccount

variable {before account after : MarketAccount} {market : RevertibleMarket}

/-- The stored balances, by token. -/
def recorded (account : MarketAccount) : Pubkey → ℕ := (account.stored ⟨0, 0⟩).balanceOf

theorem recorded_eq (hmeta : market.marketMeta = account.marketMeta)
    (hlong : account.market.state.contents.other.longTokenBalance =
      market.state.longTokenBalance)
    (hshort : account.market.state.contents.other.shortTokenBalance =
      market.state.shortTokenBalance) : account.recorded = market.balanceOf :=
  RevertibleMarket.balanceOf_congr hmeta.symm hlong hshort

theorem recorded_of_contents {contents : Contents}
    (hmeta : market.marketMeta = account.marketMeta)
    (hcontents : account.market.state.contents = contentsOf contents market.state) :
    account.recorded = market.balanceOf := by
  apply recorded_eq hmeta
  · rw [hcontents]
    rfl
  · rw [hcontents]
    rfl

theorem SameStored.recorded_eq (hsame : before.SameStored account) :
    account.recorded = before.recorded := by
  apply MarketAccount.recorded_eq
  · rw [hsame.info]
    rfl
  · rw [hsame.state]
    rfl
  · rw [hsame.state]
    rfl

/-- A persisted market is recorded as it is. -/
theorem persist_eq_ok (hmeta : market.marketMeta = account.marketMeta)
    (hpersist : account.persist market = .ok after) :
    after.marketMeta = account.marketMeta ∧ after.recorded = market.balanceOf := by
  obtain ⟨hcontents, hsame⟩ := persist_contents hpersist
  exact ⟨hsame, recorded_of_contents (hmeta.trans hsame.symm) hcontents⟩

theorem recorded_init (info : MarketInfo) (clock : Model.SysvarClock) (token : Pubkey) :
    (init info clock).recorded token = 0 := by
  unfold recorded RevertibleMarket.balanceOf RevertibleMarket.measure
  split
  · unfold Model.Market.balanceForToken
    split_ifs <;> rfl
  · rfl

end MarketAccount

/-! ## The markets of an operation -/

/-- An operation has started on the accounts as they are stored. -/
structure OperationMarkets.Opened (markets : OperationMarkets)
    (accounts : Pubkey → MarketAccount) (current : Pubkey) (addresses : List Pubkey) :
    Prop where
  current_eq : markets.current.marketMeta = (accounts current).marketMeta ∧
    markets.current.balanceOf = (accounts current).recorded
  entries : ∃ clock, markets.swapMarkets.entries = addresses.map fun address =>
    ((accounts address).key, (accounts address).stored clock)
  apart : ∀ address ∈ addresses, (accounts address).key ≠ (accounts current).key

/-- The accounts hold what an operation has made of its markets. -/
structure OperationMarkets.HeldBy (markets : OperationMarkets)
    (before after : Pubkey → MarketAccount) (current : Pubkey) (addresses : List Pubkey) :
    Prop where
  current_eq : (after current).recorded = markets.current.balanceOf
  swapped : ∀ address ∈ addresses, ∃ market,
    markets.swapMarkets.get (before address).key = some market ∧
      (after address).recorded = market.balanceOf

namespace OperationMarkets

variable {before after : Pubkey → MarketAccount} {current : Pubkey} {addresses : List Pubkey}
  {opened done : OperationMarkets}

theorem Opened.keys_eq (hopened : opened.Opened before current addresses) :
    opened.swapMarkets.keys = addresses.map fun address => (before address).key := by
  obtain ⟨_, hentries⟩ := hopened.entries
  unfold IndexMap.keys
  rw [hentries, List.map_map]
  rfl

theorem Opened.nodup (hopened : opened.Opened before current addresses) :
    (current :: addresses).Nodup := by
  have hkeys : (addresses.map fun address => (before address).key).Nodup := by
    rw [← hopened.keys_eq]
    exact opened.swapMarkets.nodup
  refine List.nodup_cons.mpr ⟨fun hmem => hopened.apart current hmem rfl, hkeys.of_map⟩

theorem Opened.recorded_eq (hopened : opened.Opened before current addresses)
    (token : Pubkey) :
    opened.recorded token =
      ((current :: addresses).map fun address => (before address).recorded token).sum := by
  obtain ⟨_, hentries⟩ := hopened.entries
  unfold OperationMarkets.recorded IndexMap.total
  rw [hopened.current_eq.2, hentries, List.map_map]
  rfl

theorem Opened.get_eq (hopened : opened.Opened before current addresses) {address : Pubkey}
    (hmem : address ∈ addresses) :
    (opened.swapMarkets.get (before address).key).map RevertibleMarket.marketMeta =
      some (before address).marketMeta := by
  obtain ⟨clock, hentries⟩ := hopened.entries
  have hentry : ((before address).key, (before address).stored clock) ∈
      opened.swapMarkets.entries := by
    rw [hentries]
    exact List.mem_map_of_mem hmem
  rw [IndexMap.get_of_mem hentry]
  rfl

variable {amount : Pubkey → ℤ}

theorem HeldBy.recorded_eq (hopened : opened.Opened before current addresses)
    (hmoves : opened.Moves done amount)
    (hheld : done.HeldBy before after current addresses) (token : Pubkey) :
    done.recorded token =
      ((current :: addresses).map fun address => (after address).recorded token).sum := by
  unfold OperationMarkets.recorded
  rw [IndexMap.total_eq_sum_get, hmoves.keys_eq, hopened.keys_eq, List.map_map,
    ← hheld.current_eq, List.map_cons, List.sum_cons]
  congr 2
  apply List.map_congr_left
  intro address hmem
  obtain ⟨market, hget, hrecorded⟩ := hheld.swapped address hmem
  rw [Function.comp_apply, hget, Option.elim_some, hrecorded]

/-- The accounts of the operation have together recorded what was moved. -/
theorem HeldBy.sum_recorded (hopened : opened.Opened before current addresses)
    (hmoves : opened.Moves done amount)
    (hheld : done.HeldBy before after current addresses) (token : Pubkey) :
    ((∑ address ∈ (current :: addresses).toFinset, (after address).recorded token : ℕ) : ℤ) =
      (∑ address ∈ (current :: addresses).toFinset, (before address).recorded token : ℕ) +
        amount token := by
  rw [List.sum_toFinset _ hopened.nodup, List.sum_toFinset _ hopened.nodup,
    ← hheld.recorded_eq hopened hmoves, ← hopened.recorded_eq]
  exact hmoves.recorded token

end OperationMarkets

open OperationMarkets (Moves Keeps Opened HeldBy)

/-! ## The books -/

namespace Vaults

/-- The books of the markets over the vaults of all tokens. -/
def books (vaults : Vaults) : SharedVault Pubkey Pubkey where
  members := vaults.addresses
  book address := (vaults.markets address).recorded
  held := vaults.vault

variable {vaults stored after : Vaults} {address : Pubkey} {market : RevertibleMarket}

theorem load_eq_ok {account : MarketAccount} (hload : vaults.load address = .ok account) :
    address ∈ vaults.addresses ∧ account = vaults.markets address := by
  simp only [load, bind_eq_ok, ensure_eq_ok, pure_eq_ok] at hload
  obtain ⟨_, hmem, rfl⟩ := hload
  exact ⟨hmem, rfl⟩

/-- Changes of an account that do not touch what it has recorded. -/
theorem books_setMarket {account : MarketAccount}
    (hrecorded : account.recorded = (vaults.markets address).recorded) :
    (vaults.setMarket address account).books = vaults.books := by
  unfold books setMarket
  congr 1
  funext other
  by_cases hother : other = address
  · subst hother
    exact (congrArg MarketAccount.recorded (Function.update_self _ _ _)).trans hrecorded
  · exact congrArg MarketAccount.recorded (Function.update_of_ne hother _ _)

/-- One market has been stored. -/
structure Stores (vaults after : Vaults) (address : Pubkey) (market : RevertibleMarket) :
    Prop where
  addresses_eq : after.addresses = vaults.addresses
  vault_eq : after.vault = vaults.vault
  recorded_eq : (after.markets address).recorded = market.balanceOf
  others : ∀ other, other ≠ address → after.markets other = vaults.markets other

theorem storeMarket_eq_ok (hmeta : market.marketMeta = (vaults.markets address).marketMeta)
    (hstore : vaults.storeMarket address market = .ok after) :
    vaults.Stores after address market := by
  simp only [storeMarket, bind_eq_ok, pure_eq_ok] at hstore
  obtain ⟨account, hpersist, rfl⟩ := hstore
  obtain ⟨-, hrecorded⟩ := MarketAccount.persist_eq_ok hmeta hpersist
  refine ⟨rfl, rfl, ?_, fun other hother => Function.update_of_ne hother _ _⟩
  exact (congrArg MarketAccount.recorded (Function.update_self _ _ _)).trans hrecorded

/-- The vault changes by what the market records. -/
theorem Stores.balanced (hstores : vaults.Stores stored address market)
    (hmember : address ∈ vaults.addresses) {vault : Pubkey → ℕ} {delta : Pubkey → ℤ}
    (hbalance : ∀ token, (market.balanceOf token : ℤ) =
      (vaults.markets address).recorded token + delta token)
    (hvault : ∀ token, (vault token : ℤ) = vaults.vault token + delta token) :
    vaults.books.Balanced { stored with vault }.books := by
  intro token
  have hbooked := @SharedVault.booked_change _ _ vaults.books { stored with vault }.books
    address hstores.addresses_eq hmember
    (fun other hother => congrArg MarketAccount.recorded (hstores.others other hother)) token
  have hrecorded : { stored with vault }.books.book address token = market.balanceOf token :=
    congrFun hstores.recorded_eq token
  have hbefore : vaults.books.book address token = (vaults.markets address).recorded token :=
    rfl
  have hheld : (vaults.books.held token : ℤ) = vaults.vault token := rfl
  have hafter : ({ stored with vault }.books.held token : ℤ) = vault token := rfl
  have hdelta := hbalance token
  have hmoved := hvault token
  omega

/-! ## Transfers -/

theorem transferIn_balanced {store token : Pubkey} {amount : ℕ}
    (htransfer : vaults.transferIn store address token amount = .ok after) :
    vaults.books.Balanced after.books := by
  obtain ⟨account, hload, hrest⟩ := bind_eq_ok.mp htransfer
  obtain ⟨hmember, rfl⟩ := load_eq_ok hload
  obtain ⟨_, -, hrest⟩ := bind_eq_ok.mp hrest
  split_ifs at hrest with hzero
  · obtain rfl := Except.ok.inj hrest
    exact fun _ => rfl
  · simp only [bind_eq_ok, pure_eq_ok] at hrest
    obtain ⟨market, hrecord, stored, hstore, rfl⟩ := hrest
    have hchanges := RevertibleMarket.recordTransferredIn_changes hrecord
    apply (storeMarket_eq_ok hchanges.marketMeta_eq hstore).balanced hmember
      hchanges.balance_eq
    intro other
    by_cases hother : other = token
    · subst hother
      simp [amountIn]
    · simp [amountIn, hother, (storeMarket_eq_ok hchanges.marketMeta_eq hstore).vault_eq]

theorem transferOut_balanced {store token : Pubkey} {amount : ℕ}
    (htransfer : vaults.transferOut store address token amount = .ok after) :
    vaults.books.Balanced after.books := by
  obtain ⟨account, hload, hrest⟩ := bind_eq_ok.mp htransfer
  obtain ⟨hmember, rfl⟩ := load_eq_ok (mapError_eq_ok.mp hload)
  obtain ⟨_, -, hrest⟩ := bind_eq_ok.mp hrest
  obtain ⟨_, -, hrest⟩ := bind_eq_ok.mp hrest
  split_ifs at hrest with hzero
  · obtain rfl := Except.ok.inj hrest
    exact fun _ => rfl
  · simp only [bind_eq_ok, ensure_eq_ok, mapError_eq_ok, pure_eq_ok] at hrest
    obtain ⟨_, henough, market, hrecord, stored, hstore, rfl⟩ := hrest
    have hchanges := RevertibleMarket.recordTransferredOut_changes hrecord
    apply (storeMarket_eq_ok hchanges.marketMeta_eq hstore).balanced hmember
      hchanges.balance_eq
    intro other
    by_cases hother : other = token
    · subst hother
      simp only [Function.update_self, amountIn, if_true]
      omega
    · simp [amountIn, hother, (storeMarket_eq_ok hchanges.marketMeta_eq hstore).vault_eq]

section Operations

variable [Model.MarketNum]

theorem takeFees_keepsBalances {before taken : RevertibleMarket} {side : Bool} {amount : ℕ}
    (htake : takeFees before side amount = .ok taken) : before.KeepsBalances taken := by
  unfold takeFees at htake
  split_ifs at htake
  · obtain rfl := Except.ok.inj htake
    exact ⟨before.state, ⟨rfl, rfl⟩, rfl⟩
  · apply RevertibleMarket.update_keepsBalances _ htake
    intro state hstate
    exact (Model.Market.applyDeltaToClaimableFeePool_keepsRecords hstate).toKeepsBalances

theorem claimFees_keepsBalances {token : Pubkey} {claimed : RevertibleMarket × ℕ}
    (hclaim : claimFees market token = .ok claimed) : market.KeepsBalances claimed.1 := by
  simp only [claimFees, bind_eq_ok, pure_eq_ok] at hclaim
  obtain ⟨_, -, _, -, first, hfirst, second, hsecond, _, -, rfl⟩ := hclaim
  exact (takeFees_keepsBalances hfirst).trans (takeFees_keepsBalances hsecond)

theorem claimFeesFromMarket_balanced {store token : Pubkey} {clock : Model.SysvarClock}
    (hclaim : vaults.claimFeesFromMarket store address token clock = .ok after) :
    vaults.books.Balanced after.books := by
  simp only [claimFeesFromMarket, bind_eq_ok, mapError_eq_ok] at hclaim
  obtain ⟨account, hload, claimed, hclaimed, committed, hstore, htransfer⟩ := hclaim
  obtain ⟨hmember, rfl⟩ := load_eq_ok hload
  have hkeeps := claimFees_keepsBalances hclaimed
  have hstores := storeMarket_eq_ok hkeeps.marketMeta_eq hstore
  have hcommitted : vaults.books.Balanced { committed with vault := committed.vault }.books := by
    apply hstores.balanced hmember
    · intro other
      rw [hkeeps.balanceOf_eq]
      exact (add_zero _).symm
    · intro other
      rw [hstores.vault_eq, add_zero]
  exact hcommitted.trans (transferOut_balanced htransfer)

end Operations

/-! ## Operations on several markets -/

section Several

variable {addresses : List Pubkey} {opened done : OperationMarkets} {amount : Pubkey → ℤ}

/-- What is booked changes by what the operation has moved. -/
theorem booked_operation {current : Pubkey}
    (hopened : opened.Opened vaults.markets current addresses)
    (hmoves : opened.Moves done amount)
    (hheld : done.HeldBy vaults.markets after.markets current addresses)
    (haddresses : after.addresses = vaults.addresses)
    (hmembers : ∀ address ∈ current :: addresses, address ∈ vaults.addresses)
    (hothers : ∀ address, address ∉ current :: addresses →
      (after.markets address).recorded = (vaults.markets address).recorded)
    (token : Pubkey) :
    (after.books.booked token : ℤ) = vaults.books.booked token + amount token := by
  have hmove := @SharedVault.booked_move _ _ vaults.books after.books
    (current :: addresses).toFinset haddresses
    (fun address hmem => hmembers address (List.mem_toFinset.mp hmem))
    (fun address hmem => hothers address fun hin => hmem (List.mem_toFinset.mpr hin)) token
  have hsum := hheld.sum_recorded hopened hmoves token
  have hbefore : ∑ member ∈ (current :: addresses).toFinset, vaults.books.book member token =
      ∑ address ∈ (current :: addresses).toFinset, (vaults.markets address).recorded token :=
    rfl
  have hafter : ∑ member ∈ (current :: addresses).toFinset, after.books.book member token =
      ∑ address ∈ (current :: addresses).toFinset, (after.markets address).recorded token :=
    rfl
  omega

/-- Accounts that were all found to be market accounts. -/
theorem eq_map_some {α : Type} {infos : List (Option Pubkey)} {found : List α}
    {isMarket : Pubkey → Bool} {read : Pubkey → α}
    (hinfos : infos.map (fun info => (info.filter isMarket).map read) = found.map some) :
    found = infos.reduceOption.map read ∧
      ∀ address ∈ infos.reduceOption, isMarket address = true := by
  induction infos generalizing found with
  | nil =>
      obtain rfl := List.map_eq_nil_iff.mp hinfos.symm
      exact ⟨rfl, fun _ hmem => absurd hmem List.not_mem_nil⟩
  | cons info infos ih =>
      cases found with
      | nil => exact absurd hinfos (by simp)
      | cons first rest =>
          obtain ⟨hfirst, hrest⟩ := List.cons.inj hinfos
          obtain ⟨address, haddress, rfl⟩ := Option.map_eq_some_iff.mp hfirst
          obtain ⟨rfl, hmarket⟩ := Option.filter_eq_some_iff.mp haddress
          obtain ⟨rfl, hmembers⟩ := ih hrest
          rw [List.reduceOption_cons_of_some]
          exact ⟨rfl, List.forall_mem_cons.mpr ⟨hmarket, hmembers⟩⟩

/-- The swap markets have been stored one after the other. -/
theorem storeSwapMarkets_eq_ok {swapMarkets : SwapMarkets} (hnodup : addresses.Nodup)
    (hmetas : ∀ address ∈ addresses, ∀ market,
      swapMarkets.get (vaults.markets address).key = some market →
        market.marketMeta = (vaults.markets address).marketMeta)
    (hstore : addresses.foldlM (storeSwapMarket swapMarkets) vaults = .ok after) :
    after.addresses = vaults.addresses ∧ after.vault = vaults.vault ∧
      (∀ address ∈ addresses, ∃ market,
        swapMarkets.get (vaults.markets address).key = some market ∧
          (after.markets address).recorded = market.balanceOf) ∧
      ∀ address, address ∉ addresses → after.markets address = vaults.markets address := by
  induction addresses generalizing vaults with
  | nil =>
      obtain rfl := Except.ok.inj hstore
      exact ⟨rfl, rfl, fun _ hmem => absurd hmem List.not_mem_nil, fun _ _ => rfl⟩
  | cons first rest ih =>
      obtain ⟨hfirst, hrest⟩ := List.nodup_cons.mp hnodup
      rw [List.foldlM_cons] at hstore
      obtain ⟨between, hstep, hremaining⟩ := bind_eq_ok.mp hstore
      simp only [storeSwapMarket, bind_eq_ok, okOr_eq_ok] at hstep
      obtain ⟨market, hget, hstep⟩ := hstep
      have hstores := storeMarket_eq_ok (hmetas first List.mem_cons_self market hget) hstep
      have hother (address : Pubkey) (hmem : address ∈ rest) :
          between.markets address = vaults.markets address :=
        hstores.others address fun heq => hfirst (heq ▸ hmem)
      obtain ⟨haddresses, hvault, hswapped, hothers⟩ := ih hrest (fun address hmem found => by
        rw [hother address hmem]
        exact hmetas address (List.mem_cons_of_mem first hmem) found) hremaining
      refine ⟨haddresses.trans hstores.addresses_eq, hvault.trans hstores.vault_eq, ?_, ?_⟩
      · rw [List.forall_mem_cons]
        refine ⟨⟨market, hget, ?_⟩, fun address hmem => ?_⟩
        · rw [hothers first hfirst, hstores.recorded_eq]
        · obtain ⟨found, hfound, hrecorded⟩ := hswapped address hmem
          rw [hother address hmem] at hfound
          exact ⟨found, hfound, hrecorded⟩
      · intro address hmem
        rw [hothers address (List.not_mem_of_not_mem_cons hmem),
          hstores.others address (List.ne_of_not_mem_cons hmem)]

variable {op : LiquidityOperation}

/-- The market accounts of an operation that has started. -/
theorem openExecute_eq_ok {execute : Execute} (hopen : vaults.openExecute op = .ok execute) :
    execute.markets.Opened vaults.markets op.market op.swapAddresses ∧
      ∀ address ∈ op.market :: op.swapAddresses, address ∈ vaults.addresses := by
  obtain ⟨account, hload, hrest⟩ := bind_eq_ok.mp hopen
  obtain ⟨hmember, rfl⟩ := load_eq_ok hload
  obtain ⟨_, -, hnew⟩ := bind_eq_ok.mp hrest
  simp only [Execute.new, bind_eq_ok, pure_eq_ok] at hnew
  obtain ⟨loaders, hloaders, markets, hmarkets, rfl⟩ := hnew
  obtain ⟨hentries, hothers⟩ := SwapMarkets.new_eq_ok hmarkets
  have hloaded : loaders = op.swapAddresses.map (fun address =>
      (vaults.markets address).stored op.clock) ∧
      ∀ address ∈ op.swapAddresses, address ∈ vaults.addresses := by
    unfold Execute.swapLoaders at hloaders
    unfold LiquidityOperation.swapAddresses
    split at hloaders
    · rename_i hnone
      obtain rfl := Except.ok.inj hloaders
      simp [hnone]
    · rename_i params hswap
      obtain ⟨_, -, hunpack⟩ := bind_eq_ok.mp hloaders
      have hinfos := mapM_okOr_eq_ok hunpack
      rw [hswap, Option.isSome_some, if_pos rfl]
      obtain ⟨hfound, hmembers⟩ := eq_map_some hinfos
      exact ⟨hfound, fun address hmem => of_decide_eq_true (hmembers address hmem)⟩
  obtain ⟨rfl, hmembers⟩ := hloaded
  refine ⟨⟨⟨rfl, rfl⟩, ⟨op.clock, ?_⟩, ?_⟩, List.forall_mem_cons.mpr ⟨hmember, hmembers⟩⟩
  · exact hentries.trans (List.map_map ..)
  · intro address hmem heq
    exact hothers _ (List.mem_map_of_mem hmem) (congrArg some heq.symm)

theorem commitExecute_eq_ok {execute : Execute}
    (hopened : opened.Opened vaults.markets op.market op.swapAddresses)
    (hmoves : opened.Moves execute.markets amount)
    (hcommit : vaults.commitExecute op execute = .ok after) :
    execute.markets.HeldBy vaults.markets after.markets op.market op.swapAddresses ∧
      after.addresses = vaults.addresses ∧ after.vault = vaults.vault ∧
      ∀ address, address ∉ op.market :: op.swapAddresses →
        after.markets address = vaults.markets address := by
  obtain ⟨current, hcurrent, hswapped⟩ := bind_eq_ok.mp hcommit
  obtain ⟨hapart, hnodup⟩ := List.nodup_cons.mp hopened.nodup
  have hstores := storeMarket_eq_ok
    (hmoves.current.trans hopened.current_eq.1) hcurrent
  have hsame (address : Pubkey) (hmem : address ∈ op.swapAddresses) :
      current.markets address = vaults.markets address :=
    hstores.others address fun heq => hapart (heq ▸ hmem)
  obtain ⟨haddresses, hvault, hheld, hothers⟩ :=
    storeSwapMarkets_eq_ok hnodup (fun address hmem market hget => by
      rw [hsame address hmem] at hget ⊢
      have hmeta := hmoves.swapMarkets (vaults.markets address).key
      rw [hopened.get_eq hmem] at hmeta
      have hfound : execute.markets.swapMarkets.get (vaults.markets address).key =
        some market := hget
      rw [hfound] at hmeta
      exact Option.some.inj hmeta) hswapped
  refine ⟨⟨?_, fun address hmem => ?_⟩, haddresses.trans hstores.addresses_eq,
    hvault.trans hstores.vault_eq, fun address hmem => ?_⟩
  · rw [hothers op.market hapart]
    exact hstores.recorded_eq
  · obtain ⟨market, hget, hrecorded⟩ := hheld address hmem
    rw [hsame address hmem] at hget
    exact ⟨market, hget, hrecorded⟩
  · rw [hothers address (List.not_mem_of_not_mem_cons hmem),
      hstores.others address (List.ne_of_not_mem_cons hmem)]

/-- An operation whose markets have been committed. -/
theorem booked_commitExecute {execute : Execute}
    (hopened : opened.Opened vaults.markets op.market op.swapAddresses)
    (hmembers : ∀ address ∈ op.market :: op.swapAddresses, address ∈ vaults.addresses)
    (hmoves : opened.Moves execute.markets amount)
    (hcommit : vaults.commitExecute op execute = .ok after) (token : Pubkey) :
    (after.books.booked token : ℤ) = vaults.books.booked token + amount token := by
  obtain ⟨hheld, haddresses, -, hothers⟩ := commitExecute_eq_ok hopened hmoves hcommit
  exact booked_operation hopened hmoves hheld haddresses hmembers
    (fun address hmem => congrArg MarketAccount.recorded (hothers address hmem)) token

/-- The vaults have not changed, and neither have the books together. -/
theorem balanced_of_booked (hvault : after.vault = vaults.vault)
    (hbooked : ∀ token, after.books.booked token = vaults.books.booked token) :
    vaults.books.Balanced after.books := by
  intro token
  show after.vault token + vaults.books.booked token =
    vaults.vault token + after.books.booked token
  rw [hvault, hbooked]

theorem commitExecute_balanced {execute : Execute}
    (hopened : opened.Opened vaults.markets op.market op.swapAddresses)
    (hmembers : ∀ address ∈ op.market :: op.swapAddresses, address ∈ vaults.addresses)
    (hkeeps : opened.Keeps execute.markets)
    (hcommit : vaults.commitExecute op execute = .ok after) :
    vaults.books.Balanced after.books := by
  apply balanced_of_booked (commitExecute_eq_ok hopened hkeeps hcommit).2.2.1
  intro token
  have hbooked := booked_commitExecute hopened hmembers hkeeps hcommit token
  rw [Pi.zero_apply, add_zero] at hbooked
  exact Nat.cast_inj.mp hbooked

/-- An operation without a swap sees the same market where nothing else has been stored. -/
theorem opened_congr {between : Vaults} {current : Pubkey}
    (hopened : opened.Opened vaults.markets current [])
    (hsame : between.markets current = vaults.markets current) :
    opened.Opened between.markets current [] := by
  refine ⟨?_, ?_, fun _ hmem => absurd hmem List.not_mem_nil⟩
  · rw [hsame]
    exact hopened.current_eq
  · obtain ⟨clock, hentries⟩ := hopened.entries
    exact ⟨clock, hentries⟩

/-- The markets of an order, from where they are stored. -/
theorem storedSwapMarkets_opened {accounts : Accounts} {clock : Model.SysvarClock}
    {current : Pubkey} {swapMarkets : SwapMarkets}
    (hstored : accounts.storedSwapMarkets clock (accounts.markets current).key addresses =
      .ok swapMarkets) :
    OperationMarkets.Opened ⟨(accounts.markets current).stored clock, swapMarkets⟩
      accounts.markets current addresses := by
  obtain ⟨hentries, hothers⟩ := SwapMarkets.new_eq_ok hstored
  refine ⟨⟨rfl, rfl⟩, ⟨clock, hentries.trans (List.map_map ..)⟩, fun address hmem heq => ?_⟩
  exact hothers _ (List.mem_map_of_mem hmem) (congrArg some heq.symm)

/-- The accounts after an order hold what its transaction has made of the markets. -/
theorem storedIn_heldBy {transacted : Transacted} {order : ExecuteOrderOperation}
    {start finish : Accounts} (hstored : transacted.StoredIn order start finish)
    (hopened : opened.Opened start.markets order.market addresses)
    (hkeeps : opened.Keeps transacted.markets)
    (hremaining : order.remainingAccounts = addresses.map some) :
    transacted.markets.HeldBy start.markets finish.markets order.market addresses ∧
      ∀ address, address ∉ order.market :: addresses →
        (finish.markets address).recorded = (start.markets address).recorded := by
  have hmem (address : Pubkey) : some address ∈ order.remainingAccounts ↔
      address ∈ addresses := by
    rw [hremaining]
    simp
  have hinfo (address : Pubkey) : (finish.markets address).marketMeta =
      (start.markets address).marketMeta :=
    congrArg MarketInfo.marketMeta (hstored.info address)
  refine ⟨⟨?_, fun address haddress => ?_⟩, fun address haddress => ?_⟩
  · refine MarketAccount.recorded_of_contents ?_ hstored.current
    exact (hkeeps.current.trans hopened.current_eq.1).trans (hinfo order.market).symm
  · obtain ⟨market, hget, hcontents⟩ := hstored.swapped address ((hmem address).mpr haddress)
    have hmeta := hkeeps.swapMarkets (start.markets address).key
    rw [hopened.get_eq haddress, show transacted.markets.swapMarkets.get _ = some market
      from hget] at hmeta
    refine ⟨market, hget, MarketAccount.recorded_of_contents ?_ hcontents⟩
    exact (Option.some.inj hmeta).trans (hinfo address).symm
  · have hstate := hstored.others address (List.ne_of_not_mem_cons haddress)
      fun hin => List.not_mem_of_not_mem_cons haddress ((hmem address).mp hin)
    exact MarketAccount.SameStored.recorded_eq ⟨hstored.info address, hstate⟩

variable [Model.MarketNum]

theorem performDeposit_balanced {oracle : SwapPath.Oracle} {params : DepositActionParams}
    {initialTokens : Option Pubkey × Option Pubkey} {kind : SwapPricingKind}
    (hdeposit : vaults.performDeposit oracle op params initialTokens kind = .ok after) :
    vaults.books.Balanced after.books := by
  simp only [performDeposit, bind_eq_ok] at hdeposit
  obtain ⟨execute, hopen, deposited, hdeposited, hcommit⟩ := hdeposit
  obtain ⟨hopened, hmembers⟩ := openExecute_eq_ok hopen
  exact commitExecute_balanced hopened hmembers
    (Execute.uncheckedDeposit_keeps hdeposited) hcommit

theorem performWithdrawal_balanced {oracle : SwapPath.Oracle}
    {params : WithdrawalActionParams} {finalTokens : Pubkey × Pubkey}
    {kind : SwapPricingKind}
    (hwithdraw : vaults.performWithdrawal oracle op params finalTokens kind = .ok after) :
    vaults.books.Balanced after.books := by
  simp only [performWithdrawal, bind_eq_ok] at hwithdraw
  obtain ⟨execute, hopen, withdrawn, hwithdrawn, hcommit⟩ := hwithdraw
  obtain ⟨hopened, hmembers⟩ := openExecute_eq_ok hopen
  exact commitExecute_balanced hopened hmembers
    (Execute.uncheckedWithdraw_keeps hwithdrawn) hcommit

/-- What a shift books in the one market it takes from the other. -/
theorem performShift_balanced {oracle : SwapPath.Oracle} {source target : LiquidityOperation}
    {params : ShiftActionParams}
    (hshift : vaults.performShift oracle source target params = .ok after) :
    vaults.books.Balanced after.books := by
  simp only [performShift, bind_eq_ok, ensure_eq_ok] at hshift
  obtain ⟨_, hother, fromMarket, hfrom, toMarket, hto, _, -, _, -, shifted, hshifted,
    committed, hsource, htarget⟩ := hshift
  obtain ⟨hfromOpened, hfromMembers⟩ := openExecute_eq_ok hfrom
  obtain ⟨htoOpened, htoMembers⟩ := openExecute_eq_ok hto
  obtain ⟨amount, hout, hin⟩ := Execute.uncheckedShift_moves hshifted
  obtain ⟨-, haddresses, hvault, hothers⟩ := commitExecute_eq_ok hfromOpened hout hsource
  have hsame : committed.markets target.market = vaults.markets target.market :=
    hothers target.market fun hmem => hother (List.mem_singleton.mp hmem).symm
  have htoOpened := opened_congr htoOpened hsame
  have htoMembers : ∀ address ∈ [target.market], address ∈ committed.addresses := by
    rw [haddresses]
    exact htoMembers
  apply balanced_of_booked
  · exact (commitExecute_eq_ok htoOpened hin htarget).2.2.1.trans hvault
  · intro token
    have hfirst := booked_commitExecute hfromOpened hfromMembers hout hsource token
    have hsecond := booked_commitExecute htoOpened htoMembers hin htarget token
    rw [Pi.neg_apply] at hfirst
    omega

/-- An order that has been executed moves what is recorded between its markets, and one
that has not leaves it alone. -/
theorem executeOrder_balanced {oracle : TimedOracle} {clock : Model.SysvarClock}
    {leftover : Pubkey → List Access} {order : ExecuteOrderOperation} {accounts : Accounts}
    (hexecute : vaults.executeOrder oracle clock leftover order accounts = .ok after) :
    vaults.books.Balanced after.books := by
  simp only [executeOrder, bind_eq_ok, pure_eq_ok] at hexecute
  obtain ⟨_, hload, executed, hsettle, rfl⟩ := hexecute
  obtain ⟨hmember, -⟩ := load_eq_ok hload
  obtain ⟨outcome, hrun⟩ := Mutation.settle_eq_ok.mp hsettle
  refine balanced_of_booked (by rfl) fun token => ?_
  cases hdone : outcome.transferOut.executed with
  | false =>
      have htrace : NoTrace { accounts with markets := vaults.markets } executed outcome := by
        obtain ⟨-, ⟨rfl, rfl⟩ | ⟨prices, discount, attempted, hattempted⟩⟩ :=
          execute_eq_ok hrun
        · exact .expired _
        · exact hattempted.noTrace hdone
      unfold SharedVault.booked books
      apply Finset.sum_congr rfl
      intro address _
      exact congrFun (htrace.markets address).toSameStored.recorded_eq token
  | true =>
      obtain ⟨hvalidFrom, _, _, attempted, hattempted⟩ := execute_attempted hrun hdone
      obtain ⟨prices, discount, transacted, htransaction⟩ :=
        hattempted.isTransaction hvalidFrom hdone
      obtain ⟨addresses, swapMarkets, hunpacked, hstored, hkeeps⟩ :=
        transaction_keeps htransaction.transaction
      obtain ⟨stored, hstoredIn, rfl⟩ := htransaction.stored
      have hremaining : order.remainingAccounts.map (·.filter (· ∈ vaults.addresses)) =
          addresses.map some := unpackMarketsForSwap_eq_ok hunpacked
      have hopened := storedSwapMarkets_opened hstored
      obtain ⟨hheld, hothers⟩ := storedIn_heldBy hstoredIn hopened hkeeps hremaining
      have hmembers (address : Pubkey) (hin : address ∈ addresses) :
          address ∈ vaults.addresses := by
        have hsome : some address ∈ order.remainingAccounts.map
            (·.filter (· ∈ vaults.addresses)) := by
          rw [hremaining]
          exact List.mem_map_of_mem hin
        obtain ⟨info, -, hinfo⟩ := List.mem_map.mp hsome
        exact of_decide_eq_true (Option.filter_eq_some_iff.mp hinfo).2
      have hbooked := @booked_operation vaults { vaults with markets := stored.markets }
        addresses _ _ _ _ hopened hkeeps hheld rfl
        (List.forall_mem_cons.mpr ⟨hmember, hmembers⟩) hothers token
      rw [Pi.zero_apply, add_zero] at hbooked
      exact Nat.cast_inj.mp hbooked

end Several

/-! ## Runs -/

section Runs

/-- Only the tokens of the market and the stored balances matter for its book. -/
theorem setMarket_balanced {account : MarketAccount}
    (hmeta : account.marketMeta = (vaults.markets address).marketMeta)
    (hother : account.market.state.contents.other =
      (vaults.markets address).market.state.contents.other) :
    vaults.books.Balanced (vaults.setMarket address account).books := by
  have hrecorded : account.recorded = (vaults.markets address).recorded := by
    apply MarketAccount.recorded_eq hmeta.symm
    · rw [hother]
      rfl
    · rw [hother]
      rfl
  rw [books_setMarket hrecorded]
  exact fun _ => rfl

theorem initializeMarket_balanced {info : MarketInfo} {clock : Model.SysvarClock}
    (hcreate : vaults.initializeMarket address info clock = .ok after) :
    vaults.books.Balanced after.books := by
  simp only [initializeMarket, bind_eq_ok, ensure_eq_ok, pure_eq_ok] at hcreate
  obtain ⟨_, hvacant, rfl⟩ := hcreate
  refine balanced_of_booked (by rfl) fun token => ?_
  apply SharedVault.booked_join hvacant rfl
  · intro asset
    exact (congrFun (congrArg MarketAccount.recorded (Function.update_self _ _ _))
      asset).trans (MarketAccount.recorded_init info clock asset)
  · intro other hother
    exact congrArg MarketAccount.recorded (Function.update_of_ne hother _ _)

theorem give_backed {given : Pubkey → ℕ} (hbacked : vaults.books.Backed given)
    (token : Pubkey) (amount : ℕ) :
    (vaults.setVault token (vaults.vault token + amount)).books.Backed
      (given + Pi.single token amount) := by
  apply hbacked.give
  intro asset
  by_cases hasset : asset = token
  · subst hasset
    refine (Function.update_self asset _ vaults.vault).trans ?_
    rw [Pi.single_eq_same]
    rfl
  · refine (Function.update_of_ne hasset _ vaults.vault).trans ?_
    rw [Pi.single_eq_of_ne hasset]
    rfl

variable [Model.MarketNum]

theorem updateAdlState_eq_ok {account updated : MarketAccount} {oracle : TimedOracle}
    {clock : Model.SysvarClock} {isLong : Bool}
    (hupdate : account.updateAdlState oracle clock isLong = .ok updated) :
    ∃ isEnabled, updated = account.setAdlState isLong isEnabled clock.unixTimestamp := by
  simp only [MarketAccount.updateAdlState, bind_eq_ok, pure_eq_ok] at hupdate
  obtain ⟨_, -, _, -, _, -, isExceeded, -, rfl⟩ := hupdate
  exact ⟨isExceeded, rfl⟩

/-- A step changes the vaults as it changes the books, unless it gives tokens away. -/
theorem perform_balanced {action : Action}
    (hgive : ∀ token amount, action ≠ .give token amount)
    (hperform : vaults.perform action = .ok after) : vaults.books.Balanced after.books := by
  cases action with
  | initializeMarket address info clock => exact initializeMarket_balanced hperform
  | configure address info =>
      simp only [perform, configure, bind_eq_ok, mapError_eq_ok, pure_eq_ok] at hperform
      obtain ⟨account, hload, rfl⟩ := hperform
      obtain ⟨-, rfl⟩ := load_eq_ok hload
      exact setMarket_balanced rfl rfl
  | updateAdlState address oracle clock isLong =>
      simp only [perform, bind_eq_ok, mapError_eq_ok, pure_eq_ok] at hperform
      obtain ⟨account, hload, updated, hupdate, rfl⟩ := hperform
      obtain ⟨-, rfl⟩ := load_eq_ok hload
      obtain ⟨isEnabled, rfl⟩ := updateAdlState_eq_ok hupdate
      exact setMarket_balanced rfl rfl
  | give token amount => exact absurd rfl (hgive token amount)
  | transferIn store address token amount =>
      exact transferIn_balanced (mapError_eq_ok.mp hperform)
  | transferOut store address token amount => exact transferOut_balanced hperform
  | claimFees store address token clock => exact claimFeesFromMarket_balanced hperform
  | executeOrder oracle clock leftover op accounts =>
      exact executeOrder_balanced (mapError_eq_ok.mp hperform)
  | deposit oracle op params initialTokens kind =>
      exact performDeposit_balanced (mapError_eq_ok.mp hperform)
  | withdraw oracle op params finalTokens kind =>
      exact performWithdrawal_balanced (mapError_eq_ok.mp hperform)
  | shift oracle source target params =>
      exact performShift_balanced (mapError_eq_ok.mp hperform)
  | abandon address accesses =>
      simp only [perform, MarketAccount.abandon, bind_eq_ok, mapError_eq_ok,
        pure_eq_ok] at hperform
      obtain ⟨account, hload, _, ⟨started, hstart, rfl⟩, rfl⟩ := hperform
      obtain ⟨-, rfl⟩ := load_eq_ok hload
      obtain ⟨-, hinfo, hstate⟩ := MarketAccount.start_eq_ok hstart
      have hmeta : (started.access accesses).marketMeta =
          (vaults.markets address).marketMeta := congrArg MarketInfo.marketMeta hinfo
      apply setMarket_balanced hmeta
      rw [MarketAccount.state_access, hstate]

/-- Every step keeps the vaults backing the books. -/
theorem step_backed {action : Action} {given more : Pubkey → ℕ}
    (hbacked : vaults.books.Backed given) (hstep : vaults.step action = .ok (after, more)) :
    after.books.Backed (given + more) := by
  obtain ⟨next, hperform, hresult⟩ := map_eq_ok.mp hstep
  obtain ⟨rfl, rfl⟩ := Prod.mk.inj hresult
  by_cases hgive : ∃ token amount, action = .give token amount
  · obtain ⟨token, amount, rfl⟩ := hgive
    obtain rfl := Except.ok.inj hperform
    exact give_backed hbacked token amount
  · have hnone : action.given = 0 := by
      cases action <;> first | rfl | exact absurd ⟨_, _, rfl⟩ hgive
    rw [hnone, add_zero]
    exact hbacked.of_balanced (perform_balanced
      (fun token amount heq => hgive ⟨token, amount, heq⟩) hperform)

/-- From no markets and empty vaults, whatever is done in whatever order: the vault of each
token holds what all markets have recorded of it and what it was given besides. -/
theorem run_backed {accounts : Pubkey → MarketAccount} {outputs : List (Pubkey → ℕ)}
    (run : Run Vaults.step (fun _ _ => True) (Vaults.empty accounts) outputs after) :
    (∀ token, after.vault token =
        (∑ address ∈ after.addresses, (after.markets address).recorded token) +
          outputs.sum token) ∧
      ∀ address ∈ after.addresses, ∀ token,
        (after.markets address).recorded token ≤ after.vault token := by
  have hbacked : after.books.Backed outputs.sum := by
    apply run.invariant (fun outputs vaults => vaults.books.Backed outputs.sum)
    · exact fun _ => rfl
    · intro outputs before action next more hbefore _ hstep
      rw [List.sum_cons, add_comm]
      exact step_backed hbefore hstep
  exact ⟨hbacked, fun address hmem => hbacked.book_le hmem⟩

end Runs

section Store

attribute [local instance] Model.storeNumbers

/-- A deposit of 1000 of each token. -/
def depositActions (address : Pubkey) : List Action :=
  [.initializeMarket address (gtMarket address 0).toMarketInfo ⟨5, 5⟩,
    .transferIn 0 address 2 1000, .transferIn 0 address 3 1000,
    .deposit gtOracle.toOracle ⟨0, ⟨5, 5⟩, address, 0, 0, 0, none, []⟩ ⟨1000, 1000, 0⟩
      (none, none) .deposit]

/-- The order swaps its collateral in the second market. -/
def orderActions : List Action :=
  depositActions 100 ++ depositActions 200 ++
    [.give 3 7, .transferIn 0 200 3 100,
      .executeOrder gtOracle ⟨5, 5⟩ (fun _ => []) ⟨100, [some 200], true⟩ mintingAccounts]

theorem run_backed_sample :
    ∃ outputs after,
      Run Vaults.step (fun _ _ => True) (Vaults.empty gtAccounts.markets) outputs after ∧
      ((∀ token, after.vault token =
          (∑ address ∈ after.addresses, (after.markets address).recorded token) +
            outputs.sum token) ∧
        ∀ address ∈ after.addresses, ∀ token,
          (after.markets address).recorded token ≤ after.vault token) ∧
      after.vault 3 = 2107 := by
  have hperformed : ((Gmsol.perform Vaults.step (fun _ _ => True)
      ([], Vaults.empty gtAccounts.markets) orderActions).map (·.2.vault 3)) = some 2107 := by
    decide +kernel
  obtain ⟨result, hresult, hvault⟩ := Option.map_eq_some_iff.mp hperformed
  have hrun := Run.perform .refl hresult
  exact ⟨_, _, hrun, run_backed hrun, hvault⟩

end Store

end Vaults

end Gmsol.Ops
