import Gmsol.Ops.GlvDilution

/-!
# Runs of vault operations

Deposits, withdrawals and shifts follow one another, in whatever markets and at whatever
prices.  A recorded balance moves by what its token account receives or sends, so that the
vault never records more market tokens than it has.
-/

namespace Gmsol.Ops

open Fallible Container Store SwapPath Basket Dilution

/-- Each recorded balance moves by as much as the token account that it is about. -/
def MovesTogether (before after : GlvState) : Prop :=
  ∀ token, (after.glv.balance token : ℤ) - before.glv.balance token =
    after.vaults token - before.vaults token

theorem MovesTogether.refl (state : GlvState) : MovesTogether state state := by
  intro token
  rw [sub_self, sub_self]

theorem MovesTogether.trans {first second third : GlvState} (hleft : MovesTogether first second)
    (hright : MovesTogether second third) : MovesTogether first third := by
  intro token
  rw [← sub_add_sub_cancel _ (second.glv.balance token : ℤ), hright token, hleft token,
    sub_add_sub_cancel]

theorem MovesTogether.covered {before after : GlvState} (hmoves : MovesTogether before after)
    {token : Pubkey} (hcovered : before.glv.balance token ≤ before.vaults token) :
    after.glv.balance token ≤ after.vaults token := by
  have hmove := hmoves token
  omega

section Steps

variable [Model.MarketNum] {oracle : SwapPath.Oracle} {state : GlvState}

theorem performGlvDeposit_moves {deposit : GlvDeposit} {accounts : GlvAccounts}
    {marketTokenSource : ℕ} {done : GlvDeposited}
    (hdeposit : performGlvDeposit oracle state deposit accounts marketTokenSource =
      .ok done) : MovesTogether state done.state := by
  obtain ⟨_, _, _, _, _, _, _, _, hbalance, hvaults, _⟩ := performGlvDeposit_eq_ok hdeposit
  intro token
  rw [hbalance, hvaults, Function.update_apply, Function.update_apply]
  split_ifs with hsame
  · subst hsame
    push_cast
    ring
  · rw [sub_self, sub_self]

theorem performGlvWithdrawal_moves {withdrawal : GlvWithdrawal} {accounts : GlvAccounts}
    {done : GlvWithdrawn}
    (hwithdraw : performGlvWithdrawal oracle state withdrawal accounts = .ok done) :
    MovesTogether state done.state := by
  obtain ⟨_, _, _, _, _, henough, hrecorded, hbalance, hvaults, _⟩ :=
    performGlvWithdrawal_eq_ok hwithdraw
  intro token
  rw [hbalance, hvaults, Function.update_apply, Function.update_apply]
  split_ifs with hsame
  · subst hsame
    rw [Nat.cast_sub henough, Nat.cast_sub hrecorded]
    ring
  · rw [sub_self, sub_self]

/-- What a shift leaves behind. -/
theorem performGlvShift_eq_ok {receiver : Pubkey} {params : ShiftActionParams}
    {accounts : GlvShiftAccounts} {done : GlvShifted}
    (hshift : performGlvShift oracle state receiver params accounts = .ok done) :
    ∃ received, accounts.source.key ≠ accounts.target.key ∧
      params.fromMarketTokenAmount ≤ state.vaults accounts.source.key ∧
      params.fromMarketTokenAmount ≤ state.glv.balance accounts.source.key ∧
      done.state.glv.balance = Function.update
        (Function.update state.glv.balance accounts.source.key
          (state.glv.balance accounts.source.key - params.fromMarketTokenAmount))
        accounts.target.key (state.glv.balance accounts.target.key + received) ∧
      done.state.vaults = Function.update
        (Function.update state.vaults accounts.source.key
          (state.vaults accounts.source.key - params.fromMarketTokenAmount))
        accounts.target.key (state.vaults accounts.target.key + received) := by
  simp only [performGlvShift, validateBeforeShift, Execute.new, nextTargetBalance,
    bind_eq_ok, ensure_eq_ok, mapError_eq_ok, pure_eq_ok] at hshift
  obtain ⟨_, ⟨_, _, _, hother, _, _, _, _, _, _, henough⟩, source, ⟨_, _, _, _, rfl⟩, target,
    ⟨_, _, _, _, rfl⟩, shifted, hshifted, next, ⟨_, _, _, _, config, hconfig, _, _, _, _, rfl⟩,
    _, _, sourceConfig, hsourceConfig, _, hrecorded, glv, hglv, last, hlast, rfl⟩ := hshift
  obtain ⟨_, htarget, hmint⟩ := Execute.uncheckedShift_mints hshifted
  have hminted : shifted.2.1.market.toMint = shifted.2.2 := hmint.trans (Nat.zero_add _)
  have hkey : shifted.2.1.market.base.key = accounts.target.key := htarget.key
  obtain ⟨_, _, hbalance⟩ := Glv.updateMarketTokenBalance_eq_ok hglv
  obtain ⟨_, _, hlastBalance⟩ := Glv.updateMarketTokenBalance_eq_ok hlast
  rw [hkey] at hconfig
  rw [← marketConfig_balance hsourceConfig] at hrecorded hbalance
  refine ⟨shifted.2.2, hother, henough, hrecorded, ?_, ?_⟩
  · rw [marketConfig_balance hconfig]
    exact hlastBalance.trans (congrArg (Function.update · _ _) hbalance)
  · simp only [GlvState.receive, GlvState.send, hminted]
    rw [Function.update_of_ne hother.symm]

theorem performGlvShift_moves {receiver : Pubkey} {params : ShiftActionParams}
    {accounts : GlvShiftAccounts} {done : GlvShifted}
    (hshift : performGlvShift oracle state receiver params accounts = .ok done) :
    MovesTogether state done.state := by
  obtain ⟨received, hother, henough, hrecorded, hbalance, hvaults⟩ :=
    performGlvShift_eq_ok hshift
  intro token
  simp only [hbalance, hvaults, Function.update_apply]
  split_ifs with htarget hsource
  · subst htarget
    push_cast
    ring
  · subst hsource
    rw [Nat.cast_sub henough, Nat.cast_sub hrecorded]
    ring
  · rw [sub_self, sub_self]

/-- One operation of the vault, in any markets and at any prices. -/
inductive GlvStep : GlvState → GlvState → Prop
  | deposit {oracle : SwapPath.Oracle} {state : GlvState} {deposit : GlvDeposit}
      {accounts : GlvAccounts} {marketTokenSource : ℕ} {done : GlvDeposited}
      (hdeposit : performGlvDeposit oracle state deposit accounts marketTokenSource =
        .ok done) : GlvStep state done.state
  | withdraw {oracle : SwapPath.Oracle} {state : GlvState} {withdrawal : GlvWithdrawal}
      {accounts : GlvAccounts} {done : GlvWithdrawn}
      (hwithdraw : performGlvWithdrawal oracle state withdrawal accounts = .ok done) :
      GlvStep state done.state
  | shift {oracle : SwapPath.Oracle} {state : GlvState} {receiver : Pubkey}
      {params : ShiftActionParams} {accounts : GlvShiftAccounts} {done : GlvShifted}
      (hshift : performGlvShift oracle state receiver params accounts = .ok done) :
      GlvStep state done.state

theorem GlvStep.moves {before after : GlvState} (hstep : GlvStep before after) :
    MovesTogether before after := by
  cases hstep with
  | deposit hdeposit => exact performGlvDeposit_moves hdeposit
  | withdraw hwithdraw => exact performGlvWithdrawal_moves hwithdraw
  | shift hshift => exact performGlvShift_moves hshift

theorem run_moves {first last : GlvState} (hrun : Relation.ReflTransGen GlvStep first last) :
    MovesTogether first last := by
  induction hrun with
  | refl => exact .refl first
  | tail _ hstep ih => exact ih.trans hstep.moves

/-- Neither a deposit nor a withdrawal lowers the value of a token of the vault, and over
any run of operations the recorded balances move with the token accounts of the vault. -/
theorem glvHolders_notDiluted (hordered : OrderedOracle oracle) :
    (∀ state deposit accounts marketTokenSource done funds,
      accounts.SharesTokens state.glv → accounts.Aligned state.glv → 0 < state.supply →
      performGlvDeposit oracle state deposit accounts marketTokenSource = .ok done →
      Uncapped oracle done.executed accounts.glvMarkets →
      glvFunds oracle done.executed accounts.glvMarkets false = .ok funds →
      NotDiluted funds state done.state) ∧
    (∀ state withdrawal accounts done op funds,
      accounts.SharesTokens state.glv → accounts.Aligned state.glv →
      performGlvWithdrawal oracle state withdrawal accounts = .ok done →
      0 < done.state.supply → accounts.op withdrawal.swap = .ok op →
      Uncapped oracle op accounts.glvMarkets →
      glvFunds oracle op accounts.glvMarkets false = .ok funds →
      NotDiluted funds state done.state) ∧
    ∀ first last, Relation.ReflTransGen GlvStep first last →
      MovesTogether first last ∧
        ∀ token, first.glv.balance token ≤ first.vaults token →
          last.glv.balance token ≤ last.vaults token := by
  refine ⟨?_, ?_, ?_⟩
  · intro state deposit accounts marketTokenSource done funds hshares haligned hsupply hdeposit
      huncapped hfunds
    exact performGlvDeposit_notDiluted hordered hshares haligned hsupply hdeposit huncapped hfunds
  · intro state withdrawal accounts done op funds hshares haligned hwithdraw hsupply hop
      huncapped hfunds
    exact performGlvWithdrawal_notDiluted hordered hshares haligned hwithdraw hsupply hop
      huncapped hfunds
  · intro first last hrun
    have hmoves := run_moves hrun
    exact ⟨hmoves, fun token => hmoves.covered⟩

end Steps

section Store

attribute [local instance] Model.storeNumbers

/-! ## A vault of two markets -/

/-- A market without positions. -/
def vaultMarket (marketToken indexToken : Pubkey) (supply : ℕ) : RevertibleMarket where
  store := 0
  marketMeta := ⟨marketToken, indexToken, 1, 2⟩
  state := { Model.Market.init false
      { Model.MarketConfig.unrestricted with
        swapFeeParams := ⟨10 ^ 18, 10 ^ 18, 3 * 10 ^ 19, none⟩ } true ⟨0, 0⟩ with
    primary := ⟨1000, 2000⟩
    longTokenBalance := 2000
    shortTokenBalance := 2000
    totalSupply := supply }

def vaultOracle : SwapPath.Oracle :=
  ⟨fun token => some ⟨if token = 1 then ⟨29 * 10 ^ 12, 31 * 10 ^ 12⟩
    else ⟨9 * 10 ^ 12, 11 * 10 ^ 12⟩, false⟩⟩

def vaultState : GlvState where
  glv :=
    { glvToken := 50
      longToken := 1
      shortToken := 2
      shiftLastExecutedAt := 0
      minTokensForFirstDeposit := 0
      shiftMinIntervalSecs := 0
      shiftMaxPriceImpactFactor := 0
      shiftMinValue := 0
      markets := ⟨[(100, ⟨0, 0, 300⟩), (200, ⟨0, 0, 400⟩)], by decide⟩ }
  supply := 500
  vaults := fun token => if token = 100 then 305 else 400

def vaultAccounts : GlvAccounts where
  store := 0
  firstDepositReceiver := 7
  market := vaultMarket 100 9 700
  minTokensForFirstDeposit := 0
  glvMarkets := [vaultMarket 100 9 700, vaultMarket 200 8 900]
  remainingAccounts := []

def noSwap : SwapActionParams := ⟨0, 0, 0, 100, Vector.replicate _ 0, Vector.replicate _ 0⟩

/-- Market tokens and a long token are deposited together. -/
def vaultDeposit : GlvDeposit where
  receiver := 7
  glvToken := 50
  initialLongToken := some 1
  initialShortToken := none
  deposit := ⟨100, 0, 1⟩
  marketTokenAmount := 20
  minGlvTokenAmount := 1
  swap := noSwap

def vaultWithdrawal : GlvWithdrawal := ⟨1, 2, 60, 0, 0, noSwap⟩

theorem vaultOracle_ordered : OrderedOracle vaultOracle := by
  intro token found hfound
  obtain rfl := Option.some.inj hfound
  dsimp only
  split_ifs
  · norm_num
  · norm_num

/-- The markets of an operation without positions, valued at the low prices. -/
def Valued (op : Execute) : Prop :=
  (∀ stored ∈ vaultAccounts.glvMarkets,
    (op.marketFor stored).state.openInterest = ⟨.empty, .empty⟩ ∧
      (op.marketFor stored).state.openInterestInTokens = ⟨.empty, .empty⟩) ∧
    (glvFunds vaultOracle op vaultAccounts.glvMarkets false).isOk = true

instance (op : Execute) : Decidable (Valued op) := inferInstanceAs (Decidable (_ ∧ _))

/-- A deposit and a withdrawal from what it left. -/
theorem glvHolders_notDiluted_sample :
    ∃ deposited withdrawn funds others,
      performGlvDeposit vaultOracle vaultState vaultDeposit vaultAccounts 25 =
        .ok deposited ∧ NotDiluted funds vaultState deposited.state ∧
      performGlvWithdrawal vaultOracle deposited.state vaultWithdrawal vaultAccounts =
        .ok withdrawn ∧ NotDiluted others deposited.state withdrawn.state ∧
      MovesTogether vaultState withdrawn.state ∧
      withdrawn.state.glv.balance 100 ≤ withdrawn.state.vaults 100 := by
  obtain ⟨hdeposits, hwithdrawals, hruns⟩ := glvHolders_notDiluted vaultOracle_ordered
  obtain ⟨op, hop, hopValued⟩ := exists_ok_iff_any.mpr
    (show (vaultAccounts.op vaultWithdrawal.swap).toOption.any
      (fun op => decide (Valued op)) = true by decide +kernel)
  obtain ⟨deposited, hdeposit, hvalued, hshares, haligned, hrest⟩ := exists_ok_iff_any.mpr
    (show (performGlvDeposit vaultOracle vaultState vaultDeposit vaultAccounts
      25).toOption.any (fun done => decide (Valued done.executed ∧
        vaultAccounts.SharesTokens done.state.glv ∧ vaultAccounts.Aligned done.state.glv ∧
        (performGlvWithdrawal vaultOracle done.state vaultWithdrawal
          vaultAccounts).toOption.any (fun after => decide (0 < after.state.supply)) =
            true)) = true by decide +kernel)
  obtain ⟨withdrawn, hwithdraw, hsupply⟩ := exists_ok_iff_any.mpr hrest
  obtain ⟨funds, hfunds⟩ := exists_of_isOk hvalued.2
  obtain ⟨others, hothers⟩ := exists_of_isOk hopValued.2
  have hrun : Relation.ReflTransGen GlvStep vaultState withdrawn.state :=
    .tail (.single (.deposit hdeposit)) (.withdraw hwithdraw)
  obtain ⟨hmoves, hcovered⟩ := hruns vaultState withdrawn.state hrun
  refine ⟨deposited, withdrawn, funds, others, hdeposit, ?_, hwithdraw, ?_, hmoves,
    hcovered 100 (by decide)⟩
  · exact hdeposits vaultState vaultDeposit vaultAccounts 25 deposited funds (by decide +kernel)
      (by decide +kernel) (by decide) hdeposit (uncapped_of_empty hvalued.1) hfunds
  · exact hwithdrawals deposited.state vaultWithdrawal vaultAccounts withdrawn op others hshares
      haligned hwithdraw hsupply hop (uncapped_of_empty hopValued.1) hothers

end Store

end Gmsol.Ops
