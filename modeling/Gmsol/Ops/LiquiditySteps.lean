import Gmsol.Accounting.Supply
import Gmsol.Ops.LiquidityMarket
import Gmsol.SwapPath.Acceptance

/-!
# What liquidity operations keep

Whatever an operation swaps, deposits and withdraws, it stays with the same markets.  A
deposit mints exactly the market tokens that it returns.
-/

namespace Gmsol.Ops

open Fallible Container Store SwapPath

namespace Execute

/-- The operation has the same markets, in whatever state they are. -/
structure SameMarkets (before after : Execute) : Prop where
  current : after.marketMeta = before.marketMeta
  swapMarkets : ∀ token, (after.swapMarkets.get token).map RevertibleMarket.marketMeta =
    (before.swapMarkets.get token).map RevertibleMarket.marketMeta

theorem SameMarkets.refl (op : Execute) : SameMarkets op op := ⟨rfl, fun _ => rfl⟩

theorem SameMarkets.trans {first second third : Execute} (hleft : SameMarkets first second)
    (hright : SameMarkets second third) : SameMarkets first third where
  current := hright.current.trans hleft.current
  swapMarkets token := (hright.swapMarkets token).trans (hleft.swapMarkets token)

theorem SameMarkets.key {before after : Execute} (hsame : SameMarkets before after) :
    after.market.base.key = before.market.base.key :=
  congrArg MarketMeta.marketTokenMint hsame.current

theorem update_marketMeta {market after : RevertibleMarket}
    {result : Model.Result (Model.Market market.marketMeta.isPure)}
    (hupdate : market.update result = .ok after) : after.marketMeta = market.marketMeta := by
  obtain ⟨state, _, rfl⟩ := RevertibleMarket.update_eq_ok hupdate
  rfl

theorem record_marketMeta {market sent received : RevertibleMarket} {token : Pubkey}
    {amount : ℕ} (hsent : market.recordTransferredOutByToken token amount = .ok sent)
    {other : RevertibleMarket}
    (hreceived : other.recordTransferredInByToken token amount = .ok received) :
    sent.marketMeta = market.marketMeta ∧ received.marketMeta = other.marketMeta := by
  simp only [RevertibleMarket.recordTransferredOutByToken,
    RevertibleMarket.recordTransferredInByToken, bind_eq_ok] at hsent hreceived
  obtain ⟨_, _, hsent⟩ := hsent
  obtain ⟨_, _, hreceived⟩ := hreceived
  exact ⟨update_marketMeta hsent, update_marketMeta hreceived⟩

/-- What an action of the market leaves alone, and what it mints and burns. -/
theorem perform_eq_ok {Report : Type} {market after : RevertibleLiquidityMarket}
    {action : Model.Market market.base.marketMeta.isPure →
      Model.Result (Model.Market market.base.marketMeta.isPure × Report)} {report : Report}
    (hperform : market.perform action = .ok (after, report)) :
    ∃ state, action market.priced = .ok (state, report) ∧
      after.base.marketMeta = market.base.marketMeta ∧
      after.toMint = market.toMint + (state.totalSupply - market.totalSupply) := by
  simp only [RevertibleLiquidityMarket.perform, bind_eq_ok, mapError_eq_ok, pure_eq_ok,
    Prod.mk.injEq] at hperform
  obtain ⟨done, hdone, rfl, rfl⟩ := hperform
  exact ⟨done.1, hdone, rfl, rfl⟩

variable [Model.MarketNum] {oracle : SwapPath.Oracle} {before : Execute}

theorem preExecute_same {after : Execute} {prices : Model.Prices}
    (hprepare : before.preExecute prices = .ok after) :
    SameMarkets before after ∧ after.market.toMint = before.market.toMint := by
  simp only [preExecute, RevertibleMarket.updateBorrowing, bind_eq_ok, pure_eq_ok] at hprepare
  obtain ⟨_, hdistributed, _, hborrowing, _, hfunding, rfl⟩ := hprepare
  refine ⟨⟨?_, fun _ => rfl⟩, rfl⟩
  exact (update_marketMeta hfunding).trans
    ((update_marketMeta hborrowing).trans (update_marketMeta hdistributed))

theorem revertibleSwap_same {direction : SwapDirection} {params : SwapActionParams}
    {markets : SwapMarkets} {expectedTokenOuts : Pubkey × Pubkey}
    {tokenIns : Option Pubkey × Option Pubkey} {tokenInAmounts : ℕ × ℕ} {swapped : Swapped}
    (hswap : revertibleSwap oracle markets direction params expectedTokenOuts tokenIns
      tokenInAmounts = .ok swapped) :
    swapped.direction.currentMarket.marketMeta = direction.currentMarket.marketMeta ∧
      ∀ token, (swapped.markets.get token).map RevertibleMarket.marketMeta =
        (markets.get token).map RevertibleMarket.marketMeta := by
  obtain ⟨long, short, hlong, hshort, -, rfl⟩ := revertibleSwap_sides hswap
  have hkept := (swapSide_kept hlong 0 0).trans (swapSide_kept hshort 0 0)
  exact ⟨hkept.current_eq, hkept.metas_eq⟩

theorem swapIn_same {params : DepositActionParams}
    {initialTokens : Option Pubkey × Option Pubkey} {swapped : Execute × ℕ × ℕ}
    (hswap : before.swapIn oracle params initialTokens = .ok swapped) :
    SameMarkets before swapped.1 ∧ swapped.1.market.toMint = before.market.toMint := by
  unfold swapIn at hswap
  split at hswap
  · simp only [bind_eq_ok, pure_eq_ok] at hswap
    obtain ⟨_, hswapped, rfl⟩ := hswap
    obtain ⟨hcurrent, hmarkets⟩ := revertibleSwap_same hswapped
    exact ⟨⟨hcurrent, hmarkets⟩, rfl⟩
  · simp only [bind_eq_ok, pure_eq_ok] at hswap
    obtain ⟨_, _, _, _, rfl⟩ := hswap
    exact ⟨.refl before, rfl⟩

/-- A deposit mints what it returns, in the same markets. -/
theorem uncheckedDeposit_mints {firstDepositReceiver receiver : Pubkey}
    {params : DepositActionParams} {initialTokens : Option Pubkey × Option Pubkey}
    {kind : SwapPricingKind} {after : Execute} {minted : ℕ}
    (hdeposit : before.uncheckedDeposit oracle firstDepositReceiver receiver params
      initialTokens kind = .ok (after, minted)) :
    SameMarkets before after ∧ after.market.toMint = before.market.toMint + minted := by
  simp only [uncheckedDeposit, bind_eq_ok, ensure_eq_ok, pure_eq_ok, Prod.mk.injEq]
    at hdeposit
  obtain ⟨_, _, prices, _, prepared, hprepared, swapped, hswapped, ⟨deposited, report⟩,
    hperformed, _, _, _, _, _, _, rfl, rfl⟩ := hdeposit
  obtain ⟨hprepare, hprepareMint⟩ := preExecute_same hprepared
  obtain ⟨hswap, hswapMint⟩ := swapIn_same hswapped
  obtain ⟨state, hexecute, hmeta, hmint⟩ := perform_eq_ok hperformed
  have hsupply := Model.Deposit.execute_supply hexecute
  have hstart : SameMarkets before (before.withSwapPricingKind kind) := ⟨rfl, fun _ => rfl⟩
  refine ⟨(hstart.trans (hprepare.trans hswap)).trans ⟨hmeta, fun _ => rfl⟩, ?_⟩
  calc deposited.toMint
      = swapped.1.market.toMint + (state.totalSupply - swapped.1.market.totalSupply) := hmint
    _ = swapped.1.market.toMint + report.minted := by
        rw [hsupply]
        exact congrArg _ (Nat.add_sub_cancel_left _ _)
    _ = before.market.toMint + report.minted := by
        rw [hswapMint, hprepareMint]
        rfl

theorem swapOut_same {finalTokens : Pubkey × Pubkey} {longAmount shortAmount : ℕ}
    {swapped : Execute × ℕ × ℕ}
    (hswap : before.swapOut oracle finalTokens longAmount shortAmount = .ok swapped) :
    SameMarkets before swapped.1 := by
  unfold swapOut at hswap
  split at hswap
  · simp only [bind_eq_ok, pure_eq_ok] at hswap
    obtain ⟨_, hswapped, rfl⟩ := hswap
    obtain ⟨hcurrent, hmarkets⟩ := revertibleSwap_same hswapped
    exact ⟨hcurrent, hmarkets⟩
  · simp only [bind_eq_ok, pure_eq_ok] at hswap
    obtain ⟨_, _, rfl⟩ := hswap
    exact .refl before

theorem uncheckedWithdraw_same {params : WithdrawalActionParams}
    {finalTokens : Pubkey × Pubkey} {kind : SwapPricingKind} {withdrawn : Execute × ℕ × ℕ}
    (hwithdraw : before.uncheckedWithdraw oracle params finalTokens kind = .ok withdrawn) :
    SameMarkets before withdrawn.1 := by
  simp only [uncheckedWithdraw, bind_eq_ok, ensure_eq_ok, pure_eq_ok] at hwithdraw
  obtain ⟨_, _, prepared, hprepared, ⟨done, _⟩, hperformed, _, _, _, _, _, _, _, hswapped,
    _, _, _, _, rfl⟩ := hwithdraw
  obtain ⟨_, _, hmeta, _⟩ := perform_eq_ok hperformed
  have hstart : SameMarkets before (before.withSwapPricingKind kind) := ⟨rfl, fun _ => rfl⟩
  have hdone : SameMarkets prepared { prepared with market := done } :=
    ⟨hmeta, fun _ => rfl⟩
  exact ((hstart.trans (preExecute_same hprepared).1).trans hdone).trans
    (swapOut_same hswapped)

omit [Model.MarketNum] in
theorem moveRecorded_same {token : Pubkey} {amount : ℕ} {source target : Execute}
    {moved : Execute × Execute} (hmove : moveRecorded token amount source target = .ok moved) :
    SameMarkets source moved.1 ∧ SameMarkets target moved.2 ∧
      moved.2.market.toMint = target.market.toMint := by
  simp only [moveRecorded, bind_eq_ok, pure_eq_ok] at hmove
  obtain ⟨_, hsent, _, hreceived, rfl⟩ := hmove
  obtain ⟨hsource, htarget⟩ := record_marketMeta hsent hreceived
  exact ⟨⟨hsource, fun _ => rfl⟩, ⟨htarget, fun _ => rfl⟩, rfl⟩

/-- A shift mints in the other market what it returns. -/
theorem uncheckedShift_mints {firstDepositReceiver receiver : Pubkey} {source target : Execute}
    {params : ShiftActionParams} {shifted : Execute × Execute × ℕ}
    (hshift : uncheckedShift oracle firstDepositReceiver source target receiver params =
      .ok shifted) :
    SameMarkets source shifted.1 ∧ SameMarkets target shifted.2.1 ∧
      shifted.2.1.market.toMint = target.market.toMint + shifted.2.2 := by
  simp only [uncheckedShift, bind_eq_ok, pure_eq_ok] at hshift
  obtain ⟨withdrawn, hwithdrawn, _, hlong, _, hshort, ⟨deposited, minted⟩, hdeposited,
    rfl⟩ := hshift
  obtain ⟨hlongSource, hlongTarget, hlongMint⟩ := moveRecorded_same hlong
  obtain ⟨hshortSource, hshortTarget, hshortMint⟩ := moveRecorded_same hshort
  obtain ⟨hdeposit, hmint⟩ := uncheckedDeposit_mints hdeposited
  refine ⟨(uncheckedWithdraw_same hwithdrawn).trans (hlongSource.trans hshortSource),
    (hlongTarget.trans hshortTarget).trans hdeposit, ?_⟩
  rw [hmint, hshortMint, hlongMint]

end Execute

end Gmsol.Ops
