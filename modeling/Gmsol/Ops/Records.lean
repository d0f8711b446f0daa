import Gmsol.Ops.LiquiditySteps
import Gmsol.Ops.OrderTransaction

/-!
# What operations do to the recorded balances

An operation works on a current market and on markets to swap in.  Its actions leave the
recorded balances alone and its swaps move them from market to market, so that the balances
of all its markets together stay what they were.  Only a shift moves them on, from the
markets of one operation to those of another.
-/

namespace Gmsol.SwapPath

open Fallible Container Store

namespace RevertibleMarket

/-- The same market in another state with the same recorded balances. -/
def KeepsBalances (before after : RevertibleMarket) : Prop :=
  ∃ state, before.state.KeepsBalances state ∧ after = { before with state }

variable {market next after : RevertibleMarket}

theorem KeepsBalances.trans {first second third : RevertibleMarket}
    (hleft : first.KeepsBalances second) (hright : second.KeepsBalances third) :
    first.KeepsBalances third := by
  obtain ⟨middle, hmiddle, rfl⟩ := hleft
  obtain ⟨last, hlast, rfl⟩ := hright
  exact ⟨last, ⟨hlast.longTokenBalance_eq.trans hmiddle.longTokenBalance_eq,
    hlast.shortTokenBalance_eq.trans hmiddle.shortTokenBalance_eq⟩, rfl⟩

theorem KeepsBalances.marketMeta_eq (hkeeps : market.KeepsBalances after) :
    after.marketMeta = market.marketMeta := by
  obtain ⟨_, -, rfl⟩ := hkeeps
  rfl

theorem KeepsBalances.balanceOf_eq (hkeeps : market.KeepsBalances after) :
    after.balanceOf = market.balanceOf := by
  obtain ⟨state, hbalances, rfl⟩ := hkeeps
  exact balanceOf_congr rfl hbalances.longTokenBalance_eq hbalances.shortTokenBalance_eq

theorem update_keepsBalances
    {result : Model.Result (Model.Market market.marketMeta.isPure)}
    (hresult : ∀ state, result = .ok state → market.state.KeepsBalances state)
    (hupdate : market.update result = .ok after) : market.KeepsBalances after := by
  obtain ⟨state, hstate, rfl⟩ := update_eq_ok hupdate
  exact ⟨state, hresult state hstate, rfl⟩

end RevertibleMarket

/-- The loaders in their order, none of which is the current market. -/
theorem SwapMarkets.new_eq_ok {store : Pubkey} {loaders : List RevertibleMarket}
    {current : Option Pubkey} {markets : SwapMarkets}
    (hnew : SwapMarkets.new store loaders current = .ok markets) :
    markets.entries = loaders.map (fun loader => (loader.key, loader)) ∧
      ∀ loader ∈ loaders, current ≠ some loader.key := by
  have hfold (gathered : SwapMarkets)
      (hrun : loaders.foldlM (insertMarket store current) gathered = .ok markets) :
      markets.entries = gathered.entries ++ loaders.map (fun loader => (loader.key, loader)) ∧
        ∀ loader ∈ loaders, current ≠ some loader.key := by
    clear hnew
    induction loaders generalizing gathered with
    | nil =>
        obtain rfl := Except.ok.inj hrun
        exact ⟨(List.append_nil _).symm, fun _ hmem => absurd hmem List.not_mem_nil⟩
    | cons loader loaders ih =>
        rw [List.foldlM_cons] at hrun
        obtain ⟨inserted, hinsert, hrest⟩ := bind_eq_ok.mp hrun
        obtain ⟨_, hother, hinsert⟩ := bind_eq_ok.mp hinsert
        split at hinsert
        case isFalse => exact absurd hinsert (by simp)
        obtain ⟨_, -, hinsert⟩ := bind_eq_ok.mp hinsert
        obtain rfl := Except.ok.inj hinsert
        obtain ⟨hentries, hothers⟩ := ih _ hrest
        refine ⟨?_, ?_⟩
        · rw [hentries]
          simp [IndexMap.insertVacant]
        · rw [List.forall_mem_cons]
          exact ⟨ensure_eq_ok.mp hother, hothers⟩
  exact hfold _ hnew

end Gmsol.SwapPath

namespace Gmsol.Ops

open Fallible Container Store SwapPath

/-! ## The markets of an operation -/

structure OperationMarkets where
  current : RevertibleMarket
  swapMarkets : SwapMarkets

namespace OperationMarkets

/-- The recorded balances of all markets of the operation. -/
def recorded (markets : OperationMarkets) (token : Pubkey) : ℕ :=
  markets.current.balanceOf token +
    markets.swapMarkets.total (RevertibleMarket.balanceOf · token)

/-- The same markets in the same order, whose recorded balances have changed by some
amounts of each token together. -/
structure Moves (before after : OperationMarkets) (amount : Pubkey → ℤ) : Prop where
  current : after.current.marketMeta = before.current.marketMeta
  keys_eq : after.swapMarkets.keys = before.swapMarkets.keys
  swapMarkets : ∀ token, (after.swapMarkets.get token).map RevertibleMarket.marketMeta =
    (before.swapMarkets.get token).map RevertibleMarket.marketMeta
  recorded : ∀ token, (after.recorded token : ℤ) = before.recorded token + amount token

/-- Nothing has left the markets or come into them. -/
def Keeps (before after : OperationMarkets) : Prop := Moves before after 0

theorem Keeps.refl (markets : OperationMarkets) : markets.Keeps markets :=
  ⟨rfl, rfl, fun _ => rfl, fun _ => (add_zero _).symm⟩

theorem Moves.trans {first second third : OperationMarkets} {left right : Pubkey → ℤ}
    (hleft : first.Moves second left) (hright : second.Moves third right) :
    first.Moves third (left + right) where
  current := hright.current.trans hleft.current
  keys_eq := hright.keys_eq.trans hleft.keys_eq
  swapMarkets token := (hright.swapMarkets token).trans (hleft.swapMarkets token)
  recorded token := by
    rw [hright.recorded, hleft.recorded, Pi.add_apply, add_assoc]

theorem Keeps.trans {first second third : OperationMarkets} (hleft : first.Keeps second)
    (hright : second.Keeps third) : first.Keeps third := by
  have hboth := Moves.trans hleft hright
  rwa [add_zero] at hboth

/-- An action of the current market. -/
theorem keeps_current {before : OperationMarkets} {current : RevertibleMarket}
    (hkeeps : before.current.KeepsBalances current) :
    before.Keeps { before with current } where
  current := hkeeps.marketMeta_eq
  keys_eq := rfl
  swapMarkets _ := rfl
  recorded token := by
    simp only [OperationMarkets.recorded, hkeeps.balanceOf_eq, Pi.zero_apply, add_zero]

/-- A transfer to or from the current market. -/
theorem moves_current {before : OperationMarkets} {current : RevertibleMarket}
    {balance promised : Pubkey → ℤ} (hchanges : before.current.Changes current balance promised) :
    before.Moves { before with current } balance where
  current := hchanges.marketMeta_eq
  keys_eq := rfl
  swapMarkets _ := rfl
  recorded token := by
    have hbalance := hchanges.balance_eq token
    simp only [OperationMarkets.recorded]
    omega

theorem revertibleSwap_keeps [Model.MarketNum] {oracle : SwapPath.Oracle}
    {markets : SwapMarkets} {direction : SwapDirection} {params : SwapActionParams}
    {expectedTokenOuts : Pubkey × Pubkey} {tokenIns : Option Pubkey × Option Pubkey}
    {tokenInAmounts : ℕ × ℕ} {swapped : Swapped}
    (hswap : revertibleSwap oracle markets direction params expectedTokenOuts tokenIns
      tokenInAmounts = .ok swapped) :
    Keeps ⟨direction.currentMarket, markets⟩
      ⟨swapped.direction.currentMarket, swapped.markets⟩ := by
  obtain ⟨hmarkets, hdirection⟩ := revertibleSwap_keepsSetup hswap
  obtain ⟨hcurrent, hmetas⟩ := Execute.revertibleSwap_same hswap
  refine ⟨hcurrent, hmarkets.keys_eq, hmetas, fun token => ?_⟩
  rw [Pi.zero_apply, add_zero]
  exact congrArg _ (revertibleSwap_totalBalance hswap token)

end OperationMarkets

open OperationMarkets (Keeps Moves)

/-! ## Orders -/

section Orders

def Stage.markets {α : Type} (stage : Stage α) : OperationMarkets :=
  ⟨stage.market, stage.swapMarkets⟩

def Transacted.markets (transacted : Transacted) : OperationMarkets :=
  ⟨transacted.market, transacted.swapMarkets⟩

variable [Model.MarketNum] {oracle : SwapPath.Oracle} {prices : Model.Prices}
  {market : RevertibleMarket} {swapMarkets : SwapMarkets} {position : Model.Position}
  {order : OrderAccount} {transferOut : TransferOut}

theorem swapCollateral_keeps {tokenOut : Pubkey} {stage : Stage ℕ}
    (hswap : swapCollateral oracle market swapMarkets order tokenOut = .ok stage) :
    Keeps ⟨market, swapMarkets⟩ stage.markets := by
  simp only [swapCollateral, bind_eq_ok, pure_eq_ok] at hswap
  obtain ⟨_, -, swapped, hswapped, rfl⟩ := hswap
  exact OperationMarkets.revertibleSwap_keeps hswapped

theorem increasePosition_keepsBalances {params : Model.IncreasePositionParams}
    {increased : Increased}
    (hincrease : increasePosition market position params = .ok increased) :
    market.KeepsBalances increased.market := by
  simp only [increasePosition, map_eq_ok, mapError_eq_ok] at hincrease
  obtain ⟨done, hdone, rfl⟩ := hincrease
  exact ⟨done.1, (Model.IncreasePosition.execute_keepsRecords hdone).toKeepsBalances, rfl⟩

theorem decreasePosition_keepsBalances {params : Model.DecreasePositionParams}
    {decreased : Decreased}
    (hdecrease : decreasePosition market position params = .ok decreased) :
    market.KeepsBalances decreased.market := by
  simp only [decreasePosition, map_eq_ok, mapError_eq_ok] at hdecrease
  obtain ⟨done, hdone, rfl⟩ := hdecrease
  exact ⟨done.1, (Model.DecreasePosition.execute_keepsRecords hdone).toKeepsBalances, rfl⟩

theorem decrease_keepsBalances {order : Order} {isInsolventCloseAllowed : Bool}
    {secondaryOrderType : Option SecondaryOrderType} {decreased : Decreased}
    (hdecrease : decrease prices market position order isInsolventCloseAllowed
      secondaryOrderType = .ok decreased) : market.KeepsBalances decreased.market := by
  unfold decrease at hdecrease
  split at hdecrease
  · exact decreasePosition_keepsBalances hdecrease
  · obtain ⟨_, -, hdecreased⟩ := bind_eq_ok.mp hdecrease
    exact decreasePosition_keepsBalances hdecreased
  · simp only [bind_eq_ok, pure_eq_ok] at hdecrease
    obtain ⟨_, -, _, hdecreased, _, -, rfl⟩ := hdecrease
    exact decreasePosition_keepsBalances hdecreased

theorem executeIncreasePosition_keeps {collateralToken : Pubkey} {stage : Stage Changed}
    (hincrease : executeIncreasePosition oracle prices market position collateralToken
      swapMarkets transferOut order = .ok stage) :
    Keeps ⟨market, swapMarkets⟩ stage.markets := by
  simp only [executeIncreasePosition, bind_eq_ok, pure_eq_ok] at hincrease
  obtain ⟨swapped, hswapped, _, -, increased, hincreased, _, -, _, -, _, -, _, -, rfl⟩ :=
    hincrease
  have hincrease : swapped.markets.current.KeepsBalances increased.market :=
    increasePosition_keepsBalances hincreased
  exact (swapCollateral_keeps hswapped).trans (OperationMarkets.keeps_current hincrease)

theorem decreaseStage_keeps {isInsolventCloseAllowed : Bool}
    {secondaryOrderType : Option SecondaryOrderType} {stage : Stage Changed}
    (hdecrease : decreaseStage oracle prices market position swapMarkets transferOut order
      isInsolventCloseAllowed secondaryOrderType = .ok stage) :
    Keeps ⟨market, swapMarkets⟩ stage.markets := by
  simp only [decreaseStage, executeDecreasePosition, bind_eq_ok, pure_eq_ok] at hdecrease
  obtain ⟨_, ⟨decreased, hdecreased, swapped, hswapped, _, -, _, -, _, -, rfl⟩, rfl⟩ :=
    hdecrease
  simp only [swapOutputs, bind_eq_ok, pure_eq_ok] at hswapped
  obtain ⟨_, -, _, -, _, -, _, -, _, -, swap, hswap, _, -, rfl⟩ := hswapped
  have hdecrease : OperationMarkets.Keeps ⟨market, swapMarkets⟩
      ⟨decreased.market, swapMarkets⟩ :=
    OperationMarkets.keeps_current (decrease_keepsBalances hdecreased)
  exact hdecrease.trans (OperationMarkets.revertibleSwap_keeps hswap)

theorem changePosition_keeps {collateralToken : Pubkey} {stage : Stage Changed}
    (hchange : changePosition oracle prices market position collateralToken swapMarkets
      transferOut order = .ok stage) :
    Keeps ⟨market, swapMarkets⟩ stage.markets := by
  unfold changePosition at hchange
  split at hchange
  case h_1 | h_2 => exact executeIncreasePosition_keeps hchange
  case h_8 | h_9 => exact absurd hchange (by simp)
  all_goals exact decreaseStage_keeps hchange

theorem distributed_keepsBalances {next : RevertibleMarket}
    (hdistribute : RevertibleMarket.distributed market = .ok next) :
    market.KeepsBalances next := by
  apply RevertibleMarket.update_keepsBalances _ hdistribute
  intro state hstate
  obtain ⟨done, hdone, rfl⟩ := map_eq_ok.mp hstate
  exact (Model.DistributePositionImpact.execute_keepsRecords hdone).toKeepsBalances

theorem updateBorrowing_keepsBalances {next : RevertibleMarket}
    (hupdate : market.updateBorrowing prices = .ok next) : market.KeepsBalances next := by
  apply RevertibleMarket.update_keepsBalances _ hupdate
  intro state hstate
  obtain ⟨done, hdone, rfl⟩ := map_eq_ok.mp hstate
  exact (Model.UpdateBorrowingState.execute_keepsRecords hdone).toKeepsBalances

theorem funded_keepsBalances {next : RevertibleMarket}
    (hfund : RevertibleMarket.funded market prices = .ok next) :
    market.KeepsBalances next := by
  apply RevertibleMarket.update_keepsBalances _ hfund
  intro state hstate
  obtain ⟨done, hdone, rfl⟩ := map_eq_ok.mp hstate
  exact (Model.UpdateFundingState.execute_keepsRecords hdone).toKeepsBalances

omit [Model.MarketNum] in
theorem withOrderFeeDiscountFactor_keepsBalances (market : RevertibleMarket)
    (discount : ℕ) : market.KeepsBalances (withOrderFeeDiscountFactor market discount) :=
  ⟨(withOrderFeeDiscountFactor market discount).state, ⟨rfl, rfl⟩, rfl⟩

theorem preExecuted_keepsBalances {next : RevertibleMarket}
    (hprepare : preExecuted market prices = .ok next) : market.KeepsBalances next := by
  simp only [preExecuted, bind_eq_ok] at hprepare
  obtain ⟨distributed, hdistributed, borrowed, hborrowed, hfunded⟩ := hprepare
  exact ((distributed_keepsBalances hdistributed).trans
    (updateBorrowing_keepsBalances hborrowed)).trans (funded_keepsBalances hfunded)

variable {oracle : TimedOracle} {clock : Model.SysvarClock} {accounts : Accounts}
  {transacted : Transacted}

theorem swapTransaction_keeps
    (hswap : swapTransaction oracle accounts market swapMarkets = .ok transacted) :
    Keeps ⟨market, swapMarkets⟩ transacted.markets := by
  simp only [swapTransaction, bind_eq_ok, pure_eq_ok] at hswap
  obtain ⟨_, -, stage, hstage, _, -, _, -, rfl⟩ := hswap
  exact swapCollateral_keeps hstage

theorem positionTransaction_keeps {account : MarketAccount}
    (hposition : positionTransaction oracle clock accounts account prices market
      swapMarkets = .ok transacted) :
    Keeps ⟨market, swapMarkets⟩ transacted.markets := by
  simp only [positionTransaction, bind_eq_ok, pure_eq_ok] at hposition
  obtain ⟨_, -, _, -, _, -, _, -, _, -, stage, hstage, _, -, _, -, rfl⟩ := hposition
  exact changePosition_keeps hstage

/-- A whole order keeps what is recorded in its markets together. -/
theorem transaction_keeps {op : ExecuteOrderOperation} {discount : ℕ}
    (htransaction : op.transaction oracle clock accounts prices discount =
      .ok transacted) :
    ∃ addresses swapMarkets,
      op.unpackMarketsForSwap accounts.order.swap (accounts.markets op.market).key =
        .ok addresses ∧
      accounts.storedSwapMarkets clock (accounts.markets op.market).key addresses =
        .ok swapMarkets ∧
      Keeps ⟨(accounts.markets op.market).stored clock, swapMarkets⟩
        transacted.markets := by
  simp only [ExecuteOrderOperation.transaction, bind_eq_ok] at htransaction
  obtain ⟨_, -, _, -, _, -, opened, hopened, hrest⟩ := htransaction
  simp only [ExecuteOrderOperation.openedMarkets, bind_eq_ok, pure_eq_ok] at hopened
  obtain ⟨addresses, haddresses, swapMarkets, hswapMarkets, market, hmarket, rfl⟩ := hopened
  have hdiscount := withOrderFeeDiscountFactor_keepsBalances
    ((accounts.markets op.market).stored clock) discount
  have hcurrent := hdiscount.trans (preExecuted_keepsBalances hmarket)
  refine ⟨addresses, swapMarkets, haddresses, hswapMarkets, ?_⟩
  apply (OperationMarkets.keeps_current hcurrent).trans
  split_ifs at hrest
  · exact swapTransaction_keeps hrest
  · exact positionTransaction_keeps hrest

end Orders

/-! ## Liquidity -/

namespace Execute

def markets (op : Execute) : OperationMarkets := ⟨op.market.base, op.swapMarkets⟩

theorem perform_keepsBalances {Report : Type} {market after : RevertibleLiquidityMarket}
    {action : Model.Market market.base.marketMeta.isPure →
      Model.Result (Model.Market market.base.marketMeta.isPure × Report)} {report : Report}
    (hkeeps : ∀ state, action market.priced = .ok (state, report) →
      market.priced.KeepsBalances state)
    (hperform : market.perform action = .ok (after, report)) :
    market.base.KeepsBalances after.base := by
  simp only [RevertibleLiquidityMarket.perform, bind_eq_ok, mapError_eq_ok, pure_eq_ok,
    Prod.mk.injEq] at hperform
  obtain ⟨⟨state, _⟩, hdone, rfl, rfl⟩ := hperform
  have hbalances := hkeeps state hdone
  exact ⟨{ state with config := market.base.state.config },
    ⟨hbalances.longTokenBalance_eq, hbalances.shortTokenBalance_eq⟩, rfl⟩

variable [Model.MarketNum] {oracle : SwapPath.Oracle} {before : Execute}

theorem preExecute_keeps {after : Execute} {prices : Model.Prices}
    (hprepare : before.preExecute prices = .ok after) :
    before.markets.Keeps after.markets := by
  simp only [preExecute, bind_eq_ok, pure_eq_ok] at hprepare
  obtain ⟨_, hdistributed, _, hborrowing, _, hfunding, rfl⟩ := hprepare
  exact OperationMarkets.keeps_current
    (((distributed_keepsBalances hdistributed).trans
      (updateBorrowing_keepsBalances hborrowing)).trans (funded_keepsBalances hfunding))

theorem swapIn_keeps {params : DepositActionParams}
    {initialTokens : Option Pubkey × Option Pubkey} {swapped : Execute × ℕ × ℕ}
    (hswap : before.swapIn oracle params initialTokens = .ok swapped) :
    before.markets.Keeps swapped.1.markets := by
  unfold swapIn at hswap
  split at hswap
  · simp only [bind_eq_ok, pure_eq_ok] at hswap
    obtain ⟨_, hswapped, rfl⟩ := hswap
    exact OperationMarkets.revertibleSwap_keeps hswapped
  · simp only [bind_eq_ok, pure_eq_ok] at hswap
    obtain ⟨_, _, _, _, rfl⟩ := hswap
    exact .refl _

theorem swapOut_keeps {finalTokens : Pubkey × Pubkey} {longAmount shortAmount : ℕ}
    {swapped : Execute × ℕ × ℕ}
    (hswap : before.swapOut oracle finalTokens longAmount shortAmount = .ok swapped) :
    before.markets.Keeps swapped.1.markets := by
  unfold swapOut at hswap
  split at hswap
  · simp only [bind_eq_ok, pure_eq_ok] at hswap
    obtain ⟨_, hswapped, rfl⟩ := hswap
    exact OperationMarkets.revertibleSwap_keeps hswapped
  · simp only [bind_eq_ok, pure_eq_ok] at hswap
    obtain ⟨_, _, rfl⟩ := hswap
    exact .refl _

theorem uncheckedDeposit_keeps {firstDepositReceiver receiver : Pubkey}
    {params : DepositActionParams} {initialTokens : Option Pubkey × Option Pubkey}
    {kind : SwapPricingKind} {deposited : Execute × ℕ}
    (hdeposit : before.uncheckedDeposit oracle firstDepositReceiver receiver params
      initialTokens kind = .ok deposited) :
    before.markets.Keeps deposited.1.markets := by
  simp only [uncheckedDeposit, bind_eq_ok, ensure_eq_ok, pure_eq_ok] at hdeposit
  obtain ⟨_, _, prices, _, prepared, hprepared, swapped, hswapped, ⟨performed, report⟩,
    hperformed, _, _, _, _, _, _, rfl⟩ := hdeposit
  have hperform : swapped.1.markets.current.KeepsBalances performed.base := by
    apply perform_keepsBalances _ hperformed
    intro state hexecute
    exact (Model.Deposit.execute_eq_ok hexecute).1.keepsBalances
  exact ((preExecute_keeps hprepared).trans (swapIn_keeps hswapped)).trans
    (OperationMarkets.keeps_current hperform)

theorem uncheckedWithdraw_keeps {params : WithdrawalActionParams}
    {finalTokens : Pubkey × Pubkey} {kind : SwapPricingKind} {withdrawn : Execute × ℕ × ℕ}
    (hwithdraw : before.uncheckedWithdraw oracle params finalTokens kind = .ok withdrawn) :
    before.markets.Keeps withdrawn.1.markets := by
  simp only [uncheckedWithdraw, bind_eq_ok, ensure_eq_ok, pure_eq_ok] at hwithdraw
  obtain ⟨prices, _, prepared, hprepared, ⟨performed, report⟩, hperformed, _, _, _, _, _, _,
    swapped, hswapped, _, _, _, _, rfl⟩ := hwithdraw
  have hperform : prepared.markets.current.KeepsBalances performed.base := by
    apply perform_keepsBalances _ hperformed
    intro state hexecute
    exact (Model.Withdrawal.execute_eq_ok hexecute).1.keepsBalances
  have hprepare : before.markets.Keeps prepared.markets :=
    @preExecute_keeps _ (before.withSwapPricingKind kind) _ _ hprepared
  exact (hprepare.trans (OperationMarkets.keeps_current hperform)).trans
    (swapOut_keeps hswapped)

omit [Model.MarketNum] in
/-- What is moved out of the source is moved into the target. -/
theorem moveRecorded_moves {token : Pubkey} {amount : ℕ} {source target : Execute}
    {moved : Execute × Execute} (hmove : moveRecorded token amount source target = .ok moved) :
    source.markets.Moves moved.1.markets (amountIn token · (-amount)) ∧
      target.markets.Moves moved.2.markets (amountIn token · amount) := by
  simp only [moveRecorded, bind_eq_ok, pure_eq_ok] at hmove
  obtain ⟨_, hsent, _, hreceived, rfl⟩ := hmove
  exact ⟨OperationMarkets.moves_current
      (RevertibleMarket.recordTransferredOut_changes hsent),
    OperationMarkets.moves_current
      (RevertibleMarket.recordTransferredIn_changes hreceived)⟩

/-- A shift moves the withdrawn amounts from the markets of the source to those of the
target. -/
theorem uncheckedShift_moves {firstDepositReceiver receiver : Pubkey} {source target : Execute}
    {params : ShiftActionParams} {shifted : Execute × Execute × ℕ}
    (hshift : uncheckedShift oracle firstDepositReceiver source target receiver params =
      .ok shifted) :
    ∃ amount : Pubkey → ℤ, source.markets.Moves shifted.1.markets (-amount) ∧
      target.markets.Moves shifted.2.1.markets amount := by
  simp only [uncheckedShift, bind_eq_ok, pure_eq_ok] at hshift
  obtain ⟨withdrawn, hwithdrawn, _, hlong, _, hshort, deposited, hdeposited, rfl⟩ := hshift
  obtain ⟨hlongSource, hlongTarget⟩ := moveRecorded_moves hlong
  obtain ⟨hshortSource, hshortTarget⟩ := moveRecorded_moves hshort
  have hsource := Moves.trans (uncheckedWithdraw_keeps hwithdrawn)
    (hlongSource.trans hshortSource)
  have htarget := Moves.trans (hlongTarget.trans hshortTarget)
    (uncheckedDeposit_keeps hdeposited)
  refine ⟨_, ?_, htarget⟩
  convert hsource using 1
  funext token
  simp only [Pi.neg_apply, Pi.add_apply, Pi.zero_apply, amountIn_neg]
  ring

end Execute

end Gmsol.Ops
