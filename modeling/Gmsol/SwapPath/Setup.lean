import Gmsol.Accounting.Setup
import Gmsol.SwapPath.Holdings

/-!
# What a swap along a path leaves alone

The markets of a path stay the same markets in the same order, whatever is swapped in
them: only the state of each changes, and only where actions of a market change it.
-/

namespace Gmsol.SwapPath

open Fallible Container Store

namespace RevertibleMarket

/-- The same market in another state with the same setup. -/
def KeepsSetup (before after : RevertibleMarket) : Prop :=
  ∃ state, before.state.KeepsSetup state ∧ after = { before with state }

theorem KeepsSetup.refl (market : RevertibleMarket) : market.KeepsSetup market :=
  ⟨market.state, .refl _, rfl⟩

theorem KeepsSetup.trans {first second third : RevertibleMarket}
    (hleft : first.KeepsSetup second) (hright : second.KeepsSetup third) :
    first.KeepsSetup third := by
  obtain ⟨middle, hmiddle, rfl⟩ := hleft
  obtain ⟨last, hlast, rfl⟩ := hright
  exact ⟨last, hmiddle.trans hlast, rfl⟩

variable {market after : RevertibleMarket} {token : Pubkey} {amount : ℕ}

theorem update_keepsSetup {result : Model.Result (Model.Market market.marketMeta.isPure)}
    (hresult : ∀ state, result = .ok state → market.state.KeepsSetup state)
    (hupdate : market.update result = .ok after) : market.KeepsSetup after := by
  obtain ⟨state, hstate, rfl⟩ := update_eq_ok hupdate
  exact ⟨state, hresult state hstate, rfl⟩

theorem recordTransferredIn_keepsSetup
    (hrecord : market.recordTransferredInByToken token amount = .ok after) :
    market.KeepsSetup after := by
  obtain ⟨_, -, hupdate⟩ := bind_eq_ok.mp hrecord
  exact update_keepsSetup
    (fun _ => Model.Market.recordTransferredIn_keepsSetup) hupdate

theorem recordTransferredOut_keepsSetup
    (hrecord : market.recordTransferredOutByToken token amount = .ok after) :
    market.KeepsSetup after := by
  obtain ⟨_, -, hupdate⟩ := bind_eq_ok.mp hrecord
  exact update_keepsSetup
    (fun _ => Model.Market.recordTransferredOut_keepsSetup) hupdate

variable [Model.MarketNum]

theorem updateBorrowing_keepsSetup {prices : Model.Prices}
    (hupdate : market.updateBorrowing prices = .ok after) : market.KeepsSetup after := by
  apply update_keepsSetup _ hupdate
  intro state hstate
  obtain ⟨done, hdone, rfl⟩ := map_eq_ok.mp hstate
  exact (Model.UpdateBorrowingState.execute_keepsRecords hdone).toKeepsSetup

theorem swap_keepsSetup {side : Bool} {prices : Model.Prices}
    {swapped : RevertibleMarket × ℕ}
    (hswap : market.swap side amount prices = .ok swapped) :
    market.KeepsSetup swapped.1 := by
  simp only [swap, map_eq_ok, mapError_eq_ok] at hswap
  obtain ⟨done, hdone, rfl⟩ := hswap
  exact ⟨done.1, (Model.Swap.execute_keepsRecords hdone).toKeepsSetup, rfl⟩

end RevertibleMarket

/-- The same markets in the same order, each with the same setup. -/
structure SwapMarkets.KeepsSetup (before after : SwapMarkets) : Prop where
  keys_eq : after.keys = before.keys
  get : ∀ token new, IndexMap.get after token = some new →
    ∃ old : RevertibleMarket, before.get token = some old ∧ old.KeepsSetup new

namespace SwapMarkets.KeepsSetup

theorem refl (markets : SwapMarkets) : markets.KeepsSetup markets :=
  ⟨rfl, fun _ new hget => ⟨new, hget, .refl new⟩⟩

theorem trans {first second third : SwapMarkets} (hleft : first.KeepsSetup second)
    (hright : second.KeepsSetup third) : first.KeepsSetup third where
  keys_eq := hright.keys_eq.trans hleft.keys_eq
  get token new hget := by
    obtain ⟨middle, hmiddle, hnew⟩ := hright.get token new hget
    obtain ⟨old, hold, hkeeps⟩ := hleft.get token middle hmiddle
    exact ⟨old, hold, hkeeps.trans hnew⟩

theorem set {markets : SwapMarkets} {token : Pubkey} {old new : RevertibleMarket}
    (hget : markets.get token = some old) (hkeeps : old.KeepsSetup new) :
    markets.KeepsSetup (IndexMap.set markets token new) where
  keys_eq := IndexMap.keys_set markets token new
  get other found hfound := by
    rw [IndexMap.get_set (IndexMap.mem_keys_of_get hget)] at hfound
    split_ifs at hfound with hother
    · obtain rfl := Option.some.inj hfound
      exact ⟨old, hother ▸ hget, hkeeps⟩
    · exact ⟨found, hfound, .refl found⟩

end SwapMarkets.KeepsSetup

structure SwapDirection.KeepsSetup (before after : SwapDirection) : Prop where
  isInto_eq : after.isInto = before.isInto
  currentMarket : before.currentMarket.KeepsSetup after.currentMarket

namespace SwapDirection.KeepsSetup

theorem refl (direction : SwapDirection) : direction.KeepsSetup direction :=
  ⟨rfl, .refl _⟩

theorem trans {first second third : SwapDirection} (hleft : first.KeepsSetup second)
    (hright : second.KeepsSetup third) : first.KeepsSetup third :=
  ⟨hright.isInto_eq.trans hleft.isInto_eq,
    hleft.currentMarket.trans hright.currentMarket⟩

end SwapDirection.KeepsSetup

structure Route.KeepsSetup (before after : Route) : Prop where
  markets : before.markets.KeepsSetup after.markets
  direction : before.direction.KeepsSetup after.direction

namespace Route.KeepsSetup

theorem refl (route : Route) : route.KeepsSetup route := ⟨.refl _, .refl _⟩

theorem trans {first second third : Route} (hleft : first.KeepsSetup second)
    (hright : second.KeepsSetup third) : first.KeepsSetup third :=
  ⟨hleft.markets.trans hright.markets, hleft.direction.trans hright.direction⟩

theorem setCurrent {route : Route} {market : RevertibleMarket}
    (hkeeps : route.direction.currentMarket.KeepsSetup market) :
    route.KeepsSetup (route.setCurrent market) :=
  ⟨.refl _, rfl, hkeeps⟩

theorem setMarket {route : Route} {token : Pubkey} {old new : RevertibleMarket}
    (hget : route.markets.get token = some old) (hkeeps : old.KeepsSetup new) :
    route.KeepsSetup (route.setMarket token new) :=
  ⟨.set hget hkeeps, .refl _⟩

theorem continueWith {before after : Route} (hkeeps : before.KeepsSetup after)
    (tokenIn : Pubkey) (amount : ℕ) :
    before.KeepsSetup (after.continueWith tokenIn amount) :=
  ⟨hkeeps.markets, hkeeps.direction⟩

end Route.KeepsSetup

/-! ## Steps -/

section Steps

variable [Model.MarketNum] {oracle : Oracle} {route after : Route}

theorem swapWithCurrent_keepsSetup (hswap : swapWithCurrent oracle route = .ok after) :
    route.KeepsSetup after := by
  simp only [swapWithCurrent, bind_eq_ok, pure_eq_ok] at hswap
  obtain ⟨_, _, _, _, swapped, hswapped, _, _, _, _, rfl⟩ := hswap
  apply Route.KeepsSetup.continueWith
  exact .setCurrent (RevertibleMarket.swap_keepsSetup hswapped)

omit [Model.MarketNum] in
theorem receive_keepsSetup {market received : RevertibleMarket} {isFirst : Bool}
    (hreceive : receive market route isFirst = .ok received) :
    market.KeepsSetup received := by
  cases isFirst with
  | true =>
      obtain rfl := Except.ok.inj hreceive
      exact .refl market
  | false => exact RevertibleMarket.recordTransferredIn_keepsSetup hreceive

theorem forward_keepsSetup {market forwarded : RevertibleMarket} {tokenOut : Pubkey}
    {amount : ℕ} {isLast : Bool}
    (hforward : forward market tokenOut amount isLast = .ok forwarded) :
    market.KeepsSetup forwarded := by
  cases isLast with
  | true =>
      obtain rfl := Except.ok.inj hforward
      exact .refl market
  | false =>
      obtain ⟨sent, hsent, hrest⟩ := bind_eq_ok.mp hforward
      obtain ⟨_, -, hdone⟩ := bind_eq_ok.mp hrest
      obtain rfl := Except.ok.inj hdone
      exact RevertibleMarket.recordTransferredOut_keepsSetup hsent

theorem swapStep_keepsSetup {marketToken : Pubkey} {isFirst isLast : Bool}
    (hstep : swapStep oracle marketToken isFirst isLast route = .ok after) :
    route.KeepsSetup after := by
  simp only [swapStep, bind_eq_ok, okOr_eq_ok, pure_eq_ok] at hstep
  obtain ⟨market, hget, received, hreceive, _, _, _, _, updated, hupdate, swapped,
    hswapped, _, _, _, _, forwarded, hforward, rfl⟩ := hstep
  have hswap := ((receive_keepsSetup hreceive).trans
    (RevertibleMarket.updateBorrowing_keepsSetup hupdate)).trans
      (RevertibleMarket.swap_keepsSetup hswapped)
  apply Route.KeepsSetup.continueWith
  exact .setMarket hget (hswap.trans (forward_keepsSetup hforward))

theorem swapAlongThePath_keepsSetup {isFirst : Bool} {path : List Pubkey}
    (hswap : swapAlongThePath oracle isFirst path route = .ok after) :
    route.KeepsSetup after := by
  induction path generalizing isFirst route with
  | nil =>
      obtain rfl := Except.ok.inj hswap
      exact .refl route
  | cons marketToken rest ih =>
      obtain ⟨next, hstep, hrest⟩ := bind_eq_ok.mp hswap
      exact (swapStep_keepsSetup hstep).trans (ih hrest)

theorem transferFromCurrent_keepsSetup {validated : Bool} {target : Pubkey}
    (htransfer : transferFromCurrent validated target route = .ok after) :
    route.KeepsSetup after := by
  simp only [transferFromCurrent, bind_eq_ok, okOr_eq_ok, pure_eq_ok] at htransfer
  obtain ⟨market, hget, current, hcurrent, _, _, received, hreceived, rfl⟩ := htransfer
  have hfirst : route.KeepsSetup (route.setCurrent current) :=
    .setCurrent (RevertibleMarket.recordTransferredOut_keepsSetup hcurrent)
  have hsecond : (route.setCurrent current).KeepsSetup
      ((route.setCurrent current).setMarket target received) :=
    .setMarket hget (RevertibleMarket.recordTransferredIn_keepsSetup hreceived)
  exact hfirst.trans hsecond

theorem transferIntoCurrent_keepsSetup {source : Pubkey}
    (htransfer : transferIntoCurrent source route = .ok after) :
    route.KeepsSetup after := by
  simp only [transferIntoCurrent, bind_eq_ok, okOr_eq_ok, pure_eq_ok] at htransfer
  obtain ⟨market, hget, sent, hsent, _, _, current, hcurrent, rfl⟩ := htransfer
  have hfirst : route.KeepsSetup (route.setMarket source sent) :=
    .setMarket hget (RevertibleMarket.recordTransferredOut_keepsSetup hsent)
  have hsecond : (route.setMarket source sent).KeepsSetup
      ((route.setMarket source sent).setCurrent current) :=
    .setCurrent (RevertibleMarket.recordTransferredIn_keepsSetup hcurrent)
  exact hfirst.trans hsecond

theorem leaveCurrent_keepsSetup {path : List Pubkey}
    (hleave : leaveCurrent path route = .ok after) : route.KeepsSetup after := by
  cases path with
  | nil =>
      obtain rfl := Except.ok.inj hleave
      exact .refl route
  | cons next rest => exact transferFromCurrent_keepsSetup hleave

theorem enterPath_keepsSetup {path : List Pubkey} {entered : Route × List Pubkey}
    (henter : enterPath oracle path route = .ok entered) :
    route.KeepsSetup entered.1 := by
  unfold enterPath at henter
  split at henter
  · obtain rfl := Except.ok.inj henter
    exact .refl route
  · split_ifs at henter
    · simp only [bind_eq_ok, pure_eq_ok] at henter
      obtain ⟨swapped, hswap, left, hleave, rfl⟩ := henter
      exact (swapWithCurrent_keepsSetup hswap).trans (leaveCurrent_keepsSetup hleave)
    · obtain rfl := Except.ok.inj henter
      exact .refl route
    · simp only [bind_eq_ok, pure_eq_ok] at henter
      obtain ⟨transferred, htransfer, rfl⟩ := henter
      exact transferFromCurrent_keepsSetup htransfer

theorem returnToCurrent_keepsSetup {path : List Pubkey}
    (hreturn : returnToCurrent path route = .ok after) : route.KeepsSetup after := by
  unfold returnToCurrent at hreturn
  split at hreturn
  · obtain rfl := Except.ok.inj hreturn
    exact .refl route
  · exact transferIntoCurrent_keepsSetup hreturn

theorem finishPath_keepsSetup {path : List Pubkey}
    (hfinish : finishPath oracle path route = .ok after) : route.KeepsSetup after := by
  unfold finishPath at hfinish
  split at hfinish
  · obtain rfl := Except.ok.inj hfinish
    exact .refl route
  · split_ifs at hfinish
    · simp only [bind_eq_ok] at hfinish
      obtain ⟨swapped, hswap, returned, hreturn, hlast⟩ := hfinish
      exact ((swapAlongThePath_keepsSetup hswap).trans
        (returnToCurrent_keepsSetup hreturn)).trans (swapWithCurrent_keepsSetup hlast)
    · obtain ⟨swapped, hswap, htransfer⟩ := bind_eq_ok.mp hfinish
      exact (swapAlongThePath_keepsSetup hswap).trans
        (transferIntoCurrent_keepsSetup htransfer)
    · obtain ⟨swapped, hswap, hdone⟩ := bind_eq_ok.mp hfinish
      obtain rfl := Except.ok.inj hdone
      exact swapAlongThePath_keepsSetup hswap

/-! ## Whole swaps -/

theorem swapSide_keepsSetup {path : List Pubkey} {expectedTokenOut : Pubkey}
    {tokenIn : Option Pubkey} {amount : ℕ} {markets : SwapMarkets}
    {direction : SwapDirection} {outcome : SideOutcome}
    (hswap : swapSide oracle path expectedTokenOut tokenIn amount markets direction =
      .ok outcome) :
    markets.KeepsSetup outcome.markets ∧ direction.KeepsSetup outcome.direction := by
  unfold swapSide at hswap
  split at hswap
  · obtain rfl := Except.ok.inj hswap
    exact ⟨.refl _, .refl _⟩
  · obtain ⟨finished, hroute, rfl⟩ := map_eq_ok.mp hswap
    simp only [revertibleSwapForOneSide, bind_eq_ok, pure_eq_ok] at hroute
    obtain ⟨_, _, entered, henter, last, hfinish, _, _, rfl⟩ := hroute
    have hkeeps := (enterPath_keepsSetup henter).trans (finishPath_keepsSetup hfinish)
    exact ⟨hkeeps.markets, hkeeps.direction⟩

theorem revertibleSwap_keepsSetup {markets : SwapMarkets} {direction : SwapDirection}
    {params : SwapActionParams} {expectedTokenOuts : Pubkey × Pubkey}
    {tokenIns : Option Pubkey × Option Pubkey} {tokenInAmounts : ℕ × ℕ}
    {swapped : Swapped}
    (hswap : revertibleSwap oracle markets direction params expectedTokenOuts tokenIns
      tokenInAmounts = .ok swapped) :
    markets.KeepsSetup swapped.markets ∧ direction.KeepsSetup swapped.direction := by
  obtain ⟨long, short, hlong, hshort, -, rfl⟩ := revertibleSwap_sides hswap
  obtain ⟨hlongMarkets, hlongDirection⟩ := swapSide_keepsSetup hlong
  obtain ⟨hshortMarkets, hshortDirection⟩ := swapSide_keepsSetup hshort
  exact ⟨hlongMarkets.trans hshortMarkets, hlongDirection.trans hshortDirection⟩

end Steps

end Gmsol.SwapPath
