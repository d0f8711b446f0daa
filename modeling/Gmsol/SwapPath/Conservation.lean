import Gmsol.SwapPath.Holdings

/-!
# Conservation along swap paths

An amount that is swapped is at every moment recorded in one market, where it is
a surplus over what the pools promise, or it is between two markets.  Each step
carries the amount from one place to the next and changes nothing else; so a
whole swap moves a surplus from the market where it starts to the market where
it ends, and the recorded balances of all markets together stay the same.
-/

namespace Gmsol.SwapPath

open Fallible Container Store

/-! ## Holdings of all markets -/

/-- The surplus of the market with a market token; zero where there is none. -/
def surplusAt (markets : SwapMarkets) (direction : SwapDirection)
    (marketToken token : Pubkey) : ℤ :=
  if marketToken = direction.current then direction.currentMarket.surplus token
  else (markets.get marketToken).elim 0 (RevertibleMarket.surplus · token)

/-- The recorded balances of all markets. -/
def totalBalance (markets : SwapMarkets) (direction : SwapDirection)
    (token : Pubkey) : ℕ :=
  direction.currentMarket.balanceOf token +
    markets.total (RevertibleMarket.balanceOf · token)

namespace Route

def surplusAt (route : Route) : Pubkey → Pubkey → ℤ :=
  SwapPath.surplusAt route.markets route.direction

def totalBalance (route : Route) : Pubkey → ℕ :=
  SwapPath.totalBalance route.markets route.direction

theorem surplusAt_current (route : Route) {marketToken token : Pubkey}
    (hcurrent : marketToken = route.direction.current) :
    route.surplusAt marketToken token =
      route.direction.currentMarket.surplus token :=
  if_pos hcurrent

theorem surplusAt_of_ne (route : Route) {marketToken token : Pubkey}
    (hother : marketToken ≠ route.direction.current) :
    route.surplusAt marketToken token =
      (route.markets.get marketToken).elim 0 (RevertibleMarket.surplus · token) :=
  if_neg hother

def metaAt (route : Route) (marketToken : Pubkey) : Option MarketMeta :=
  (route.markets.get marketToken).map RevertibleMarket.marketMeta

/-- The markets are the same ones, in whatever state they are. -/
structure Kept (before after : Route) : Prop where
  isInto_eq : after.direction.isInto = before.direction.isInto
  current_eq : after.direction.currentMarket.marketMeta =
    before.direction.currentMarket.marketMeta
  metas_eq : ∀ marketToken, after.metaAt marketToken = before.metaAt marketToken

theorem Kept.refl (route : Route) : Kept route route :=
  ⟨rfl, rfl, fun _ => rfl⟩

theorem Kept.trans {first second third : Route} (hleft : Kept first second)
    (hright : Kept second third) : Kept first third where
  isInto_eq := hright.isInto_eq.trans hleft.isInto_eq
  current_eq := hright.current_eq.trans hleft.current_eq
  metas_eq marketToken :=
    (hright.metas_eq marketToken).trans (hleft.metas_eq marketToken)

theorem Kept.current {before after : Route} (hkept : Kept before after) :
    after.direction.current = before.direction.current :=
  congrArg MarketMeta.marketTokenMint hkept.current_eq

theorem metaAt_eq_none {route : Route} {marketToken : Pubkey} :
    route.metaAt marketToken = none ↔ route.markets.get marketToken = none :=
  Option.map_eq_none_iff

/-- The current market is not one of the swap markets. -/
def CurrentApart (route : Route) : Prop :=
  route.metaAt route.direction.current = none

theorem Kept.currentApart {before after : Route} (hkept : Kept before after)
    (hapart : before.CurrentApart) : after.CurrentApart := by
  unfold CurrentApart
  rw [hkept.current, hkept.metas_eq]
  exact hapart

/-- One market is written. -/
structure Writes (before after : Route) (target : Pubkey)
    (old new : RevertibleMarket) : Prop extends Kept before after where
  surplus_eq : ∀ marketToken token,
    after.surplusAt marketToken token = before.surplusAt marketToken token +
      if marketToken = target then new.surplus token - old.surplus token else 0
  balance_eq : ∀ token, after.totalBalance token + old.balanceOf token =
    before.totalBalance token + new.balanceOf token

theorem setCurrent_writes (route : Route) (tokenIn : Pubkey) (amount : ℕ)
    {market : RevertibleMarket}
    (hmeta : market.marketMeta = route.direction.currentMarket.marketMeta) :
    Writes route ((route.setCurrent market).continueWith tokenIn amount)
      route.direction.current route.direction.currentMarket market where
  isInto_eq := rfl
  current_eq := hmeta
  metas_eq _ := rfl
  surplus_eq marketToken token := by
    have hkey : ((route.setCurrent market).continueWith tokenIn
        amount).direction.current = route.direction.current :=
      congrArg MarketMeta.marketTokenMint hmeta
    by_cases hsame : marketToken = route.direction.current
    · rw [surplusAt_current _ (hsame.trans hkey.symm),
        surplusAt_current route hsame, if_pos hsame]
      change market.surplus token = _
      omega
    · rw [surplusAt_of_ne _ fun heq => hsame (heq.trans hkey),
        surplusAt_of_ne route hsame, if_neg hsame, add_zero]
      rfl
  balance_eq token := by
    simp only [totalBalance, SwapPath.totalBalance, setCurrent, continueWith]
    omega

theorem setMarket_writes {route : Route} (hapart : route.CurrentApart)
    (tokenIn : Pubkey) (amount : ℕ) {target : Pubkey}
    {old market : RevertibleMarket} (hget : route.markets.get target = some old)
    (hmeta : market.marketMeta = old.marketMeta) :
    Writes route ((route.setMarket target market).continueWith tokenIn amount)
      target old market := by
  have hpresent := IndexMap.mem_keys_of_get hget
  have hcurrent : target ≠ route.direction.current := by
    rintro rfl
    rw [metaAt_eq_none.mp hapart] at hget
    exact absurd hget (by simp)
  refine ⟨⟨rfl, rfl, fun marketToken => ?_⟩, fun marketToken token => ?_,
    fun token => ?_⟩
  · simp only [metaAt, setMarket, continueWith, IndexMap.get_set hpresent]
    split_ifs with hsame
    · rw [hsame, hget]
      exact congrArg some hmeta
    · rfl
  · by_cases hat : marketToken = route.direction.current
    · rw [surplusAt_current route hat,
        if_neg fun heq => hcurrent (heq.symm.trans hat), add_zero]
      exact if_pos hat
    · rw [surplusAt_of_ne route hat]
      refine (if_neg hat).trans ?_
      simp only [setMarket, continueWith, IndexMap.get_set hpresent]
      split_ifs with hsame
      · rw [hsame, hget]
        simp only [Option.elim]
        omega
      · rw [add_zero]
  · have htotal := route.markets.total_set (RevertibleMarket.balanceOf · token)
      hget market
    simp only [totalBalance, SwapPath.totalBalance, setMarket, continueWith]
    omega

/-! ## The amount that is swapped -/

/-- The surplus that the amount is in the market of its place. -/
def held (route : Route) (place : Option Pubkey) (marketToken token : Pubkey) : ℤ :=
  if place = some marketToken then
    amountIn route.tokenIn token route.tokenInAmount
  else 0

/-- The amount while it is between two markets. -/
def floating (route : Route) (place : Option Pubkey) (token : Pubkey) : ℤ :=
  if place = none then amountIn route.tokenIn token route.tokenInAmount else 0

/-- The amount is carried from one place to another, and nothing else moves. -/
structure Carries (place : Option Pubkey) (before after : Route)
    (next : Option Pubkey) : Prop extends Kept before after where
  surplus_eq : ∀ marketToken token,
    after.surplusAt marketToken token - after.held next marketToken token =
      before.surplusAt marketToken token - before.held place marketToken token
  balance_eq : ∀ token, after.totalBalance token + after.floating next token =
    before.totalBalance token + before.floating place token

theorem Carries.refl (place : Option Pubkey) (route : Route) :
    Carries place route route place :=
  ⟨.refl route, fun _ _ => rfl, fun _ => rfl⟩

theorem Carries.trans {start middle finish : Option Pubkey}
    {first second third : Route} (hleft : Carries start first second middle)
    (hright : Carries middle second third finish) :
    Carries start first third finish where
  toKept := hleft.toKept.trans hright.toKept
  surplus_eq marketToken token :=
    (hright.surplus_eq marketToken token).trans (hleft.surplus_eq marketToken token)
  balance_eq token := (hright.balance_eq token).trans (hleft.balance_eq token)

/-- The market itself, or the way between two markets. -/
def placeAt (isThere : Bool) (marketToken : Pubkey) : Option Pubkey :=
  if isThere then some marketToken else none

/-- An amount that comes into a market only if it was not there, and is paid out
only if it does not stay. -/
theorem Writes.carries {before after : Route} {target : Pubkey}
    {old new : RevertibleMarket} {balance promised : Pubkey → ℤ}
    (hwrites : Writes before after target old new) (isThere stays : Bool)
    (hchanges : old.Changes new balance promised)
    (hbalance : ∀ token, balance token =
      (if isThere then 0
        else amountIn before.tokenIn token before.tokenInAmount) -
      if stays then 0 else amountIn after.tokenIn token after.tokenInAmount)
    (hpromised : ∀ token, promised token =
      amountIn before.tokenIn token before.tokenInAmount -
        amountIn after.tokenIn token after.tokenInAmount) :
    Carries (placeAt isThere target) before after (placeAt stays target) where
  toKept := hwrites.toKept
  surplus_eq marketToken token := by
    rw [hwrites.surplus_eq, hchanges.surplus_eq, hbalance, hpromised]
    unfold held placeAt
    by_cases hsame : marketToken = target
    · subst hsame
      cases isThere <;> cases stays <;> simp <;> omega
    · have hother : target ≠ marketToken := Ne.symm hsame
      cases isThere <;> cases stays <;> simp [hsame, hother]
  balance_eq token := by
    have hwritten := hwrites.balance_eq token
    have hchanged := hchanges.balance_eq token
    rw [hbalance] at hchanged
    unfold floating placeAt
    cases isThere <;> cases stays <;> simp at hchanged ⊢ <;> omega

end Route

/-! ## Steps -/

section Steps

variable [Model.MarketNum] {oracle : Oracle} {route after : Route}

theorem swapWithCurrent_carries (hswap : swapWithCurrent oracle route = .ok after) :
    Route.Carries (some route.direction.current) route after
      (some route.direction.current) := by
  simp only [swapWithCurrent, bind_eq_ok, ensure_eq_ok, pure_eq_ok] at hswap
  obtain ⟨side, hside, prices, _, swapped, hswapped, _, _, tokenOut, hopposite,
    rfl⟩ := hswap
  have hchanges := RevertibleMarket.swap_changes hside hswapped hopposite
  have hwrites := route.setCurrent_writes tokenOut swapped.2 hchanges.marketMeta_eq
  apply hwrites.carries true true hchanges
  · intro token
    simp
  · intro token
    rw [sub_eq_add_neg, ← amountIn_neg]
    rfl

omit [Model.MarketNum] in
theorem receive_changes {market received : RevertibleMarket} {isFirst : Bool}
    (hreceive : receive market route isFirst = .ok received) :
    market.Changes received
      (fun token => if isFirst then 0
        else amountIn route.tokenIn token route.tokenInAmount) fun _ => 0 := by
  unfold receive at hreceive
  cases isFirst with
  | true =>
      obtain rfl : market = received := Except.ok.inj hreceive
      exact .refl market
  | false => exact RevertibleMarket.recordTransferredIn_changes hreceive

theorem forward_changes {market forwarded : RevertibleMarket} {tokenOut : Pubkey}
    {amount : ℕ} {isLast : Bool}
    (hforward : forward market tokenOut amount isLast = .ok forwarded) :
    market.Changes forwarded
      (fun token => if isLast then 0 else amountIn tokenOut token (-amount))
      fun _ => 0 := by
  unfold forward at hforward
  cases isLast with
  | true =>
      obtain rfl : market = forwarded := Except.ok.inj hforward
      exact .refl market
  | false =>
      simp only [Bool.false_eq_true, if_false, bind_eq_ok, pure_eq_ok] at hforward
      obtain ⟨sent, hsent, _, _, rfl⟩ := hforward
      exact RevertibleMarket.recordTransferredOut_changes hsent

theorem swapStep_carries {marketToken : Pubkey} {isFirst isLast : Bool}
    (hapart : route.CurrentApart)
    (hstep : swapStep oracle marketToken isFirst isLast route = .ok after) :
    Route.Carries (Route.placeAt isFirst marketToken) route after
      (Route.placeAt isLast marketToken) := by
  simp only [swapStep, bind_eq_ok, okOr_eq_ok, ensure_eq_ok, pure_eq_ok] at hstep
  obtain ⟨market, hget, received, hreceive, side, hside, prices, _, updated,
    hupdate, swapped, hswapped, tokenOut, hopposite, _, _, forwarded, hforward,
    rfl⟩ := hstep
  have hreceived := receive_changes hreceive
  have hupdated := RevertibleMarket.updateBorrowing_changes hupdate
  have hswap := RevertibleMarket.swap_changes
    (hupdated.marketMeta_eq ▸ hside) hswapped hopposite
  have hforwarded := forward_changes hforward
  have hchanges := ((hreceived.trans hupdated).trans hswap).trans hforwarded
  have hwrites := Route.setMarket_writes hapart tokenOut swapped.2 hget
    hchanges.marketMeta_eq
  apply hwrites.carries isFirst isLast hchanges
  · intro token
    simp only [amountIn_neg, add_zero]
    cases isLast
    · exact (sub_eq_add_neg _ _).symm
    · exact (add_zero _).trans (sub_zero _).symm
  · intro token
    simp only [amountIn_neg, add_zero, zero_add]
    rw [sub_eq_add_neg]
    rfl

/-- A path is entered at its first market and left at its last one. -/
theorem swapAlongThePath_carries {first : Pubkey} {rest : List Pubkey}
    {isFirst : Bool} (hapart : route.CurrentApart)
    (hswap : swapAlongThePath oracle isFirst (first :: rest) route = .ok after) :
    Route.Carries (Route.placeAt isFirst first) route after
      (some (rest.getLastD first)) := by
  induction rest generalizing first isFirst route with
  | nil =>
      simp only [swapAlongThePath, bind_eq_ok] at hswap
      obtain ⟨next, hstep, hdone⟩ := hswap
      obtain rfl : next = after := Except.ok.inj hdone
      exact swapStep_carries hapart hstep
  | cons second rest ih =>
      rw [swapAlongThePath, bind_eq_ok] at hswap
      obtain ⟨next, hstep, hrest⟩ := hswap
      have hfirst := swapStep_carries hapart hstep
      have hsecond := ih (hfirst.toKept.currentApart hapart) hrest
      rw [List.getLastD_cons]
      exact hfirst.trans hsecond

theorem transferFromCurrent_carries {validated : Bool} {target : Pubkey}
    (hapart : route.CurrentApart)
    (htransfer : transferFromCurrent validated target route = .ok after) :
    Route.Carries (some route.direction.current) route after (some target) := by
  simp only [transferFromCurrent, bind_eq_ok, okOr_eq_ok, pure_eq_ok] at htransfer
  obtain ⟨market, hget, current, hcurrent, _, _, received, hreceived, rfl⟩ :=
    htransfer
  have hout := RevertibleMarket.recordTransferredOut_changes hcurrent
  have hin := RevertibleMarket.recordTransferredIn_changes hreceived
  have hleave : Route.Carries (some route.direction.current) route
      (route.setCurrent current) none := by
    have hwrites := route.setCurrent_writes route.tokenIn route.tokenInAmount
      hout.marketMeta_eq
    apply hwrites.carries true false hout
    · intro token
      rw [amountIn_neg]
      simp [Route.setCurrent, Route.continueWith]
    · intro token
      exact (sub_self _).symm
  refine hleave.trans ?_
  have hwrites := Route.setMarket_writes
    (hleave.toKept.currentApart hapart) route.tokenIn route.tokenInAmount hget
    hin.marketMeta_eq
  apply hwrites.carries false true hin
  · intro token
    exact (sub_zero _).symm
  · intro token
    exact (sub_self _).symm

theorem transferIntoCurrent_carries {source : Pubkey}
    (hapart : route.CurrentApart)
    (htransfer : transferIntoCurrent source route = .ok after) :
    Route.Carries (some source) route after (some route.direction.current) := by
  simp only [transferIntoCurrent, bind_eq_ok, okOr_eq_ok, pure_eq_ok] at htransfer
  obtain ⟨market, hget, sent, hsent, _, _, current, hcurrent, rfl⟩ := htransfer
  have hout := RevertibleMarket.recordTransferredOut_changes hsent
  have hin := RevertibleMarket.recordTransferredIn_changes hcurrent
  have hleave : Route.Carries (some source) route
      (route.setMarket source sent) none := by
    have hwrites := Route.setMarket_writes hapart route.tokenIn
      route.tokenInAmount hget hout.marketMeta_eq
    apply hwrites.carries true false hout
    · intro token
      rw [amountIn_neg]
      simp [Route.setMarket, Route.continueWith]
    · intro token
      exact (sub_self _).symm
  refine hleave.trans ?_
  have hwrites := (route.setMarket source sent).setCurrent_writes route.tokenIn
    route.tokenInAmount hin.marketMeta_eq
  apply hwrites.carries false true hin
  · intro token
    exact (sub_zero _).symm
  · intro token
    exact (sub_self _).symm

/-! ## Whole paths -/

/-- The market in which a swap starts. -/
def startMarketToken (direction : SwapDirection) (path : List Pubkey) : Pubkey :=
  if direction.isInto then path.head?.getD direction.current
  else direction.current

omit [Model.MarketNum] in
theorem startMarketToken_congr {left right : SwapDirection}
    (hinto : left.isInto = right.isInto) (hcurrent : left.current = right.current)
    (path : List Pubkey) :
    startMarketToken left path = startMarketToken right path := by
  unfold startMarketToken
  rw [hinto, hcurrent]

omit [Model.MarketNum] in
theorem outputMarketToken_congr {left right : SwapDirection}
    (hinto : left.isInto = right.isInto) (hcurrent : left.current = right.current)
    (path : List Pubkey) :
    outputMarketToken left path = outputMarketToken right path := by
  unfold outputMarketToken
  rw [hinto, hcurrent]

theorem leaveCurrent_carries {path : List Pubkey} (hapart : route.CurrentApart)
    (hleave : leaveCurrent path route = .ok after) :
    Route.Carries (some route.direction.current) route after
      (some (path.head?.getD route.direction.current)) := by
  cases path with
  | nil =>
      obtain rfl : route = after := Except.ok.inj hleave
      exact .refl _ route
  | cons next rest => exact transferFromCurrent_carries hapart hleave

theorem enterPath_carries {path : List Pubkey} {entered : Route × List Pubkey}
    (hapart : route.CurrentApart)
    (henter : enterPath oracle path route = .ok entered) :
    Route.Carries (some (startMarketToken route.direction path)) route entered.1
        (some (entered.2.head?.getD route.direction.current)) ∧
      outputMarketToken route.direction entered.2 =
        outputMarketToken route.direction path := by
  unfold startMarketToken
  cases path with
  | nil =>
      obtain rfl : (route, []) = entered := Except.ok.inj henter
      refine ⟨?_, rfl⟩
      split_ifs
      · exact .refl _ route
      · exact .refl _ route
  | cons first rest =>
      unfold enterPath at henter
      dsimp only at henter
      split_ifs at henter with hfirst hinto
      · simp only [bind_eq_ok, pure_eq_ok] at henter
        obtain ⟨swapped, hswap, left, hleave, rfl⟩ := henter
        have hswapped := swapWithCurrent_carries hswap
        have hleft := leaveCurrent_carries
          (hswapped.toKept.currentApart hapart) hleave
        rw [hswapped.toKept.current] at hleft
        refine ⟨?_, ?_⟩
        · simp only [List.head?_cons, Option.getD_some, hfirst, ite_self]
          exact hswapped.trans hleft
        · unfold outputMarketToken
          rw [List.getLast?_cons, hfirst]
          rfl
      · obtain rfl : (route, first :: rest) = entered := Except.ok.inj henter
        rw [if_pos hinto]
        exact ⟨.refl _ route, rfl⟩
      · simp only [bind_eq_ok, pure_eq_ok] at henter
        obtain ⟨transferred, htransfer, rfl⟩ := henter
        rw [if_neg hinto]
        exact ⟨transferFromCurrent_carries hapart htransfer, rfl⟩

theorem swapAlong_carries {path : List Pubkey} (hapart : route.CurrentApart)
    (hswap : swapAlongThePath oracle true path route = .ok after) :
    Route.Carries (some (path.head?.getD route.direction.current)) route after
      (some (path.getLast?.getD route.direction.current)) := by
  cases path with
  | nil =>
      obtain rfl : route = after := Except.ok.inj hswap
      exact .refl _ route
  | cons first rest =>
      have hcarries := swapAlongThePath_carries hapart hswap
      rw [List.getLast?_cons, Option.getD_some, ← List.getLastD_eq_getLast?]
      exact hcarries

theorem returnToCurrent_carries {path : List Pubkey} (hapart : route.CurrentApart)
    (hreturn : returnToCurrent path route = .ok after) :
    Route.Carries (some (path.getLast?.getD route.direction.current)) route after
      (some route.direction.current) := by
  unfold returnToCurrent at hreturn
  cases hlast : path.getLast? with
  | none =>
      rw [hlast] at hreturn
      obtain rfl : route = after := Except.ok.inj hreturn
      exact .refl _ route
  | some last =>
      rw [hlast] at hreturn
      exact transferIntoCurrent_carries hapart hreturn

theorem finishPath_carries {path : List Pubkey} (hapart : route.CurrentApart)
    (hfinish : finishPath oracle path route = .ok after) :
    Route.Carries (some (path.head?.getD route.direction.current)) route after
      (some (outputMarketToken route.direction path)) := by
  unfold finishPath at hfinish
  unfold outputMarketToken
  cases hlast : path.getLast? with
  | none =>
      rw [hlast] at hfinish
      obtain rfl : route = after := Except.ok.inj hfinish
      obtain rfl := List.getLast?_eq_none_iff.mp hlast
      simp only [List.head?_nil, Option.getD_none, ite_self]
      exact .refl _ route
  | some last =>
      rw [hlast] at hfinish
      dsimp only at hfinish
      split_ifs at hfinish with hcurrent hinto
      · simp only [bind_eq_ok] at hfinish
        obtain ⟨swapped, hswap, returned, hreturn, hend⟩ := hfinish
        have hswapped := swapAlong_carries hapart hswap
        have hkept := hswapped.toKept
        have hreturned := returnToCurrent_carries (hkept.currentApart hapart) hreturn
        have hended := swapWithCurrent_carries hend
        rw [hreturned.toKept.current, hkept.current] at hended
        rw [hkept.current] at hreturned
        have hhead : path.head?.getD route.direction.current =
            path.dropLast.head?.getD route.direction.current := by
          obtain ⟨front, rfl⟩ := List.getLast?_eq_some_iff.mp hlast
          rw [List.dropLast_concat]
          cases front with
          | nil => exact hcurrent
          | cons first front => rfl
        rw [hhead, Option.getD_some, hcurrent, ite_self]
        exact (hswapped.trans hreturned).trans hended
      · simp only [bind_eq_ok] at hfinish
        obtain ⟨swapped, hswap, hend⟩ := hfinish
        have hswapped := swapAlong_carries hapart hswap
        have hkept := hswapped.toKept
        have hended := transferIntoCurrent_carries (hkept.currentApart hapart) hend
        rw [hkept.current] at hended
        rw [hlast, Option.getD_some] at hswapped
        rw [if_pos hinto]
        exact hswapped.trans hended
      · simp only [bind_eq_ok, Except.ok.injEq] at hfinish
        obtain ⟨swapped, hswap, rfl⟩ := hfinish
        have hswapped := swapAlong_carries hapart hswap
        rw [hlast] at hswapped
        rw [if_neg hinto]
        exact hswapped

theorem revertibleSwapForOneSide_carries {path : List Pubkey}
    {expectedTokenOut : Pubkey}
    (hswap : revertibleSwapForOneSide oracle path expectedTokenOut route = .ok after) :
    Route.Carries (some (startMarketToken route.direction path)) route after
        (some (outputMarketToken route.direction path)) ∧
      after.tokenIn = expectedTokenOut := by
  simp only [revertibleSwapForOneSide, bind_eq_ok, ensure_eq_ok, pure_eq_ok] at hswap
  obtain ⟨_, hnone, entered, henter, finished, hfinish, _, htoken, rfl⟩ := hswap
  have hapart : route.CurrentApart :=
    Route.metaAt_eq_none.mpr (Option.isNone_iff_eq_none.mp hnone)
  obtain ⟨hentered, houtput⟩ := enterPath_carries hapart henter
  have hkept := hentered.toKept
  have hfinished := finishPath_carries (hkept.currentApart hapart) hfinish
  rw [hkept.current] at hfinished
  rw [outputMarketToken_congr hkept.isInto_eq hkept.current, houtput] at hfinished
  exact ⟨hentered.trans hfinished, htoken⟩

end Steps

/-! ## Both sides -/

/-- What a side takes in. -/
def sideInput (tokenIn : Option Pubkey) (amount : ℕ) : Option Output :=
  (tokenIn.filter fun _ => amount ≠ 0).map (⟨·, amount⟩)

/-- An amount that a side takes from a market or leaves in it. -/
def amountAt (place : Pubkey) (moved : Option Output)
    (marketToken token : Pubkey) : ℤ :=
  moved.elim 0 fun output =>
    if marketToken = place then amountIn output.token token output.amount else 0

/-- One side moves its amount from the market where it starts to its output
market. -/
structure SideMoves (path : List Pubkey) (expectedTokenOut : Pubkey)
    (input : Option Output) (markets : SwapMarkets) (direction : SwapDirection)
    (outcome : SideOutcome) : Prop where
  start_eq : ∀ other,
    startMarketToken outcome.direction other = startMarketToken direction other
  output_eq : ∀ other,
    outputMarketToken outcome.direction other = outputMarketToken direction other
  balance_eq : ∀ token, totalBalance outcome.markets outcome.direction token =
    totalBalance markets direction token
  surplus_eq : ∀ marketToken token,
    surplusAt outcome.markets outcome.direction marketToken token =
      surplusAt markets direction marketToken token -
        amountAt (startMarketToken direction path) input marketToken token +
        amountAt (outputMarketToken direction path) outcome.output marketToken token
  output_isSome : outcome.output.isSome = input.isSome
  output_token : ∀ output, outcome.output = some output →
    output.token = expectedTokenOut

theorem swapSide_moves [Model.MarketNum] {oracle : Oracle} {path : List Pubkey}
    {expectedTokenOut : Pubkey} {tokenIn : Option Pubkey} {amount : ℕ}
    {markets : SwapMarkets} {direction : SwapDirection} {outcome : SideOutcome}
    (hswap : swapSide oracle path expectedTokenOut tokenIn amount markets direction =
      .ok outcome) :
    SideMoves path expectedTokenOut (sideInput tokenIn amount) markets direction
      outcome := by
  unfold swapSide at hswap
  unfold sideInput
  cases htaken : tokenIn.filter fun _ => amount ≠ 0 with
  | none =>
      rw [htaken] at hswap
      obtain rfl : (⟨markets, direction, none⟩ : SideOutcome) = outcome :=
        Except.ok.inj hswap
      refine ⟨fun _ => rfl, fun _ => rfl, fun _ => rfl, fun _ _ => ?_, rfl,
        fun _ hnone => absurd hnone (by simp)⟩
      simp [amountAt]
  | some token =>
      rw [htaken] at hswap
      obtain ⟨after, hafter, rfl⟩ := map_eq_ok.mp hswap
      obtain ⟨hcarries, htoken⟩ := revertibleSwapForOneSide_carries hafter
      have hcurrent := hcarries.toKept.current
      have hisInto := hcarries.toKept.isInto_eq
      dsimp only at hcurrent hisInto
      refine ⟨fun other => ?_, fun other => ?_, fun other => ?_,
        fun marketToken other => ?_, rfl, fun output houtput => ?_⟩
      · exact startMarketToken_congr hisInto hcurrent other
      · exact outputMarketToken_congr hisInto hcurrent other
      · have hbalance := hcarries.balance_eq other
        simp only [Route.floating, reduceCtorEq, if_false, add_zero] at hbalance
        exact Nat.cast_inj.mp hbalance
      · have hsurplus := hcarries.surplus_eq marketToken other
        simp only [Route.held, Option.some.injEq] at hsurplus
        simp only [amountAt, Option.map_some, Option.elim, SideOutcome.ofRoute,
          @eq_comm _ marketToken]
        unfold Route.surplusAt at hsurplus
        dsimp only at hsurplus
        omega
      · obtain rfl : _ = output := Option.some.inj houtput
        exact htoken

/-- What a swap of both sides does to the markets. -/
structure Conserves (params : SwapActionParams) (expectedTokenOuts : Pubkey × Pubkey)
    (tokenIns : Option Pubkey × Option Pubkey) (tokenInAmounts : ℕ × ℕ)
    (markets : SwapMarkets) (direction : SwapDirection) (swapped : Swapped) :
    Prop where
  balance_eq : ∀ token, totalBalance swapped.markets swapped.direction token =
    totalBalance markets direction token
  surplus_eq : ∀ marketToken token,
    surplusAt swapped.markets swapped.direction marketToken token =
      surplusAt markets direction marketToken token -
        amountAt (startMarketToken direction params.primarySwapPath)
          (sideInput tokenIns.1 tokenInAmounts.1) marketToken token +
        amountAt (outputMarketToken direction params.primarySwapPath)
          swapped.long marketToken token -
        amountAt (startMarketToken direction params.secondarySwapPath)
          (sideInput tokenIns.2 tokenInAmounts.2) marketToken token +
        amountAt (outputMarketToken direction params.secondarySwapPath)
          swapped.short marketToken token
  long_isSome : swapped.long.isSome =
    (sideInput tokenIns.1 tokenInAmounts.1).isSome
  short_isSome : swapped.short.isSome =
    (sideInput tokenIns.2 tokenInAmounts.2).isSome
  long_token : ∀ output, swapped.long = some output →
    output.token = expectedTokenOuts.1
  short_token : ∀ output, swapped.short = some output →
    output.token = expectedTokenOuts.2

section Both

variable [Model.MarketNum] {oracle : Oracle} {markets : SwapMarkets}
  {direction : SwapDirection} {params : SwapActionParams}
  {expectedTokenOuts : Pubkey × Pubkey} {tokenIns : Option Pubkey × Option Pubkey}
  {tokenInAmounts : ℕ × ℕ} {swapped : Swapped}

theorem revertibleSwap_totalBalance
    (hswap : revertibleSwap oracle markets direction params expectedTokenOuts
      tokenIns tokenInAmounts = .ok swapped) (token : Pubkey) :
    totalBalance swapped.markets swapped.direction token =
      totalBalance markets direction token := by
  obtain ⟨long, short, hlong, hshort, -, rfl⟩ := revertibleSwap_sides hswap
  exact ((swapSide_moves hshort).balance_eq token).trans
    ((swapSide_moves hlong).balance_eq token)

/-- Each side leaves the token that was expected of it. -/
theorem revertibleSwap_token
    (hswap : revertibleSwap oracle markets direction params expectedTokenOuts
      tokenIns tokenInAmounts = .ok swapped) :
    (∀ output, swapped.long = some output → output.token = expectedTokenOuts.1) ∧
      ∀ output, swapped.short = some output → output.token = expectedTokenOuts.2 := by
  obtain ⟨long, short, hlong, hshort, -, rfl⟩ := revertibleSwap_sides hswap
  exact ⟨(swapSide_moves hlong).output_token, (swapSide_moves hshort).output_token⟩

/-- A successful swap keeps the recorded balances of all markets together, and
moves the surplus of each side from its start market to its output market. -/
theorem revertibleSwap_conserves
    (hswap : revertibleSwap oracle markets direction params expectedTokenOuts
      tokenIns tokenInAmounts = .ok swapped) :
    Conserves params expectedTokenOuts tokenIns tokenInAmounts markets direction
      swapped := by
  obtain ⟨hlongToken, hshortToken⟩ := revertibleSwap_token hswap
  have hbalance := revertibleSwap_totalBalance hswap
  obtain ⟨long, short, hlong, hshort, -, rfl⟩ := revertibleSwap_sides hswap
  have hlongMoves := swapSide_moves hlong
  have hshortMoves := swapSide_moves hshort
  refine ⟨hbalance, fun marketToken token => ?_,
    hlongMoves.output_isSome, hshortMoves.output_isSome, hlongToken, hshortToken⟩
  dsimp only
  rw [hshortMoves.surplus_eq, hlongMoves.surplus_eq, hlongMoves.start_eq,
    hlongMoves.output_eq]

end Both

/-! ## Two sides through one market -/

def sampleMarket (marketMeta : MarketMeta) (longTokenBalance shortTokenBalance : ℕ) :
    RevertibleMarket where
  store := 0
  marketMeta := marketMeta
  state := { Model.Market.init marketMeta.isPure .unrestricted true ⟨0, 0⟩ with
    longTokenBalance, shortTokenBalance, primary := ⟨1000, 1000⟩ }

def sampleOracle : Oracle := ⟨fun _ => some ⟨⟨10, 10⟩, false⟩⟩

/-- The tokens 1 and 2 are those of the current market. -/
def sampleDirection : SwapDirection :=
  ⟨true, sampleMarket ⟨100, 9, 1, 2⟩ 1000 1000⟩

theorem sampleKey_vacant : 200 ∉ (IndexMap.empty : SwapMarkets).keys := List.not_mem_nil

/-- One swap market, which has received 150 of the token 3. -/
def sampleMarkets : SwapMarkets :=
  IndexMap.empty.insertVacant 200 (sampleMarket ⟨200, 9, 2, 3⟩ 1000 1150) sampleKey_vacant

def sampleParams : SwapActionParams :=
  ⟨1, 1, 0, 100, Vector.replicate _ 200, Vector.replicate _ 0⟩

def sampleSwap : Store.Result Swapped :=
  @revertibleSwap Model.storeNumbers sampleOracle sampleMarkets sampleDirection
    sampleParams (2, 2) (some 3, some 3) (100, 50)

theorem revertibleSwap_conserves_through_one_market :
    ∃ swapped, sampleSwap = .ok swapped ∧
      Conserves sampleParams (2, 2) (some 3, some 3) (100, 50) sampleMarkets
        sampleDirection swapped := by
  obtain ⟨swapped, hswapped⟩ : ∃ swapped, sampleSwap = .ok swapped :=
    exists_of_isOk (by decide +kernel)
  refine ⟨swapped, hswapped, ?_⟩
  apply @revertibleSwap_conserves Model.storeNumbers
  exact hswapped

end Gmsol.SwapPath
