import Gmsol.SwapPath.Conservation
import Gmsol.SwapPath.Validated

/-!
# Which accepted paths can be executed

Execution looks for every market of a path, except for its two ends, among the
swap markets, and the current market is never one of them.  So of all accepted
paths exactly those cannot be executed in which the current market stands
between two other markets.
-/

namespace Gmsol.SwapPath

open Fallible Container Store

/-- The errors that are about the shape of a path and not about the amounts,
prices and balances of its markets. -/
def IsStructural (error : CoreError) : Prop :=
  error = .invalidSwapPath ∨ error = .marketAccountIsNotProvided ∨
    error = .invalidArgument ∨ error = .panic

instance : DecidablePred IsStructural :=
  fun error => inferInstanceAs (Decidable (error = .invalidSwapPath ∨
    error = .marketAccountIsNotProvided ∨ error = .invalidArgument ∨ error = .panic))

/-- A computation that fails for no structural reason. -/
abbrev Sound {α : Type} (result : Store.Result α) : Prop :=
  FailsOnly (fun error => ¬IsStructural error) result

namespace MarketMeta

def HasToken (marketMeta : MarketMeta) (token : Pubkey) : Prop :=
  ∃ side, marketMeta.toTokenSide token = .ok side

theorem hasToken_pnlToken (marketMeta : MarketMeta) (side : Bool) :
    marketMeta.HasToken (marketMeta.pnlToken side) := by
  obtain ⟨found, hfound, _⟩ := toTokenSide_pnlToken marketMeta side
  exact ⟨found, hfound⟩

theorem hasToken_of_isCollateralToken {marketMeta : MarketMeta} {token : Pubkey}
    (hcollateral : marketMeta.isCollateralToken token = true) :
    marketMeta.HasToken token := by
  rcases (Bool.or_eq_true _ _).mp hcollateral with hlong | hshort
  · rw [beq_iff_eq.mp hlong]
    exact marketMeta.hasToken_pnlToken true
  · rw [beq_iff_eq.mp hshort]
    exact marketMeta.hasToken_pnlToken false

/-- What creation calls the next token of a path is what execution calls the
opposite token. -/
theorem nextToken_eq_ok {marketMeta : MarketMeta} {token next : Pubkey}
    (hnext : nextToken marketMeta token = .ok next) :
    marketMeta.HasToken token ∧ marketMeta.HasToken next ∧
      marketMeta.oppositeToken token = .ok next := by
  unfold nextToken at hnext
  split_ifs at hnext with hlong hshort
  · obtain rfl : marketMeta.shortTokenMint = next := Except.ok.inj hnext
    refine ⟨?_, marketMeta.hasToken_pnlToken false, if_pos hlong⟩
    rw [hlong]
    exact marketMeta.hasToken_pnlToken true
  · obtain rfl : marketMeta.longTokenMint = next := Except.ok.inj hnext
    refine ⟨?_, marketMeta.hasToken_pnlToken true,
      (if_neg hlong).trans (if_pos hshort)⟩
    rw [hshort]
    exact marketMeta.hasToken_pnlToken false

end MarketMeta

theorem Continues.hasToken_first {tokenIn tokenOut : Pubkey}
    {marketMeta : MarketMeta} {rest : List MarketMeta}
    (hcontinues : Continues tokenIn (marketMeta :: rest) tokenOut) :
    marketMeta.HasToken tokenIn := by
  cases hcontinues with
  | cons hnext hrest => exact (MarketMeta.nextToken_eq_ok hnext).1

theorem Continues.append {tokenIn tokenOut : Pubkey} {front back : List MarketMeta}
    (hcontinues : Continues tokenIn (front ++ back) tokenOut) :
    ∃ middle, Continues tokenIn front middle ∧ Continues middle back tokenOut := by
  induction front generalizing tokenIn with
  | nil => exact ⟨tokenIn, .nil tokenIn, hcontinues⟩
  | cons marketMeta front ih =>
      cases hcontinues with
      | cons hnext hrest =>
          obtain ⟨middle, hfront, hback⟩ := ih hrest
          exact ⟨middle, .cons hnext hfront, hback⟩

theorem Continues.hasToken_last {tokenIn tokenOut : Pubkey} {front : List MarketMeta}
    {last : MarketMeta} (hcontinues : Continues tokenIn (front ++ [last]) tokenOut) :
    last.HasToken tokenOut := by
  obtain ⟨middle, _, hlast⟩ := hcontinues.append
  cases hlast with
  | cons hnext hrest =>
      cases hrest
      exact (MarketMeta.nextToken_eq_ok hnext).2.1

/-! ## Single markets -/

theorem sound_toTokenSide {marketMeta : MarketMeta} {token : Pubkey}
    (hhas : marketMeta.HasToken token) : Sound (marketMeta.toTokenSide token) := by
  obtain ⟨side, hside⟩ := hhas
  rw [hside]
  exact failsOnly_ok side

theorem sound_ensure {condition : Prop} [Decidable condition] {error : CoreError}
    (hsound : ¬IsStructural error) : Sound (ensure condition error) :=
  failsOnly_ensure fun _ => hsound

theorem sound_mapError {α : Type} (result : Model.Result α) :
    Sound (result.mapError CoreError.model) := by
  intro stopped hfail
  cases result with
  | error failure =>
      obtain rfl : CoreError.model failure = stopped := Except.error.inj hfail
      simp [IsStructural]
  | ok value => exact absurd hfail (by simp [Except.mapError])

theorem sound_map {α β : Type} {result : Store.Result α} (view : α → β)
    (hsound : Sound result) : Sound (result.map view) := by
  intro stopped hfail
  cases hresult : result with
  | error failure =>
      rw [hresult] at hfail
      obtain rfl : failure = stopped := Except.error.inj hfail
      exact hsound failure hresult
  | ok value =>
      rw [hresult] at hfail
      exact absurd hfail (by simp [Except.map])

/-- A value that is there is found. -/
theorem sound_found {α β : Type} {found : Option α} {value : α} {error : CoreError}
    {next : α → Store.Result β} (hfound : found = some value)
    (hnext : Sound (next value)) : Sound (okOr found error >>= next) := by
  rw [hfound]
  exact hnext

section Operations

variable {market : RevertibleMarket} {token : Pubkey}

theorem sound_getPrimaryPrice (oracle : Oracle) (token : Pubkey)
    (allowSynthetic : Bool) : Sound (oracle.getPrimaryPrice token allowSynthetic) := by
  refine (failsOnly_okOr fun _ => by decide).bind fun found _ => ?_
  exact (sound_ensure (by decide)).bind fun _ _ => failsOnly_ok _

theorem sound_marketPrices (oracle : Oracle) (marketMeta : MarketMeta) :
    Sound (oracle.marketPrices marketMeta) := by
  refine (sound_getPrimaryPrice oracle _ true).bind fun _ _ => ?_
  refine (sound_getPrimaryPrice oracle _ false).bind fun _ _ => ?_
  exact (sound_getPrimaryPrice oracle _ false).bind fun _ _ => failsOnly_ok _

theorem sound_update (market : RevertibleMarket)
    (result : Model.Result (Model.Market market.marketMeta.isPure)) :
    Sound (market.update result) :=
  sound_map _ (sound_mapError result)

theorem sound_recordTransferredIn (hhas : market.marketMeta.HasToken token)
    (amount : ℕ) : Sound (market.recordTransferredInByToken token amount) :=
  (sound_toTokenSide hhas).bind fun _ _ => sound_update market _

theorem sound_recordTransferredOut (hhas : market.marketMeta.HasToken token)
    (amount : ℕ) : Sound (market.recordTransferredOutByToken token amount) :=
  (sound_toTokenSide hhas).bind fun _ _ => sound_update market _

theorem sound_oppositeToken {marketMeta : MarketMeta}
    (hhas : marketMeta.HasToken token) : Sound (marketMeta.oppositeToken token) := by
  obtain ⟨side, hside⟩ := hhas
  rw [MarketMeta.oppositeToken_eq hside]
  exact failsOnly_ok _

variable [Model.MarketNum]

theorem sound_swap (market : RevertibleMarket) (side : Bool) (amount : ℕ)
    (prices : Model.Prices) : Sound (market.swap side amount prices) :=
  sound_map _ (sound_mapError _)

theorem swap_marketMeta {side : Bool} {amount : ℕ} {prices : Model.Prices}
    {swapped : RevertibleMarket × ℕ}
    (hswap : market.swap side amount prices = .ok swapped) :
    swapped.1.marketMeta = market.marketMeta := by
  obtain ⟨done, _, rfl⟩ := map_eq_ok.mp hswap
  rfl

theorem sound_validateMarketBalances (market : RevertibleMarket) (long short : ℕ) :
    Sound (market.validateMarketBalances long short) :=
  sound_mapError _

theorem sound_validateGivenToken (hhas : market.marketMeta.HasToken token)
    (excluded : ℕ) :
    Sound (market.validateMarketBalanceForTheGivenToken token excluded) :=
  (sound_toTokenSide hhas).bind fun _ _ => sound_mapError _

end Operations

/-! ## Routes -/

namespace Route

/-- A market of a path is the current market or one of the swap markets. -/
structure Knows (route : Route) (marketMeta : MarketMeta) : Prop where
  current_eq : marketMeta.marketTokenMint = route.direction.current →
    marketMeta = route.direction.currentMarket.marketMeta
  metaAt_eq : marketMeta.marketTokenMint ≠ route.direction.current →
    route.metaAt marketMeta.marketTokenMint = some marketMeta

theorem Kept.knows {before after : Route} (hkept : Kept before after)
    {marketMeta : MarketMeta} (hknows : before.Knows marketMeta) :
    after.Knows marketMeta where
  current_eq hcurrent := by
    rw [hkept.current_eq]
    exact hknows.current_eq (hcurrent.trans hkept.current)
  metaAt_eq hother := by
    rw [hkept.metas_eq]
    exact hknows.metaAt_eq fun hcurrent => hother (hcurrent.trans hkept.current.symm)

theorem Knows.sound_get {route : Route} {marketMeta : MarketMeta}
    (hknows : route.Knows marketMeta)
    (hother : marketMeta.marketTokenMint ≠ route.direction.current) :
    ∃ market, route.markets.get marketMeta.marketTokenMint = some market ∧
      market.marketMeta = marketMeta :=
  Option.map_eq_some_iff.mp (hknows.metaAt_eq hother)

end Route

/-- A step that fails for no structural reason and yields the given token. -/
structure Leads (result : Store.Result Route) (tokenOut : Pubkey) : Prop where
  sound : Sound result
  tokenIn_eq : ∀ after, result = .ok after → after.tokenIn = tokenOut

theorem Leads.bind {step : Store.Result Route} {next : Route → Store.Result Route}
    {middle tokenOut : Pubkey} (hstep : Leads step middle)
    (hnext : ∀ route, step = .ok route → Leads (next route) tokenOut) :
    Leads (step >>= next) tokenOut where
  sound := hstep.sound.bind fun route hroute => (hnext route hroute).sound
  tokenIn_eq after hafter := by
    obtain ⟨route, hroute, hend⟩ := bind_eq_ok.mp hafter
    exact (hnext route hroute).tokenIn_eq after hend

theorem leads_ok (route : Route) : Leads (.ok route) route.tokenIn where
  sound := failsOnly_ok route
  tokenIn_eq after hafter := by
    obtain rfl : route = after := Except.ok.inj hafter
    rfl

section Routes

variable [Model.MarketNum] {oracle : Oracle} {route : Route} {next tokenOut : Pubkey}

theorem swapWithCurrent_leads
    (hnext : nextToken route.direction.currentMarket.marketMeta route.tokenIn =
      .ok next) : Leads (swapWithCurrent oracle route) next := by
  obtain ⟨hhas, _, hopposite⟩ := MarketMeta.nextToken_eq_ok hnext
  constructor
  · refine (sound_toTokenSide hhas).bind fun side hside => ?_
    refine (sound_marketPrices oracle _).bind fun prices _ => ?_
    refine (sound_swap _ _ _ _).bind fun swapped hswapped => ?_
    refine (sound_ensure (by decide)).bind fun _ _ => ?_
    rw [swap_marketMeta hswapped]
    exact (sound_oppositeToken hhas).bind fun _ _ => failsOnly_ok _
  · intro after hafter
    simp only [swapWithCurrent, bind_eq_ok, ensure_eq_ok, pure_eq_ok] at hafter
    obtain ⟨_, _, _, _, swapped, hswapped, _, _, found, hfound, rfl⟩ := hafter
    rw [swap_marketMeta hswapped] at hfound
    exact Except.ok.inj (hfound.symm.trans hopposite)

omit [Model.MarketNum] in
theorem sound_receive {market : RevertibleMarket} {isFirst : Bool}
    (hhas : market.marketMeta.HasToken route.tokenIn) :
    Sound (receive market route isFirst) := by
  unfold receive
  cases isFirst with
  | true => exact failsOnly_ok market
  | false => exact sound_recordTransferredIn hhas _

theorem sound_forward {market : RevertibleMarket} {isLast : Bool} {amount : ℕ}
    (hhas : market.marketMeta.HasToken tokenOut) :
    Sound (forward market tokenOut amount isLast) := by
  unfold forward
  cases isLast with
  | true => exact failsOnly_ok market
  | false =>
      refine (sound_recordTransferredOut hhas amount).bind fun sent _ => ?_
      exact (sound_validateMarketBalances sent 0 0).bind fun _ _ => failsOnly_ok sent

theorem swapStep_leads {marketMeta : MarketMeta} {isFirst isLast : Bool}
    (hknows : route.Knows marketMeta)
    (hother : marketMeta.marketTokenMint ≠ route.direction.current)
    (hnext : nextToken marketMeta route.tokenIn = .ok next) :
    Leads (swapStep oracle marketMeta.marketTokenMint isFirst isLast route) next := by
  obtain ⟨market, hget, rfl⟩ := hknows.sound_get hother
  obtain ⟨hhas, hhasNext, hopposite⟩ := MarketMeta.nextToken_eq_ok hnext
  constructor
  · unfold swapStep
    refine sound_found hget ?_
    refine (sound_receive hhas).bind fun received hreceive => ?_
    have hreceived := (receive_changes hreceive).marketMeta_eq
    rw [hreceived]
    refine (sound_toTokenSide hhas).bind fun side _ => ?_
    refine (sound_marketPrices oracle _).bind fun prices _ => ?_
    refine (sound_update received _).bind fun updated hupdate => ?_
    have hupdated := (RevertibleMarket.updateBorrowing_changes hupdate).marketMeta_eq
    refine (sound_swap _ _ _ _).bind fun swapped hswapped => ?_
    have hmeta : swapped.1.marketMeta = market.marketMeta :=
      (swap_marketMeta hswapped).trans (hupdated.trans hreceived)
    rw [hmeta, hopposite]
    refine (failsOnly_ok next).bind fun token htoken => ?_
    obtain rfl : next = token := Except.ok.inj htoken
    refine (sound_ensure (by decide)).bind fun _ _ => ?_
    exact (sound_forward (hmeta ▸ hhasNext)).bind fun _ _ => failsOnly_ok _
  · intro after hafter
    simp only [swapStep, bind_eq_ok, okOr_eq_ok, ensure_eq_ok, pure_eq_ok] at hafter
    obtain ⟨found, hfound, received, hreceive, _, _, _, _, updated, hupdate, swapped,
      hswapped, token, htoken, _, _, _, _, rfl⟩ := hafter
    obtain rfl : market = found := Option.some.inj (hget.symm.trans hfound)
    have hreceived := (receive_changes hreceive).marketMeta_eq
    have hupdated := (RevertibleMarket.updateBorrowing_changes hupdate).marketMeta_eq
    rw [swap_marketMeta hswapped, hupdated, hreceived, hopposite] at htoken
    exact (Except.ok.inj htoken).symm

theorem swapAlongThePath_leads {metas : List MarketMeta} {isFirst : Bool}
    (hapart : route.CurrentApart) (hknows : ∀ m ∈ metas, route.Knows m)
    (hother : ∀ m ∈ metas, m.marketTokenMint ≠ route.direction.current)
    (hcontinues : Continues route.tokenIn metas tokenOut) :
    Leads (swapAlongThePath oracle isFirst (metas.map MarketMeta.marketTokenMint)
      route) tokenOut := by
  induction metas generalizing route isFirst with
  | nil =>
      cases hcontinues
      exact leads_ok route
  | cons marketMeta rest ih =>
      cases hcontinues with
      | cons hnext hrest =>
          rw [List.map_cons, swapAlongThePath]
          refine (swapStep_leads (hknows marketMeta List.mem_cons_self)
            (hother marketMeta List.mem_cons_self) hnext).bind fun middle hmiddle => ?_
          have hkept := (swapStep_carries hapart hmiddle).toKept
          have htoken := (swapStep_leads (hknows marketMeta List.mem_cons_self)
            (hother marketMeta List.mem_cons_self) hnext).tokenIn_eq middle hmiddle
          rw [← htoken] at hrest
          refine ih (hkept.currentApart hapart) (fun m hm => ?_) (fun m hm => ?_) hrest
          · exact hkept.knows (hknows m (List.mem_cons_of_mem _ hm))
          · rw [hkept.current]
            exact hother m (List.mem_cons_of_mem _ hm)

theorem transferFromCurrent_leads {validated : Bool} {marketMeta : MarketMeta}
    (hknows : route.Knows marketMeta)
    (hother : marketMeta.marketTokenMint ≠ route.direction.current)
    (hcurrent : route.direction.currentMarket.marketMeta.HasToken route.tokenIn)
    (hhas : marketMeta.HasToken route.tokenIn) :
    Leads (transferFromCurrent validated marketMeta.marketTokenMint route)
      route.tokenIn := by
  obtain ⟨market, hget, rfl⟩ := hknows.sound_get hother
  constructor
  · refine sound_found hget ?_
    refine (sound_recordTransferredOut hcurrent _).bind fun current hrecord => ?_
    have hmeta := (RevertibleMarket.recordTransferredOut_changes hrecord).marketMeta_eq
    have hvalidate : Sound (validateAtOnce validated current route.tokenIn) := by
      unfold validateAtOnce
      cases validated with
      | true => exact sound_validateGivenToken (hmeta ▸ hcurrent) 0
      | false => exact failsOnly_ok ()
    refine hvalidate.bind fun _ _ => ?_
    exact (sound_recordTransferredIn hhas _).bind fun _ _ => failsOnly_ok _
  · intro after hafter
    simp only [transferFromCurrent, bind_eq_ok, okOr_eq_ok, pure_eq_ok] at hafter
    obtain ⟨_, _, _, _, _, _, _, _, rfl⟩ := hafter
    rfl

theorem transferIntoCurrent_leads {marketMeta : MarketMeta}
    (hknows : route.Knows marketMeta)
    (hother : marketMeta.marketTokenMint ≠ route.direction.current)
    (hcurrent : route.direction.currentMarket.marketMeta.HasToken route.tokenIn)
    (hhas : marketMeta.HasToken route.tokenIn) :
    Leads (transferIntoCurrent marketMeta.marketTokenMint route) route.tokenIn := by
  obtain ⟨market, hget, rfl⟩ := hknows.sound_get hother
  constructor
  · refine sound_found hget ?_
    refine (sound_recordTransferredOut hhas _).bind fun sent _ => ?_
    refine (sound_validateMarketBalances sent 0 0).bind fun _ _ => ?_
    exact (sound_recordTransferredIn hcurrent _).bind fun _ _ => failsOnly_ok _
  · intro after hafter
    simp only [transferIntoCurrent, bind_eq_ok, okOr_eq_ok, pure_eq_ok] at hafter
    obtain ⟨_, _, _, _, _, _, _, _, rfl⟩ := hafter
    rfl

/-! ## One side -/

theorem leaveCurrent_leads {metas : List MarketMeta}
    (hknows : ∀ m ∈ metas, route.Knows m)
    (hother : ∀ m ∈ metas, m.marketTokenMint ≠ route.direction.current)
    (hcurrent : route.direction.currentMarket.marketMeta.HasToken route.tokenIn)
    (hcontinues : Continues route.tokenIn metas tokenOut) :
    Leads (leaveCurrent (metas.map MarketMeta.marketTokenMint) route)
      route.tokenIn := by
  cases metas with
  | nil =>
      exact leads_ok route
  | cons marketMeta rest =>
      exact transferFromCurrent_leads (hknows marketMeta List.mem_cons_self)
        (hother marketMeta List.mem_cons_self) hcurrent hcontinues.hasToken_first

/-- What is left of a path after it was entered. -/
structure Entered (metas : List MarketMeta) (tokenOut : Pubkey) (route : Route)
    (entered : Route × List Pubkey) : Prop where
  rest_eq : ∃ rest, entered.2 = rest.map MarketMeta.marketTokenMint ∧
    (∀ m ∈ rest, m ∈ metas) ∧ Continues entered.1.tokenIn rest tokenOut
  blocked : route.direction.current ∈ entered.2.dropLast →
    route.direction.current ∈
      (metas.map MarketMeta.marketTokenMint).tail.dropLast

omit [Model.MarketNum] in
theorem mem_tail_dropLast {first other : Pubkey} {rest : List Pubkey}
    (hother : first ≠ other) (hmem : other ∈ (first :: rest).dropLast) :
    other ∈ rest.dropLast := by
  cases rest with
  | nil => exact absurd hmem (by simp)
  | cons second rest =>
      rw [List.dropLast_cons_cons] at hmem
      rcases List.mem_cons.mp hmem with heq | htail
      · exact absurd heq.symm hother
      · exact htail

theorem enterPath_enters {metas : List MarketMeta}
    (hknows : ∀ m ∈ metas, route.Knows m)
    (hnodup : (metas.map MarketMeta.marketTokenMint).Nodup)
    (hcurrent : route.direction.isInto = false →
      route.direction.currentMarket.marketMeta.HasToken route.tokenIn)
    (hcontinues : Continues route.tokenIn metas tokenOut) :
    Sound (enterPath oracle (metas.map MarketMeta.marketTokenMint) route) ∧
      ∀ entered, enterPath oracle (metas.map MarketMeta.marketTokenMint) route =
        .ok entered → Entered metas tokenOut route entered := by
  cases metas with
  | nil =>
      refine ⟨failsOnly_ok _, fun entered hentered => ?_⟩
      obtain rfl : (route, []) = entered := Except.ok.inj hentered
      exact ⟨⟨[], rfl, fun _ hm => hm, hcontinues⟩, fun hmem => hmem⟩
  | cons marketMeta rest =>
      have hknowsFirst := hknows marketMeta List.mem_cons_self
      rw [List.map_cons, List.nodup_cons] at hnodup
      rw [List.map_cons]
      unfold enterPath
      dsimp only
      split_ifs with hfirst hinto
      · have hmeta := hknowsFirst.current_eq hfirst
        have hothers : ∀ m ∈ rest, m.marketTokenMint ≠ route.direction.current := by
          intro m hm heq
          apply hnodup.1
          rw [hfirst, ← heq]
          exact List.mem_map_of_mem hm
        cases hcontinues with
        | cons hnext hrest =>
            rename_i second
            have hswap := @swapWithCurrent_leads _ oracle route second (hmeta ▸ hnext)
            have hleave : ∀ swapped, swapWithCurrent oracle route = .ok swapped →
                Leads (leaveCurrent (rest.map MarketMeta.marketTokenMint) swapped)
                  second := by
              intro swapped hswapped
              have hkept := (swapWithCurrent_carries hswapped).toKept
              have htoken := hswap.tokenIn_eq swapped hswapped
              rw [← htoken]
              apply @leaveCurrent_leads _ swapped tokenOut
              · exact fun m hm => hkept.knows (hknows m (List.mem_cons_of_mem _ hm))
              · intro m hm
                rw [hkept.current]
                exact hothers m hm
              · rw [hkept.current_eq, htoken, ← hmeta]
                exact (MarketMeta.nextToken_eq_ok hnext).2.1
              · rw [htoken]
                exact hrest
            constructor
            · refine hswap.sound.bind fun swapped hswapped => ?_
              exact (hleave swapped hswapped).sound.bind fun _ _ => failsOnly_ok _
            · intro entered hentered
              simp only [bind_eq_ok, pure_eq_ok] at hentered
              obtain ⟨swapped, hswapped, left, hleft, rfl⟩ := hentered
              refine ⟨⟨rest, rfl, fun m hm => List.mem_cons_of_mem _ hm, ?_⟩,
                fun hmem => hmem⟩
              rw [(hleave swapped hswapped).tokenIn_eq left hleft]
              exact hrest
      · refine ⟨failsOnly_ok _, fun entered hentered => ?_⟩
        obtain rfl : _ = entered := Except.ok.inj hentered
        exact ⟨⟨marketMeta :: rest, rfl, fun _ hm => hm, hcontinues⟩,
          mem_tail_dropLast hfirst⟩
      · have htransfer : Leads (transferFromCurrent true marketMeta.marketTokenMint
            route) route.tokenIn :=
          transferFromCurrent_leads hknowsFirst hfirst
            (hcurrent (Bool.eq_false_iff.mpr hinto)) hcontinues.hasToken_first
        refine ⟨htransfer.sound.bind fun _ _ => failsOnly_ok _,
          fun entered hentered => ?_⟩
        simp only [bind_eq_ok, pure_eq_ok] at hentered
        obtain ⟨transferred, htransferred, rfl⟩ := hentered
        refine ⟨⟨marketMeta :: rest, rfl, fun _ hm => hm, ?_⟩,
          mem_tail_dropLast hfirst⟩
        rw [htransfer.tokenIn_eq transferred htransferred]
        exact hcontinues

theorem returnToCurrent_leads {metas : List MarketMeta} {tokenIn : Pubkey}
    (hknows : ∀ m ∈ metas, route.Knows m)
    (hother : ∀ m ∈ metas, m.marketTokenMint ≠ route.direction.current)
    (hcurrent : route.direction.currentMarket.marketMeta.HasToken route.tokenIn)
    (hcontinues : Continues tokenIn metas route.tokenIn) :
    Leads (returnToCurrent (metas.map MarketMeta.marketTokenMint) route)
      route.tokenIn := by
  rcases List.eq_nil_or_concat metas with rfl | ⟨front, last, rfl⟩
  · exact leads_ok route
  · have hmem : last ∈ front.concat last := by simp
    unfold returnToCurrent
    rw [List.concat_eq_append, List.map_append, List.map_singleton,
      List.getLast?_concat]
    rw [List.concat_eq_append] at hcontinues
    exact transferIntoCurrent_leads (hknows last hmem) (hother last hmem) hcurrent
      hcontinues.hasToken_last

/-- A path whose last market is the current one. -/
theorem endInCurrent_leads {front : List MarketMeta} {middle : Pubkey}
    (hapart : route.CurrentApart) (hknows : ∀ m ∈ front, route.Knows m)
    (hother : ∀ m ∈ front, m.marketTokenMint ≠ route.direction.current)
    (hcontinues : Continues route.tokenIn front middle)
    (hnext : nextToken route.direction.currentMarket.marketMeta middle =
      .ok tokenOut) :
    Leads (do
      let swapped ← swapAlongThePath oracle true
        (front.map MarketMeta.marketTokenMint) route
      let returned ← returnToCurrent (front.map MarketMeta.marketTokenMint) swapped
      swapWithCurrent oracle returned) tokenOut := by
  have halong := @swapAlongThePath_leads _ oracle route middle front true hapart
    hknows hother hcontinues
  refine halong.bind fun swapped hswapped => ?_
  have hkept := (swapAlong_carries hapart hswapped).toKept
  have htoken := halong.tokenIn_eq swapped hswapped
  have hreturn : Leads (returnToCurrent (front.map MarketMeta.marketTokenMint)
      swapped) swapped.tokenIn := by
    apply @returnToCurrent_leads _ swapped _ route.tokenIn
    · exact fun m hm => hkept.knows (hknows m hm)
    · intro m hm
      rw [hkept.current]
      exact hother m hm
    · rw [hkept.current_eq, htoken]
      exact (MarketMeta.nextToken_eq_ok hnext).1
    · rw [htoken]
      exact hcontinues
  refine hreturn.bind fun returned hreturned => ?_
  have hkeptReturned := hkept.trans
    (returnToCurrent_carries (hkept.currentApart hapart) hreturned).toKept
  apply swapWithCurrent_leads
  rw [hkeptReturned.current_eq, hreturn.tokenIn_eq returned hreturned, htoken]
  exact hnext

/-- A path whose last market is not the current one. -/
theorem endInOther_leads {front : List MarketMeta} {last : MarketMeta}
    (hapart : route.CurrentApart) (hknows : ∀ m ∈ front ++ [last], route.Knows m)
    (hother : ∀ m ∈ front ++ [last],
      m.marketTokenMint ≠ route.direction.current)
    (hcurrent : route.direction.isInto = true →
      route.direction.currentMarket.marketMeta.HasToken tokenOut)
    (hcontinues : Continues route.tokenIn (front ++ [last]) tokenOut) :
    Leads (do
      let swapped ← swapAlongThePath oracle true
        ((front ++ [last]).map MarketMeta.marketTokenMint) route
      if route.direction.isInto then
        transferIntoCurrent last.marketTokenMint swapped
      else .ok swapped) tokenOut := by
  have hlast : last ∈ front ++ [last] := List.mem_append_right _ List.mem_cons_self
  have halong := @swapAlongThePath_leads _ oracle route tokenOut _ true hapart
    hknows hother hcontinues
  refine halong.bind fun swapped hswapped => ?_
  have hkept := (swapAlong_carries hapart hswapped).toKept
  have htoken := halong.tokenIn_eq swapped hswapped
  rw [← htoken]
  split_ifs with hinto
  · apply transferIntoCurrent_leads (hkept.knows (hknows last hlast))
    · rw [hkept.current]
      exact hother last hlast
    · rw [hkept.current_eq, htoken]
      exact hcurrent hinto
    · rw [htoken]
      exact hcontinues.hasToken_last
  · exact leads_ok swapped

theorem finishPath_leads {metas : List MarketMeta} (hapart : route.CurrentApart)
    (hknows : ∀ m ∈ metas, route.Knows m)
    (hblocked : route.direction.current ∉
      (metas.map MarketMeta.marketTokenMint).dropLast)
    (hcurrent : route.direction.isInto = true →
      route.direction.currentMarket.marketMeta.HasToken tokenOut)
    (hcontinues : Continues route.tokenIn metas tokenOut) :
    Leads (finishPath oracle (metas.map MarketMeta.marketTokenMint) route)
      tokenOut := by
  rcases List.eq_nil_or_concat metas with rfl | ⟨front, last, rfl⟩
  · cases hcontinues
    exact leads_ok route
  rw [List.concat_eq_append] at hknows hblocked hcontinues ⊢
  have hgetLast : ((front ++ [last]).map MarketMeta.marketTokenMint).getLast? =
      some last.marketTokenMint := by
    rw [List.map_append, List.map_singleton, List.getLast?_concat]
  have hdropLast : ((front ++ [last]).map MarketMeta.marketTokenMint).dropLast =
      front.map MarketMeta.marketTokenMint := by
    rw [List.map_append, List.map_singleton, List.dropLast_concat]
  rw [hdropLast] at hblocked
  have hlast := hknows last (List.mem_append_right _ List.mem_cons_self)
  have hfront : ∀ m ∈ front, m.marketTokenMint ≠ route.direction.current :=
    fun m hm heq => hblocked (heq ▸ List.mem_map_of_mem hm)
  unfold finishPath
  rw [hgetLast]
  dsimp only
  by_cases hatCurrent : last.marketTokenMint = route.direction.current
  · rw [if_pos hatCurrent, hdropLast]
    obtain ⟨middle, hbefore, hafter⟩ := hcontinues.append
    cases hafter with
    | cons hnext hrest =>
        cases hrest
        rw [hlast.current_eq hatCurrent] at hnext
        exact endInCurrent_leads hapart
          (fun m hm => hknows m (List.mem_append_left _ hm)) hfront hbefore hnext
  · rw [if_neg hatCurrent]
    apply endInOther_leads hapart hknows ?_ hcurrent hcontinues
    intro m hm
    rcases List.mem_append.mp hm with hin | hin
    · exact hfront m hin
    · rw [List.mem_singleton.mp hin]
      exact hatCurrent

/-- What creation has checked of one side, as seen from the current market. -/
structure SideReady (direction : SwapDirection) (metas : List MarketMeta)
    (tokenIn tokenOut : Pubkey) : Prop where
  continues : Continues tokenIn metas tokenOut
  nodup : (metas.map MarketMeta.marketTokenMint).Nodup
  into_current : direction.isInto = true →
    direction.currentMarket.marketMeta.HasToken tokenOut
  from_current : direction.isInto = false →
    direction.currentMarket.marketMeta.HasToken tokenIn

/-- The current market stands between two other markets. -/
def InTheMiddle (marketToken : Pubkey) (path : List Pubkey) : Prop :=
  marketToken ∈ path.tail.dropLast

instance (marketToken : Pubkey) (path : List Pubkey) :
    Decidable (InTheMiddle marketToken path) :=
  inferInstanceAs (Decidable (marketToken ∈ path.tail.dropLast))

theorem revertibleSwapForOneSide_leads {metas : List MarketMeta}
    (hapart : route.CurrentApart) (hknows : ∀ m ∈ metas, route.Knows m)
    (hready : SideReady route.direction metas route.tokenIn tokenOut)
    (hblocked : ¬InTheMiddle route.direction.current
      (metas.map MarketMeta.marketTokenMint)) :
    Leads (revertibleSwapForOneSide oracle (metas.map MarketMeta.marketTokenMint)
      tokenOut route) tokenOut := by
  have hnone : (route.markets.get route.direction.current).isNone :=
    Option.isNone_iff_eq_none.mpr (Route.metaAt_eq_none.mp hapart)
  obtain ⟨hsound, hentered⟩ := @enterPath_enters _ oracle route tokenOut metas
    hknows hready.nodup hready.from_current hready.continues
  have hfinish : ∀ entered, enterPath oracle
      (metas.map MarketMeta.marketTokenMint) route = .ok entered →
      Leads (finishPath oracle entered.2 entered.1) tokenOut := by
    intro entered henter
    have hkept := (enterPath_carries hapart henter).1.toKept
    obtain ⟨⟨rest, hrest, hsubset, hcontinues⟩, hblockedRest⟩ := hentered entered henter
    rw [hrest] at hblockedRest ⊢
    apply finishPath_leads (hkept.currentApart hapart)
    · exact fun m hm => hkept.knows (hknows m (hsubset m hm))
    · rw [hkept.current]
      exact fun hmem => hblocked (hblockedRest hmem)
    · rw [hkept.isInto_eq, hkept.current_eq]
      exact hready.into_current
    · exact hcontinues
  unfold revertibleSwapForOneSide
  rw [ensure_of hnone]
  constructor
  · refine hsound.bind fun entered henter => ?_
    refine (hfinish entered henter).sound.bind fun finished hfinished => ?_
    rw [ensure_of ((hfinish entered henter).tokenIn_eq finished hfinished)]
    exact failsOnly_ok finished
  · intro after hafter
    obtain ⟨_, _, hafter⟩ := bind_eq_ok.mp hafter
    obtain ⟨entered, henter, hafter⟩ := bind_eq_ok.mp hafter
    obtain ⟨finished, hfinished, hafter⟩ := bind_eq_ok.mp hafter
    obtain ⟨_, htoken, hdone⟩ := bind_eq_ok.mp hafter
    obtain rfl : finished = after := Except.ok.inj hdone
    exact ensure_eq_ok.mp htoken

/-! ## Paths that cannot be executed -/

theorem not_mem_of_swapAlong {path : List Pubkey} {isFirst : Bool} {after : Route}
    (hapart : route.CurrentApart)
    (hswap : swapAlongThePath oracle isFirst path route = .ok after) :
    route.direction.current ∉ path := by
  induction path generalizing route isFirst with
  | nil => exact List.not_mem_nil
  | cons marketToken rest ih =>
      rw [swapAlongThePath, bind_eq_ok] at hswap
      obtain ⟨middle, hstep, hrest⟩ := hswap
      have hkept := (swapStep_carries hapart hstep).toKept
      have htail := ih (hkept.currentApart hapart) hrest
      rw [hkept.current] at htail
      simp only [swapStep, bind_eq_ok, okOr_eq_ok] at hstep
      obtain ⟨market, hget, _⟩ := hstep
      intro hmem
      rcases List.mem_cons.mp hmem with rfl | hin
      · rw [Route.metaAt_eq_none.mp hapart] at hget
        exact absurd hget (by simp)
      · exact htail hin

theorem not_mem_of_finishPath {path : List Pubkey} {after : Route}
    (hapart : route.CurrentApart)
    (hfinish : finishPath oracle path route = .ok after) :
    route.direction.current ∉ path.dropLast := by
  unfold finishPath at hfinish
  cases hlast : path.getLast? with
  | none =>
      rw [List.getLast?_eq_none_iff.mp hlast]
      exact List.not_mem_nil
  | some last =>
      rw [hlast] at hfinish
      dsimp only at hfinish
      split_ifs at hfinish with hcurrent hinto
      · obtain ⟨swapped, hswap, _⟩ := bind_eq_ok.mp hfinish
        exact not_mem_of_swapAlong hapart hswap
      · obtain ⟨swapped, hswap, _⟩ := bind_eq_ok.mp hfinish
        exact fun hmem =>
          not_mem_of_swapAlong hapart hswap (List.mem_of_mem_dropLast hmem)
      · obtain ⟨swapped, hswap, _⟩ := bind_eq_ok.mp hfinish
        exact fun hmem =>
          not_mem_of_swapAlong hapart hswap (List.mem_of_mem_dropLast hmem)

omit [Model.MarketNum] in
theorem dropLast_of_tail {path : List Pubkey} {marketToken : Pubkey}
    (hmem : marketToken ∈ path.tail.dropLast) : marketToken ∈ path.dropLast := by
  rw [← List.tail_dropLast] at hmem
  exact List.mem_of_mem_tail hmem

theorem enterPath_rest {path : List Pubkey} {entered : Route × List Pubkey}
    (henter : enterPath oracle path route = .ok entered) :
    entered.2 = path ∨ entered.2 = path.tail := by
  cases path with
  | nil =>
      obtain rfl : (route, []) = entered := Except.ok.inj henter
      exact Or.inl rfl
  | cons first rest =>
      unfold enterPath at henter
      dsimp only at henter
      split_ifs at henter with hfirst hinto
      · simp only [bind_eq_ok, pure_eq_ok] at henter
        obtain ⟨_, _, _, _, rfl⟩ := henter
        exact Or.inr rfl
      · obtain rfl : (route, first :: rest) = entered := Except.ok.inj henter
        exact Or.inl rfl
      · simp only [bind_eq_ok, pure_eq_ok] at henter
        obtain ⟨_, _, rfl⟩ := henter
        exact Or.inl rfl

theorem not_inTheMiddle_of_swap {path : List Pubkey} {expectedTokenOut : Pubkey}
    {after : Route}
    (hswap : revertibleSwapForOneSide oracle path expectedTokenOut route =
      .ok after) : ¬InTheMiddle route.direction.current path := by
  simp only [revertibleSwapForOneSide, bind_eq_ok, ensure_eq_ok, pure_eq_ok] at hswap
  obtain ⟨_, hnone, entered, henter, finished, hfinish, _, _, rfl⟩ := hswap
  have hapart : route.CurrentApart :=
    Route.metaAt_eq_none.mpr (Option.isNone_iff_eq_none.mp hnone)
  have hkept := (enterPath_carries hapart henter).1.toKept
  have hfinished := not_mem_of_finishPath (hkept.currentApart hapart) hfinish
  rw [hkept.current] at hfinished
  intro hmiddle
  apply hfinished
  rcases enterPath_rest henter with hrest | hrest
  · rw [hrest]
    exact dropLast_of_tail hmiddle
  · rw [hrest]
    exact hmiddle

end Routes

end Gmsol.SwapPath
