import Gmsol.SwapPath.Executable

/-!
# Accepted actions

An action whose parameters were accepted at its creation is executed with the
same tokens against the same markets.  Unless one of its operations fails, it
pays out the tokens it was created for exactly when no side that is swapped has
the current market in the middle of its path.
-/

namespace Gmsol.SwapPath

open Fallible Container Store

section Sides

variable [Model.MarketNum] {oracle : Oracle} {markets : SwapMarkets}
  {direction : SwapDirection}

omit [Model.MarketNum] in
theorem SideReady.kept {before after : Route} (hkept : Route.Kept before after)
    {metas : List MarketMeta} {tokenIn tokenOut : Pubkey}
    (hready : SideReady before.direction metas tokenIn tokenOut) :
    SideReady after.direction metas tokenIn tokenOut where
  continues := hready.continues
  nodup := hready.nodup
  into_current := by
    rw [hkept.isInto_eq, hkept.current_eq]
    exact hready.into_current
  from_current := by
    rw [hkept.isInto_eq, hkept.current_eq]
    exact hready.from_current

/-- The swap of a side keeps the markets. -/
theorem swapSide_kept {path : List Pubkey} {expectedTokenOut : Pubkey}
    {tokenIn : Option Pubkey} {amount : ℕ} {outcome : SideOutcome}
    (hswap : swapSide oracle path expectedTokenOut tokenIn amount markets direction =
      .ok outcome) (token : Pubkey) (other : ℕ) :
    Route.Kept ⟨markets, direction, token, other⟩
      ⟨outcome.markets, outcome.direction, token, other⟩ := by
  unfold swapSide at hswap
  cases htaken : tokenIn.filter fun _ => amount ≠ 0 with
  | none =>
      rw [htaken] at hswap
      obtain rfl : (⟨markets, direction, none⟩ : SideOutcome) = outcome :=
        Except.ok.inj hswap
      exact .refl _
  | some taken =>
      rw [htaken] at hswap
      obtain ⟨after, hafter, rfl⟩ := map_eq_ok.mp hswap
      have hkept := (revertibleSwapForOneSide_carries hafter).1.toKept
      exact ⟨hkept.isInto_eq, hkept.current_eq, hkept.metas_eq⟩

theorem sound_swapSide {metas : List MarketMeta} {expectedTokenOut : Pubkey}
    {tokenIn : Option Pubkey} {amount : ℕ}
    (hapart : Route.CurrentApart ⟨markets, direction, 0, 0⟩)
    (hknows : ∀ m ∈ metas, Route.Knows ⟨markets, direction, 0, 0⟩ m)
    (hready : ∀ input, sideInput tokenIn amount = some input →
      SideReady direction metas input.token expectedTokenOut ∧
        ¬InTheMiddle direction.current (metas.map MarketMeta.marketTokenMint)) :
    Sound (swapSide oracle (metas.map MarketMeta.marketTokenMint) expectedTokenOut
      tokenIn amount markets direction) := by
  unfold swapSide
  unfold sideInput at hready
  cases htaken : tokenIn.filter fun _ => amount ≠ 0 with
  | none => exact failsOnly_ok _
  | some taken =>
      rw [htaken] at hready
      obtain ⟨hside, hblocked⟩ := hready ⟨taken, amount⟩ rfl
      apply sound_map
      refine (@revertibleSwapForOneSide_leads _ oracle
        ⟨markets, direction, taken, amount⟩ expectedTokenOut metas hapart
        (fun m hm => ?_) hside hblocked).sound
      exact ⟨(hknows m hm).current_eq, (hknows m hm).metaAt_eq⟩

theorem not_inTheMiddle_of_swapSide {path : List Pubkey} {expectedTokenOut : Pubkey}
    {tokenIn : Option Pubkey} {amount : ℕ} {outcome : SideOutcome}
    (hswap : swapSide oracle path expectedTokenOut tokenIn amount markets direction =
      .ok outcome) (htaken : (sideInput tokenIn amount).isSome = true) :
    ¬InTheMiddle direction.current path := by
  unfold swapSide at hswap
  unfold sideInput at htaken
  cases hfilter : tokenIn.filter fun _ => amount ≠ 0 with
  | none =>
      rw [hfilter] at htaken
      exact absurd htaken (by simp)
  | some taken =>
      rw [hfilter] at hswap
      obtain ⟨after, hafter, rfl⟩ := map_eq_ok.mp hswap
      have hmiddle := not_inTheMiddle_of_swap hafter
      exact hmiddle

/-! ## Validating the outputs -/

/-- The market of an output is there and has its token. -/
def Pays (markets : SwapMarkets) (direction : SwapDirection) (place : Pubkey)
    (output : Output) : Prop :=
  ∃ market, marketAt markets direction place = .ok market ∧
    (output.amount ≠ 0 → market.marketMeta.HasToken output.token)

omit [Model.MarketNum] in
theorem pays_of_ready {metas : List MarketMeta} {output : Output} {tokenIn : Pubkey}
    (hknows : ∀ m ∈ metas, Route.Knows ⟨markets, direction, 0, 0⟩ m)
    (hready : output.amount ≠ 0 →
      SideReady direction metas tokenIn output.token) :
    Pays markets direction
      (outputMarketToken direction (metas.map MarketMeta.marketTokenMint))
      output := by
  unfold Pays outputMarketToken marketAt
  by_cases hinto : direction.isInto = true
  · rw [if_pos hinto, if_pos rfl]
    exact ⟨_, rfl, fun hamount => (hready hamount).into_current hinto⟩
  rw [if_neg hinto]
  rcases List.eq_nil_or_concat metas with rfl | ⟨front, last, rfl⟩
  · refine ⟨_, if_pos rfl, fun hamount => ?_⟩
    have hside := hready hamount
    have hsame := hside.continues
    have hfrom := hside.from_current (Bool.eq_false_iff.mpr hinto)
    generalize output.token = token at hsame ⊢
    cases hsame
    exact hfrom
  · rw [List.concat_eq_append] at hknows hready ⊢
    have hlast := hknows last (List.mem_append_right _ List.mem_cons_self)
    have hhas : output.amount ≠ 0 → last.HasToken output.token :=
      fun hamount => (hready hamount).continues.hasToken_last
    rw [List.map_append, List.map_singleton, List.getLast?_concat, Option.getD_some]
    by_cases hcurrent : last.marketTokenMint = direction.current
    · refine ⟨_, if_pos hcurrent, ?_⟩
      rw [← hlast.current_eq hcurrent]
      exact hhas
    · obtain ⟨market, hget, hmeta⟩ := hlast.sound_get hcurrent
      refine ⟨market, (if_neg hcurrent).trans (okOr_eq_ok.mpr hget), ?_⟩
      rw [hmeta]
      exact hhas

omit [Model.MarketNum] in
theorem sound_exclude {market : RevertibleMarket} {output : Output}
    (hhas : output.amount ≠ 0 → market.marketMeta.HasToken output.token)
    (excluding : ℕ × ℕ) :
    Sound (market.exclude output.token output.amount excluding) := by
  unfold RevertibleMarket.exclude
  split_ifs with hzero
  · exact failsOnly_ok excluding
  · refine (sound_toTokenSide (hhas hzero)).bind fun side _ => ?_
    cases side with
    | true => exact (sound_ensure (by decide)).bind fun _ _ => failsOnly_ok _
    | false => exact (sound_ensure (by decide)).bind fun _ _ => failsOnly_ok _

theorem sound_validateOutputMarket {place : Pubkey} {first second : Output}
    (hfirst : Pays markets direction place first)
    (hsecond : Pays markets direction place second) :
    Sound (validateOutputMarket markets direction place first second) := by
  obtain ⟨market, hmarket, hhasFirst⟩ := hfirst
  obtain ⟨other, hother, hhasSecond⟩ := hsecond
  obtain rfl : market = other := Except.ok.inj (hmarket.symm.trans hother)
  unfold validateOutputMarket
  rw [hmarket]
  refine (failsOnly_ok market).bind fun found hfound => ?_
  obtain rfl : market = found := Except.ok.inj hfound
  refine (sound_exclude hhasFirst (0, 0)).bind fun _ _ => ?_
  refine (sound_exclude hhasSecond _).bind fun _ _ => ?_
  exact sound_validateMarketBalances market _ _

omit [Model.MarketNum] in
theorem Pays.zero {place token : Pubkey} {output : Output}
    (hpays : Pays markets direction place output) :
    Pays markets direction place ⟨token, 0⟩ := by
  obtain ⟨market, hmarket, _⟩ := hpays
  exact ⟨market, hmarket, fun hzero => absurd rfl hzero⟩

theorem sound_validateOutputs {longMarket shortMarket : Pubkey} {long short : Output}
    (hlong : Pays markets direction longMarket long)
    (hshort : Pays markets direction shortMarket short) :
    Sound (validateOutputs markets direction longMarket shortMarket long short) := by
  have hmarkets : Sound (validateOutputMarkets markets direction longMarket
      shortMarket long short) := by
    unfold validateOutputMarkets
    split_ifs with hsame
    · exact sound_validateOutputMarket hlong (hsame ▸ hshort)
    · refine (sound_validateOutputMarket hlong hlong.zero).bind fun _ _ => ?_
      exact sound_validateOutputMarket hshort hshort.zero
  refine hmarkets.bind fun _ _ => ?_
  unfold validateCurrent
  split_ifs
  · exact failsOnly_ok ()
  · exact sound_validateMarketBalances _ 0 0

/-! ## Both sides -/

/-- What a side was created for, if it has an amount to swap. -/
def SideChecked (direction : SwapDirection) (metas : List MarketMeta)
    (input : Option Output) (expectedTokenOut : Pubkey) : Prop :=
  ∀ taken, input = some taken →
    SideReady direction metas taken.token expectedTokenOut

/-- A side that has an amount to swap does not have the current market in the
middle of its path. -/
def NotBlocked (current : Pubkey) (path : List Pubkey) (input : Option Output) :
    Prop :=
  input.isSome = true → ¬InTheMiddle current path

instance (current : Pubkey) (path : List Pubkey) (input : Option Output) :
    Decidable (NotBlocked current path input) :=
  inferInstanceAs (Decidable (input.isSome = true → ¬InTheMiddle current path))

/-- The markets of a path, as they are supplied to the execution. -/
structure Supplied (markets : SwapMarkets) (direction : SwapDirection)
    (path : List Pubkey) (metas : List MarketMeta) : Prop where
  path_eq : path = metas.map MarketMeta.marketTokenMint
  nodup : path.Nodup
  knows : ∀ m ∈ metas, Route.Knows ⟨markets, direction, 0, 0⟩ m

theorem amount_of_swapSide {path : List Pubkey} {expectedTokenOut : Pubkey}
    {tokenIn : Option Pubkey} {amount : ℕ} {outcome : SideOutcome}
    (hswap : swapSide oracle path expectedTokenOut tokenIn amount markets direction =
      .ok outcome) (hamount : outcome.amount ≠ 0) :
    ∃ input, sideInput tokenIn amount = some input := by
  have hisSome := (swapSide_moves hswap).output_isSome
  apply Option.isSome_iff_exists.mp
  rw [← hisSome]
  unfold SideOutcome.amount at hamount
  cases houtput : outcome.output with
  | none =>
      rw [houtput] at hamount
      exact absurd rfl hamount
  | some output => rfl

omit [Model.MarketNum] in
theorem pays_of_swapSide {metas : List MarketMeta} {after : SideOutcome}
    {expectedTokenOut : Pubkey} {tokenIn : Option Pubkey} {amount paid : ℕ}
    (hkept : Route.Kept ⟨markets, direction, 0, 0⟩
      ⟨after.markets, after.direction, 0, 0⟩)
    (hknows : ∀ m ∈ metas, Route.Knows ⟨markets, direction, 0, 0⟩ m)
    (hchecked : SideChecked direction metas (sideInput tokenIn amount)
      expectedTokenOut)
    (hpaid : paid ≠ 0 → ∃ input, sideInput tokenIn amount = some input) :
    Pays after.markets after.direction
      (outputMarketToken after.direction (metas.map MarketMeta.marketTokenMint))
      ⟨expectedTokenOut, paid⟩ := by
  by_cases hzero : paid = 0
  · exact @pays_of_ready after.markets after.direction metas _ 0
      (fun m hm => hkept.knows (hknows m hm)) fun hamount => absurd hzero hamount
  · obtain ⟨input, hinput⟩ := hpaid hzero
    exact @pays_of_ready after.markets after.direction metas _ input.token
      (fun m hm => hkept.knows (hknows m hm)) fun _ =>
      (hchecked input hinput).kept hkept

variable {params : SwapActionParams} {expectedTokenOuts : Pubkey × Pubkey}
  {tokenIns : Option Pubkey × Option Pubkey} {tokenInAmounts : ℕ × ℕ}
  {primary secondary : List MarketMeta}

/-- Without a blocked side a swap fails for no structural reason. -/
theorem sound_revertibleSwap
    (hapart : Route.CurrentApart ⟨markets, direction, 0, 0⟩)
    (hprimary : Supplied markets direction params.primarySwapPath primary)
    (hsecondary : Supplied markets direction params.secondarySwapPath secondary)
    (hlong : SideChecked direction primary
      (sideInput tokenIns.1 tokenInAmounts.1) expectedTokenOuts.1)
    (hshort : SideChecked direction secondary
      (sideInput tokenIns.2 tokenInAmounts.2) expectedTokenOuts.2)
    (hlongFree : NotBlocked direction.current params.primarySwapPath
      (sideInput tokenIns.1 tokenInAmounts.1))
    (hshortFree : NotBlocked direction.current params.secondarySwapPath
      (sideInput tokenIns.2 tokenInAmounts.2)) :
    Sound (revertibleSwap oracle markets direction params expectedTokenOuts
      tokenIns tokenInAmounts) := by
  unfold revertibleSwap SwapActionParams.validatedPrimarySwapPath
    SwapActionParams.validatedSecondarySwapPath
  rw [ensure_of hprimary.nodup, ensure_of hsecondary.nodup]
  rw [hprimary.path_eq] at hlongFree ⊢
  rw [hsecondary.path_eq] at hshortFree ⊢
  refine (failsOnly_ok _).bind fun longPath hlongPath => ?_
  obtain rfl : _ = longPath := Except.ok.inj hlongPath
  refine (sound_swapSide hapart hprimary.knows fun input hinput =>
    ⟨hlong input hinput, hlongFree (by rw [hinput]; rfl)⟩).bind fun long hswapLong => ?_
  have hkeptLong := swapSide_kept hswapLong 0 0
  refine (failsOnly_ok _).bind fun shortPath hshortPath => ?_
  obtain rfl : _ = shortPath := Except.ok.inj hshortPath
  have hsoundShort : Sound (swapSide oracle
      (secondary.map MarketMeta.marketTokenMint) expectedTokenOuts.2 tokenIns.2
      tokenInAmounts.2 long.markets long.direction) := by
    apply sound_swapSide (hkeptLong.currentApart hapart)
    · exact fun m hm => hkeptLong.knows (hsecondary.knows m hm)
    · intro input hinput
      have hcurrent : long.direction.current = direction.current := hkeptLong.current
      rw [hcurrent]
      exact ⟨(hshort input hinput).kept hkeptLong,
        hshortFree (by rw [hinput]; rfl)⟩
  refine hsoundShort.bind fun short hswapShort => ?_
  have hkept := hkeptLong.trans (swapSide_kept hswapShort 0 0)
  refine FailsOnly.bind ?_ fun _ _ => failsOnly_ok _
  apply sound_validateOutputs
  · exact pays_of_swapSide hkept hprimary.knows hlong (amount_of_swapSide hswapLong)
  · exact pays_of_swapSide hkept hsecondary.knows hshort
      (amount_of_swapSide hswapShort)

/-- A swap that succeeds has no blocked side. -/
theorem notBlocked_of_revertibleSwap {swapped : Swapped}
    (hswap : revertibleSwap oracle markets direction params expectedTokenOuts
      tokenIns tokenInAmounts = .ok swapped) :
    NotBlocked direction.current params.primarySwapPath
        (sideInput tokenIns.1 tokenInAmounts.1) ∧
      NotBlocked direction.current params.secondarySwapPath
        (sideInput tokenIns.2 tokenInAmounts.2) := by
  obtain ⟨long, short, hlong, hshort, -, rfl⟩ := revertibleSwap_sides hswap
  refine ⟨not_inTheMiddle_of_swapSide hlong, fun htaken => ?_⟩
  have hcurrent : long.direction.current = direction.current :=
    (swapSide_kept hlong 0 0).current
  rw [← hcurrent]
  exact not_inTheMiddle_of_swapSide hshort htaken

end Sides

/-! ## Supplying the markets -/

theorem insertMarket_eq_ok {store : Pubkey} {currentMarketToken : Option Pubkey}
    {before after : SwapMarkets} {loader : RevertibleMarket}
    (hinsert : SwapMarkets.insertMarket store currentMarketToken before loader =
      .ok after) :
    currentMarketToken ≠ some loader.key ∧
      before.get loader.key = none ∧ ∀ key, after.get key =
        if key = loader.key then some loader else before.get key := by
  simp only [SwapMarkets.insertMarket, bind_eq_ok, ensure_eq_ok] at hinsert
  obtain ⟨_, hcurrent, hinsert⟩ := hinsert
  split at hinsert
  · rename_i hvacant
    simp only [bind_eq_ok, pure_eq_ok] at hinsert
    obtain ⟨_, _, rfl⟩ := hinsert
    exact ⟨hcurrent, IndexMap.get_eq_none.mpr hvacant,
      fun key => IndexMap.get_insertVacant _ _ _ _ hvacant⟩
  · exact absurd hinsert (by simp)

theorem insertMarkets_eq_ok {store currentToken : Pubkey}
    {loaders : List RevertibleMarket} {before after : SwapMarkets}
    (hinsert : loaders.foldlM (SwapMarkets.insertMarket store (some currentToken))
      before = .ok after) :
    (before.get currentToken = none → after.get currentToken = none) ∧
      (∀ key market, before.get key = some market → after.get key = some market) ∧
      ∀ loader ∈ loaders, after.get loader.key = some loader := by
  induction loaders generalizing before with
  | nil =>
      obtain rfl : before = after := by simpa [pure, Except.pure] using hinsert
      exact ⟨fun hnone => hnone, fun _ _ hget => hget, by simp⟩
  | cons loader rest ih =>
      rw [List.foldlM_cons, bind_eq_ok] at hinsert
      obtain ⟨middle, hfirst, hrest⟩ := hinsert
      obtain ⟨hcurrent, hvacant, hget⟩ := insertMarket_eq_ok hfirst
      obtain ⟨hnone, hkept, hloaded⟩ := ih hrest
      refine ⟨fun hbefore => hnone ?_, fun key market hbefore => hkept key market ?_,
        fun other hother => ?_⟩
      · rw [hget, if_neg fun heq => hcurrent (congrArg some heq)]
        exact hbefore
      · rw [hget, if_neg ?_]
        · exact hbefore
        · rintro rfl
          rw [hvacant] at hbefore
          exact absurd hbefore (by simp)
      · rcases List.mem_cons.mp hother with rfl | hmem
        · apply hkept
          rw [hget, if_pos rfl]
        · exact hloaded other hmem

/-- The markets of the paths are supplied again: the current market as it is
now, and all other ones among the loaders. -/
structure Resupplied (market later : RevertibleMarket)
    (loaders : List RevertibleMarket) (paths : List AccountInfo) : Prop where
  current_eq : later.marketMeta = market.marketMeta
  same : ∀ account, some account ∈ paths → account.key = market.key →
    account.marketMeta = market.marketMeta
  loaded : ∀ account, some account ∈ paths → account.key ≠ market.key →
    ∃ loader ∈ loaders, loader.marketMeta = account.marketMeta

theorem ValidPath.supplied {path : List AccountInfo} {tokens : List Pubkey}
    {found : List RevertibleMarket} {tokenIn tokenOut : Pubkey}
    (hvalid : ValidPath path found tokenIn tokenOut)
    (htokens : tokens = found.map RevertibleMarket.key)
    {market later : RevertibleMarket} {loaders : List RevertibleMarket}
    {paths : List AccountInfo} (hsubset : ∀ info ∈ path, info ∈ paths)
    (hagain : Resupplied market later loaders paths) {markets : SwapMarkets}
    (hloaded : ∀ loader ∈ loaders, markets.get loader.key = some loader)
    (isInto : Bool) :
    Supplied markets ⟨isInto, later⟩ tokens
      (found.map RevertibleMarket.marketMeta) where
  path_eq := by
    rw [htokens, List.map_map]
    rfl
  nodup := htokens ▸ hvalid.nodup
  knows m hm := by
    obtain ⟨account, haccount, rfl⟩ := List.mem_map.mp hm
    have hin : some account ∈ paths := by
      apply hsubset
      rw [hvalid.path_eq]
      exact List.mem_map_of_mem haccount
    have hkey : SwapDirection.current ⟨isInto, later⟩ = market.key :=
      congrArg MarketMeta.marketTokenMint hagain.current_eq
    constructor
    · intro hcurrent
      exact (hagain.same account hin (hcurrent.trans hkey)).trans
        hagain.current_eq.symm
    · intro hother
      obtain ⟨loader, hloader, hmeta⟩ :=
        hagain.loaded account hin fun heq => hother (heq.trans hkey.symm)
      unfold Route.metaAt
      rw [← hmeta]
      exact congrArg (Option.map RevertibleMarket.marketMeta) (hloaded loader hloader)

/-! ## Accepted actions -/

namespace SwapAction

variable {action : SwapAction} {market : RevertibleMarket}
  {swapped : Option Pubkey × Option Pubkey} {amounts : ℕ × ℕ}

theorem sideInput_eq_some {tokenIn : Option Pubkey} {amount : ℕ} {input : Output}
    (hinput : sideInput tokenIn amount = some input) :
    tokenIn = some input.token ∧ amount ≠ 0 := by
  unfold sideInput at hinput
  obtain ⟨token, htoken, rfl⟩ := Option.map_eq_some_iff.mp hinput
  obtain ⟨hsome, hamount⟩ := Option.filter_eq_some_iff.mp htoken
  exact ⟨hsome, of_decide_eq_true hamount⟩

/-- The collateral token of a decrease is its output token. -/
theorem pnlToken_toTokenSide {marketMeta : MarketMeta} {isLong side : Bool}
    (hside : marketMeta.toTokenSide (marketMeta.pnlToken isLong) = .ok side) :
    marketMeta.pnlToken side = marketMeta.pnlToken isLong :=
  (MarketMeta.toTokenSide_eq_ok hside).1.symm

theorem primary_checked
    (hvalidate : action.validateParamsExcludingSwap market.marketMeta = .ok ())
    (hswapped : action.swappedIns market.marketMeta = .ok swapped)
    {metas : List MarketMeta} (hnodup : (metas.map MarketMeta.marketTokenMint).Nodup)
    (hcontinues : Continues (action.tokenIns market.marketMeta).1 metas
      (action.tokenOuts market.marketMeta).1) :
    SideChecked ⟨action.isInto, market⟩ metas (sideInput swapped.1 amounts.1)
      (action.expectedTokenOuts market.marketMeta).1 := by
  intro input hinput
  obtain ⟨htoken, _⟩ := sideInput_eq_some hinput
  cases action with
  | swapOrder initialCollateral finalOutput =>
      obtain rfl : _ = swapped := Except.ok.inj hswapped
      obtain rfl : initialCollateral = input.token := Option.some.inj htoken
      refine ⟨hcontinues, hnodup, fun _ => ?_, fun hfrom => absurd hfrom (by simp [isInto])⟩
      exact MarketMeta.hasToken_of_isCollateralToken (ensure_eq_ok.mp hvalidate)
  | increaseOrder initialCollateral isCollateralLong =>
      obtain rfl : _ = swapped := Except.ok.inj hswapped
      obtain rfl : initialCollateral = input.token := Option.some.inj htoken
      exact ⟨hcontinues, hnodup, fun _ => market.marketMeta.hasToken_pnlToken _,
        fun hfrom => absurd hfrom (by simp [isInto])⟩
  | decreaseOrder isLong isCollateralLong finalOutput =>
      simp only [swappedIns, bind_eq_ok, pure_eq_ok] at hswapped
      obtain ⟨side, hside, rfl⟩ := hswapped
      rw [← Option.some.inj htoken, pnlToken_toTokenSide hside]
      exact ⟨hcontinues, hnodup, fun hinto => absurd hinto (by simp [isInto]),
        fun _ => market.marketMeta.hasToken_pnlToken _⟩
  | deposit initialLong initialShort =>
      obtain rfl : _ = swapped := Except.ok.inj hswapped
      obtain rfl : initialLong = some input.token := htoken
      exact ⟨hcontinues, hnodup, fun _ => market.marketMeta.hasToken_pnlToken true,
        fun hfrom => absurd hfrom (by simp [isInto])⟩
  | withdrawal finalLong finalShort =>
      obtain rfl : _ = swapped := Except.ok.inj hswapped
      rw [← Option.some.inj htoken]
      exact ⟨hcontinues, hnodup, fun hinto => absurd hinto (by simp [isInto]),
        fun _ => market.marketMeta.hasToken_pnlToken true⟩

theorem secondary_checked
    (hamounts : action.validateAmounts market.marketMeta amounts = .ok ())
    (hswapped : action.swappedIns market.marketMeta = .ok swapped)
    {requested : ℕ} {metas : List MarketMeta}
    (hlength : metas.length ≤ action.secondaryLength requested)
    (hnodup : (metas.map MarketMeta.marketTokenMint).Nodup)
    (hcontinues : Continues (action.tokenIns market.marketMeta).2 metas
      (action.tokenOuts market.marketMeta).2) :
    SideChecked ⟨action.isInto, market⟩ metas (sideInput swapped.2 amounts.2)
      (action.expectedTokenOuts market.marketMeta).2 := by
  intro input hinput
  obtain ⟨htoken, hamount⟩ := sideInput_eq_some hinput
  cases action with
  | swapOrder initialCollateral finalOutput =>
      obtain rfl : _ = swapped := Except.ok.inj hswapped
      exact absurd htoken (by simp)
  | increaseOrder initialCollateral isCollateralLong =>
      obtain rfl : _ = swapped := Except.ok.inj hswapped
      exact absurd htoken (by simp)
  | decreaseOrder isLong isCollateralLong finalOutput =>
      simp only [swappedIns, validateAmounts, bind_eq_ok, ensure_eq_ok,
        pure_eq_ok] at hswapped hamounts
      obtain ⟨side, hside, rfl⟩ := hswapped
      obtain ⟨other, hother, hmerged⟩ := hamounts
      obtain rfl : side = other := Except.ok.inj (hside.symm.trans hother)
      have hopposite : isLong = !side := by
        rcases hmerged with hzero | hdiffer
        · exact absurd hzero hamount
        · exact Bool.eq_not_of_ne (Ne.symm hdiffer)
      obtain rfl : metas = [] := List.eq_nil_of_length_eq_zero (Nat.le_zero.mp hlength)
      rw [← Option.some.inj htoken]
      subst hopposite
      exact ⟨.nil _, List.nodup_nil, fun hinto => absurd hinto (by simp [isInto]),
        fun _ => market.marketMeta.hasToken_pnlToken _⟩
  | deposit initialLong initialShort =>
      obtain rfl : _ = swapped := Except.ok.inj hswapped
      obtain rfl : initialShort = some input.token := htoken
      exact ⟨hcontinues, hnodup, fun _ => market.marketMeta.hasToken_pnlToken false,
        fun hfrom => absurd hfrom (by simp [isInto])⟩
  | withdrawal finalLong finalShort =>
      obtain rfl : _ = swapped := Except.ok.inj hswapped
      rw [← Option.some.inj htoken]
      exact ⟨hcontinues, hnodup, fun hinto => absurd hinto (by simp [isInto]),
        fun _ => market.marketMeta.hasToken_pnlToken false⟩

/-- The sides that have an amount to swap. -/
def swapsIn (amounts : ℕ × ℕ) : SwapAction → Bool × Bool
  | .swapOrder _ _ | .increaseOrder _ _ => (amounts.1 != 0, false)
  | .decreaseOrder _ _ _ | .withdrawal _ _ => (amounts.1 != 0, amounts.2 != 0)
  | .deposit initialLong initialShort =>
    (initialLong.isSome && amounts.1 != 0, initialShort.isSome && amounts.2 != 0)

theorem sideInput_isSome (tokenIn : Option Pubkey) (amount : ℕ) :
    (sideInput tokenIn amount).isSome = (tokenIn.isSome && amount != 0) := by
  unfold sideInput
  cases tokenIn with
  | none => rfl
  | some token => by_cases hzero : amount = 0 <;> simp [hzero]

theorem swapsIn_eq {marketMeta : MarketMeta}
    (hswapped : action.swappedIns marketMeta = .ok swapped) :
    action.swapsIn amounts = ((sideInput swapped.1 amounts.1).isSome,
      (sideInput swapped.2 amounts.2).isSome) := by
  rw [sideInput_isSome, sideInput_isSome]
  cases action with
  | swapOrder initialCollateral finalOutput =>
      obtain rfl : _ = swapped := Except.ok.inj hswapped
      rfl
  | increaseOrder initialCollateral isCollateralLong =>
      obtain rfl : _ = swapped := Except.ok.inj hswapped
      rfl
  | decreaseOrder isLong isCollateralLong finalOutput =>
      simp only [swappedIns, bind_eq_ok, pure_eq_ok] at hswapped
      obtain ⟨_, _, rfl⟩ := hswapped
      rfl
  | deposit initialLong initialShort =>
      obtain rfl : _ = swapped := Except.ok.inj hswapped
      rfl
  | withdrawal finalLong finalShort =>
      obtain rfl : _ = swapped := Except.ok.inj hswapped
      rfl

end SwapAction

/-- The market tokens of the market accounts among the given ones. -/
def marketTokens (accounts : List AccountInfo) : List Pubkey :=
  accounts.reduceOption.map RevertibleMarket.key

theorem reduceOption_map_some (found : List RevertibleMarket) :
    (found.map some).reduceOption = found := by
  induction found with
  | nil => rfl
  | cons market rest ih => rw [List.map_cons, List.reduceOption_cons_of_some, ih]

theorem ValidPath.marketTokens_eq {path : List AccountInfo}
    {found : List RevertibleMarket} {tokenIn tokenOut : Pubkey}
    (hvalid : ValidPath path found tokenIn tokenOut) :
    marketTokens path = found.map RevertibleMarket.key := by
  have hreduce : (found.map some).reduceOption = found := reduceOption_map_some found
  unfold marketTokens
  rw [hvalid.path_eq, hreduce]

/-- The execution succeeds and pays out the given tokens. -/
def ExecutesTo (result : Store.Result Swapped) (tokenOuts : Pubkey × Pubkey) : Prop :=
  ∃ swapped, result = .ok swapped ∧
    (∀ output, swapped.long = some output → output.token = tokenOuts.1) ∧
    ∀ output, swapped.short = some output → output.token = tokenOuts.2

/-- The tokens of the current market and of all markets of the paths. -/
def RecordsTokens (params : SwapActionParams) (market : RevertibleMarket)
    (paths : List AccountInfo) : Prop :=
  ∀ account, account = market ∨ some account ∈ paths →
    ∀ token ∈ account.marketMeta.orderedTokens, token ∈ params.tokenSet

theorem Accepted.recordsTokens {market : RevertibleMarket}
    {primaryLength secondaryLength : ℕ} {paths : List AccountInfo}
    {tokenIns tokenOuts : Pubkey × Pubkey} {params : SwapActionParams}
    {primary secondary : List RevertibleMarket}
    (haccepted : Accepted market.marketMeta primaryLength secondaryLength paths
      tokenIns tokenOuts params primary secondary) :
    RecordsTokens params market (paths.take (primaryLength + secondaryLength)) := by
  intro account haccount token htoken
  apply haccepted.tokens_recorded
  rcases haccount with rfl | hin
  · exact Or.inl htoken
  · refine Or.inr ⟨account, ?_, htoken⟩
    rw [← List.take_append_drop primaryLength
      (paths.take (primaryLength + secondaryLength)), List.take_take,
      min_eq_left (Nat.le_add_right _ _), haccepted.primary_valid.path_eq,
      haccepted.secondary_valid.path_eq, ← List.map_append] at hin
    obtain ⟨found, hfound, heq⟩ := List.mem_map.mp hin
    rwa [← Option.some.inj heq]

section Accepted

variable [Model.MarketNum] {oracle : Oracle} {addresses : Addresses}
  {action : SwapAction} {initial params : SwapActionParams}
  {market later : RevertibleMarket} {primaryLength requestedLength : ℕ}
  {paths : List AccountInfo} {store : Pubkey} {loaders : List RevertibleMarket}
  {markets : SwapMarkets} {amounts : ℕ × ℕ}

omit [Model.MarketNum] in
theorem sound_swappedIns (marketMeta : MarketMeta) :
    Sound (action.swappedIns marketMeta) := by
  cases action with
  | decreaseOrder isLong isCollateralLong finalOutput =>
      exact (sound_toTokenSide (marketMeta.hasToken_pnlToken _)).bind
        fun _ _ => failsOnly_ok _
  | _ => exact failsOnly_ok _

omit [Model.MarketNum] in
theorem sound_validateAmounts (marketMeta : MarketMeta) :
    Sound (action.validateAmounts marketMeta amounts) := by
  cases action with
  | decreaseOrder isLong isCollateralLong finalOutput =>
      exact (sound_toTokenSide (marketMeta.hasToken_pnlToken _)).bind
        fun _ _ => sound_ensure (by decide)
  | _ => exact failsOnly_ok _

/-- Without a blocked side an accepted action fails for no structural reason. -/
theorem sound_execute {primary secondary : List RevertibleMarket}
    (hvalidate : action.validateParamsExcludingSwap later.marketMeta = .ok ())
    (haccepted : Accepted later.marketMeta primaryLength
      (action.secondaryLength requestedLength) paths
      (action.tokenIns later.marketMeta) (action.tokenOuts later.marketMeta) params
      primary secondary)
    (hapart : Route.CurrentApart ⟨markets, ⟨action.isInto, later⟩, 0, 0⟩)
    (hprimary : Supplied markets ⟨action.isInto, later⟩ params.primarySwapPath
      (primary.map RevertibleMarket.marketMeta))
    (hsecondary : Supplied markets ⟨action.isInto, later⟩ params.secondarySwapPath
      (secondary.map RevertibleMarket.marketMeta))
    (hlongFree : (action.swapsIn amounts).1 = true →
      ¬InTheMiddle later.key params.primarySwapPath)
    (hshortFree : (action.swapsIn amounts).2 = true →
      ¬InTheMiddle later.key params.secondarySwapPath) :
    Sound (action.execute oracle markets later params amounts) := by
  refine (sound_validateAmounts _).bind fun checked hamounts => ?_
  refine (sound_swappedIns _).bind fun swapped hswapped => ?_
  rw [SwapAction.swapsIn_eq hswapped] at hlongFree hshortFree
  apply sound_revertibleSwap hapart hprimary hsecondary
  · exact SwapAction.primary_checked hvalidate hswapped
      (hprimary.path_eq ▸ hprimary.nodup) haccepted.primary_valid.continues
  · have hlength : (secondary.map RevertibleMarket.marketMeta).length ≤
        action.secondaryLength requestedLength := by
      rw [List.length_map, haccepted.secondary_valid.length_eq, List.length_drop,
        List.length_take]
      omega
    exact SwapAction.secondary_checked hamounts hswapped hlength
      (hsecondary.path_eq ▸ hsecondary.nodup) haccepted.secondary_valid.continues
  · exact hlongFree
  · exact hshortFree

/-- Unless an operation fails, an accepted action is executed and has recorded
its tokens exactly when no side that is swapped has the current market between
two other ones. -/
theorem accepted_action_executes_iff
    (hcreate : action.create addresses initial market primaryLength
      requestedLength paths store = .ok params)
    (hagain : Resupplied market later loaders
      (paths.take (primaryLength + action.secondaryLength requestedLength)))
    (hmarkets : SwapMarkets.new store loaders (some market.key) = .ok markets)
    (hoperations : ∀ stopped, action.execute oracle markets later params amounts =
      .error stopped → IsStructural stopped) :
    (ExecutesTo (action.execute oracle markets later params amounts)
        (action.expectedTokenOuts market.marketMeta) ∧
      RecordsTokens params market
        (paths.take (primaryLength + action.secondaryLength requestedLength))) ↔
      ((action.swapsIn amounts).1 = true →
        ¬InTheMiddle market.key (marketTokens (paths.take primaryLength))) ∧
      ((action.swapsIn amounts).2 = true →
        ¬InTheMiddle market.key (marketTokens
          ((paths.take (primaryLength +
            action.secondaryLength requestedLength)).drop primaryLength))) := by
  obtain ⟨hvalidate, primary, secondary, haccepted⟩ := create_eq_ok hcreate
  obtain ⟨hnone, _, hloaded⟩ := insertMarkets_eq_ok hmarkets
  have hkey : later.key = market.key :=
    congrArg MarketMeta.marketTokenMint hagain.current_eq
  have hrecords := haccepted.recordsTokens
  have hprimary := haccepted.primary_valid.supplied haccepted.primary_eq
    (fun info hin => List.mem_of_mem_take (by
      rw [List.take_take, min_eq_left (Nat.le_add_right _ _)]
      exact hin)) hagain hloaded action.isInto
  have hsecondary := haccepted.secondary_valid.supplied haccepted.secondary_eq
    (fun info hin => List.mem_of_mem_drop hin) hagain hloaded action.isInto
  have hapart : Route.CurrentApart ⟨markets, ⟨action.isInto, later⟩, 0, 0⟩ := by
    apply Route.metaAt_eq_none.mpr
    change markets.get later.key = none
    rw [hkey]
    exact hnone rfl
  rw [haccepted.primary_valid.marketTokens_eq,
    haccepted.secondary_valid.marketTokens_eq, ← haccepted.primary_eq,
    ← haccepted.secondary_eq, ← hkey]
  rw [← hagain.current_eq] at hvalidate haccepted ⊢
  constructor
  · rintro ⟨⟨swapped, hexecute, _⟩, _⟩
    simp only [SwapAction.execute, bind_eq_ok] at hexecute
    obtain ⟨_, _, tokenIns, htokenIns, hswap⟩ := hexecute
    rw [SwapAction.swapsIn_eq htokenIns]
    exact notBlocked_of_revertibleSwap hswap
  · rintro ⟨hlongFree, hshortFree⟩
    have hsound : Sound (action.execute oracle markets later params amounts) :=
      sound_execute hvalidate haccepted hapart hprimary hsecondary hlongFree hshortFree
    refine ⟨?_, hrecords⟩
    cases hresult : action.execute oracle markets later params amounts with
    | error stopped => exact absurd (hoperations stopped hresult) (hsound stopped hresult)
    | ok swapped =>
        refine ⟨swapped, rfl, ?_⟩
        simp only [SwapAction.execute, bind_eq_ok] at hresult
        obtain ⟨_, _, tokenIns, _, hswap⟩ := hresult
        exact revertibleSwap_token hswap

end Accepted

/-! ## An order around its market -/

def sampleAddresses : Addresses := ⟨fun _ token => token⟩

/-- The tokens 1 and 2, and 100 of the token 1 that were received. -/
def beforeMarket : RevertibleMarket := sampleMarket ⟨200, 9, 1, 2⟩ 1100 1000

/-- The tokens 2 and 3. -/
def currentMarket : RevertibleMarket := sampleMarket ⟨100, 9, 2, 3⟩ 1000 1000

/-- The tokens 3 and 2. -/
def behindMarket : RevertibleMarket := sampleMarket ⟨300, 9, 3, 2⟩ 1000 1000

def aroundCurrent : List AccountInfo :=
  [some beforeMarket, some currentMarket, some behindMarket]

/-- Creates and executes an order that swaps 100 of the token 1; the markets
before and behind the current one are supplied. -/
def createAndExecute (finalOutput : Pubkey) (primaryLength : ℕ) :
    Store.Result (SwapActionParams × SwapMarkets × Store.Result Swapped) := do
  let params ← SwapAction.create sampleAddresses (.swapOrder 1 finalOutput)
    sampleParams currentMarket primaryLength 0 aroundCurrent 0
  let markets ← SwapMarkets.new 0 [beforeMarket, behindMarket] (some 100)
  return (params, markets, @SwapAction.execute Model.storeNumbers sampleOracle
    (.swapOrder 1 finalOutput) markets currentMarket params (100, 0))

theorem resupplied_aroundCurrent (count : ℕ) :
    Resupplied currentMarket currentMarket [beforeMarket, behindMarket]
      (aroundCurrent.take count) where
  current_eq := rfl
  same account haccount hkey := by
    have hin := List.mem_of_mem_take haccount
    simp only [aroundCurrent, List.mem_cons, Option.some.injEq, List.not_mem_nil,
      or_false] at hin
    rcases hin with rfl | rfl | rfl
    · exact absurd hkey (by decide)
    · rfl
    · exact absurd hkey (by decide)
  loaded account haccount hkey := by
    have hin := List.mem_of_mem_take haccount
    simp only [aroundCurrent, List.mem_cons, Option.some.injEq, List.not_mem_nil,
      or_false] at hin
    rcases hin with rfl | rfl | rfl
    · exact ⟨beforeMarket, by simp, rfl⟩
    · exact absurd rfl hkey
    · exact ⟨behindMarket, by simp, rfl⟩

theorem createAndExecute_eq_ok {finalOutput : Pubkey} {primaryLength : ℕ}
    {done : SwapActionParams × SwapMarkets × Store.Result Swapped}
    (hdone : createAndExecute finalOutput primaryLength = .ok done) :
    SwapAction.create sampleAddresses (.swapOrder 1 finalOutput) sampleParams
        currentMarket primaryLength 0 aroundCurrent 0 = .ok done.1 ∧
      SwapMarkets.new 0 [beforeMarket, behindMarket] (some currentMarket.key) =
        .ok done.2.1 ∧
      @SwapAction.execute Model.storeNumbers sampleOracle (.swapOrder 1 finalOutput)
        done.2.1 currentMarket done.1 (100, 0) = done.2.2 := by
  simp only [createAndExecute, bind_eq_ok, pure_eq_ok] at hdone
  obtain ⟨params, hparams, markets, hmarkets, rfl⟩ := hdone
  exact ⟨hparams, hmarkets, rfl⟩

theorem accepted_action_executes_to_current :
    ∃ params markets,
      ExecutesTo (@SwapAction.execute Model.storeNumbers sampleOracle
        (.swapOrder 1 3) markets currentMarket params (100, 0)) (3, 3) ∧
      RecordsTokens params currentMarket (aroundCurrent.take 2) := by
  obtain ⟨done, hdone, hok⟩ : ∃ done, createAndExecute 3 2 = .ok done ∧
      done.2.2.isOk = true := exists_ok_iff_any.mpr (by decide +kernel)
  obtain ⟨hcreate, hmarkets, hexecute⟩ := createAndExecute_eq_ok hdone
  obtain ⟨swapped, hswapped⟩ := exists_of_isOk hok
  refine ⟨done.1, done.2.1, ?_⟩
  apply (@accepted_action_executes_iff Model.storeNumbers _ _ _ _ _ _ _ _ _ _ _ _ _ _
    hcreate (resupplied_aroundCurrent _) hmarkets fun stopped hstopped => ?_).mpr
  · exact ⟨fun _ => by decide, fun _ => by decide⟩
  · rw [hexecute, hswapped] at hstopped
    exact absurd hstopped (by simp)

/-- The error of a failed swap. -/
def failure (result : Store.Result Swapped) : Option CoreError :=
  match result with
  | .error stopped => some stopped
  | .ok _ => none

theorem failure_eq_some {result : Store.Result Swapped} {stopped : CoreError}
    (hfailed : failure result = some stopped) : result = .error stopped := by
  cases result with
  | error other => exact congrArg Except.error (Option.some.inj hfailed)
  | ok swapped => exact absurd hfailed (by simp [failure])

/-- An order that was accepted, with all its markets supplied, for which the
current market is not found. -/
theorem accepted_action_not_executed :
    ∃ params markets,
      SwapAction.create sampleAddresses (.swapOrder 1 2) sampleParams currentMarket 3
          0 aroundCurrent 0 = .ok params ∧
        Resupplied currentMarket currentMarket [beforeMarket, behindMarket]
          (aroundCurrent.take 3) ∧
        SwapMarkets.new 0 [beforeMarket, behindMarket] (some currentMarket.key) =
          .ok markets ∧
        @SwapAction.execute Model.storeNumbers sampleOracle (.swapOrder 1 2) markets
          currentMarket params (100, 0) = .error .marketAccountIsNotProvided := by
  obtain ⟨done, hdone, hfailed⟩ : ∃ done, createAndExecute 2 3 = .ok done ∧
      failure done.2.2 = some .marketAccountIsNotProvided :=
    exists_ok_iff_any.mpr (by decide +kernel)
  obtain ⟨hcreate, hmarkets, hexecute⟩ := createAndExecute_eq_ok hdone
  refine ⟨done.1, done.2.1, hcreate, resupplied_aroundCurrent 3, hmarkets, ?_⟩
  rw [hexecute]
  exact failure_eq_some hfailed

end Gmsol.SwapPath
