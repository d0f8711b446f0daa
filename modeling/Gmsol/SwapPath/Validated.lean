import Gmsol.SwapPath.Actions

/-!
# Validated paths

What the creation of an action has checked of its two paths: they are paths of
different markets, each of which takes the token the one before it pays out, and
they can be read back from the parameters together with all their tokens.
-/

namespace Gmsol.SwapPath

open Fallible Container Store

/-- Markets that lead from one token to another. -/
inductive Continues : Pubkey → List MarketMeta → Pubkey → Prop
  | nil (token : Pubkey) : Continues token [] token
  | cons {tokenIn next tokenOut : Pubkey} {marketMeta : MarketMeta}
      {rest : List MarketMeta} (hnext : nextToken marketMeta tokenIn = .ok next)
      (hrest : Continues next rest tokenOut) :
      Continues tokenIn (marketMeta :: rest) tokenOut

/-- What is known of a path that was validated. -/
structure ValidPath (path : List AccountInfo) (markets : List RevertibleMarket)
    (tokenIn tokenOut : Pubkey) : Prop where
  path_eq : path = markets.map some
  nodup : (markets.map RevertibleMarket.key).Nodup
  continues : Continues tokenIn (markets.map RevertibleMarket.marketMeta) tokenOut

theorem validateStep_eq_ok {addresses : Addresses} {store : Pubkey}
    {before after : PathState} {info : AccountInfo}
    (hstep : validateStep addresses store before info = .ok after) :
    ∃ market, info = some market ∧ market.store = store ∧
      addresses.findMarketAddress store market.key ∉ before.seen ∧
      nextToken market.marketMeta before.current = .ok after.current ∧
      after.seen =
        insert (addresses.findMarketAddress store market.key) before.seen ∧
      after.tokens = before.tokens ∪ market.marketMeta.orderedTokens ∧
      after.validatedMarketTokens = before.validatedMarketTokens ++ [market.key] := by
  simp only [validateStep, unpackMarket, RevertibleMarket.validatedMeta,
    RevertibleMarket.validate, bind_eq_ok, okOr_eq_ok, ensure_eq_ok, pure_eq_ok]
    at hstep
  obtain ⟨market, hinfo, _, hseen, _, ⟨_, ⟨_, hstore, _⟩, rfl⟩, next, hnext, rfl⟩ :=
    hstep
  unfold Addresses.ofMarket at hseen ⊢
  rw [← hstore] at hseen ⊢
  exact ⟨market, hinfo, hstore.symm, hseen, hnext, rfl, rfl, rfl⟩

theorem validateSteps_eq_ok {addresses : Addresses} {store : Pubkey}
    {path : List AccountInfo} {before after : PathState}
    (hsteps : path.foldlM (validateStep addresses store) before = .ok after) :
    ∃ markets, ValidPath path markets before.current after.current ∧
      (∀ market ∈ markets,
        addresses.findMarketAddress store market.key ∉ before.seen) ∧
      before.tokens ⊆ after.tokens ∧
      (∀ market ∈ markets, market.marketMeta.orderedTokens ⊆ after.tokens) ∧
      after.validatedMarketTokens =
        before.validatedMarketTokens ++ markets.map RevertibleMarket.key := by
  induction path generalizing before with
  | nil =>
      obtain rfl : before = after := by simpa [pure, Except.pure] using hsteps
      exact ⟨[], ⟨rfl, List.nodup_nil, .nil _⟩, by simp, subset_rfl, by simp,
        (List.append_nil _).symm⟩
  | cons info rest ih =>
      rw [List.foldlM_cons, bind_eq_ok] at hsteps
      obtain ⟨middle, hstep, hrest⟩ := hsteps
      obtain ⟨market, rfl, _, hunseen, hnext, hseen, htokens, hvalidated⟩ :=
        validateStep_eq_ok hstep
      obtain ⟨markets, hvalid, hothers, hmore, hordered, htokensOf⟩ := ih hrest
      rw [hseen] at hothers
      rw [htokens] at hmore
      refine ⟨market :: markets, ⟨?_, ?_, .cons hnext hvalid.continues⟩, ?_, ?_, ?_, ?_⟩
      · rw [List.map_cons, hvalid.path_eq]
      · rw [List.map_cons, List.nodup_cons]
        refine ⟨fun hmem => ?_, hvalid.nodup⟩
        obtain ⟨other, hother, hkey⟩ := List.mem_map.mp hmem
        apply hothers other hother
        rw [hkey]
        exact Finset.mem_insert_self _ _
      · intro other hother
        rcases List.mem_cons.mp hother with rfl | hmem
        · exact hunseen
        · exact fun hseen => hothers other hmem (Finset.mem_insert_of_mem hseen)
      · exact Finset.union_subset_left hmore
      · intro other hother
        rcases List.mem_cons.mp hother with rfl | hmem
        · exact Finset.union_subset_right hmore
        · exact hordered other hmem
      · rw [htokensOf, hvalidated, List.append_assoc]
        rfl

theorem validatePath_eq_ok {addresses : Addresses} {tokens : Finset Pubkey}
    {path : List AccountInfo} {store tokenIn tokenOut : Pubkey}
    {done : Finset Pubkey × List Pubkey}
    (hvalidate : validatePath addresses tokens path store tokenIn tokenOut =
      .ok done) :
    ∃ markets, ValidPath path markets tokenIn tokenOut ∧ tokens ⊆ done.1 ∧
      (∀ market ∈ markets, market.marketMeta.orderedTokens ⊆ done.1) ∧
      done.2 = markets.map RevertibleMarket.key := by
  simp only [validatePath, bind_eq_ok, ensure_eq_ok, pure_eq_ok] at hvalidate
  obtain ⟨last, hsteps, _, rfl, rfl⟩ := hvalidate
  obtain ⟨markets, hvalid, _, hmore, hordered, htokens⟩ := validateSteps_eq_ok hsteps
  exact ⟨markets, hvalid, hmore, hordered, htokens⟩

/-! ## Reading the parameters back -/

theorem take_writeFront {N : ℕ} (values : List Pubkey) (slots : Vector Pubkey N)
    (hfits : values.length ≤ N) :
    (writeFront values slots).toList.take values.length = values := by
  apply List.ext_getElem
  · simpa using hfits
  · intro index hleft hright
    simp [writeFront, hright]

theorem take_of_append {values front back : List Pubkey}
    (hvalues : values.take (front ++ back).length = front ++ back) :
    values.take front.length = front ∧
      (values.drop front.length).take back.length = back := by
  rw [List.length_append] at hvalues
  constructor
  · have htake := congrArg (List.take front.length) hvalues
    rw [List.take_take, min_eq_left (Nat.le_add_right _ _), List.take_left] at htake
    exact htake
  · have hdrop := congrArg (List.drop front.length) hvalues
    rw [List.drop_left, List.drop_take, Nat.add_sub_cancel_left] at hdrop
    exact hdrop

/-- What the parameters of a created action say. -/
structure Accepted (marketMeta : MarketMeta) (primaryLength secondaryLength : ℕ)
    (paths : List AccountInfo) (tokenIns tokenOuts : Pubkey × Pubkey)
    (params : SwapActionParams) (primary secondary : List RevertibleMarket) :
    Prop where
  primary_valid : ValidPath (paths.take primaryLength) primary tokenIns.1 tokenOuts.1
  secondary_valid : ValidPath
    ((paths.take (primaryLength + secondaryLength)).drop primaryLength) secondary
    tokenIns.2 tokenOuts.2
  primary_eq : params.primarySwapPath = primary.map RevertibleMarket.key
  secondary_eq : params.secondarySwapPath = secondary.map RevertibleMarket.key
  tokens_recorded : ∀ token,
    (token ∈ marketMeta.orderedTokens ∨
      ∃ market ∈ primary ++ secondary, token ∈ market.marketMeta.orderedTokens) →
    token ∈ params.tokenSet

theorem ValidPath.length_eq {path : List AccountInfo}
    {markets : List RevertibleMarket} {tokenIn tokenOut : Pubkey}
    (hvalid : ValidPath path markets tokenIn tokenOut) :
    markets.length = path.length := by
  rw [hvalid.path_eq, List.length_map]

theorem validateAndInit_eq_ok {addresses : Addresses}
    {initial params : SwapActionParams} {marketMeta : MarketMeta}
    {primaryLength secondaryLength : ℕ} {paths : List AccountInfo} {store : Pubkey}
    {tokenIns tokenOuts : Pubkey × Pubkey}
    (hinit : initial.validateAndInit addresses marketMeta primaryLength
      secondaryLength paths store tokenIns tokenOuts = .ok params) :
    ∃ primary secondary, Accepted marketMeta primaryLength secondaryLength paths
      tokenIns tokenOuts params primary secondary := by
  simp only [SwapActionParams.validateAndInit, bind_eq_ok, ensure_eq_ok,
    pure_eq_ok] at hinit
  obtain ⟨_, hsteps, _, hlength, first, hfirst, second, hsecond, _, htokens, rfl⟩ :=
    hinit
  obtain ⟨primary, hprimary, hmore, hordered, hprimaryTokens⟩ :=
    validatePath_eq_ok hfirst
  obtain ⟨secondary, hsecondary, hmoreSecond, horderedSecond, hsecondaryTokens⟩ :=
    validatePath_eq_ok hsecond
  have hprimaryLength : (primary.map RevertibleMarket.key).length = primaryLength := by
    rw [List.length_map, hprimary.length_eq, List.length_take]
    omega
  have hsecondaryLength :
      (secondary.map RevertibleMarket.key).length = secondaryLength := by
    rw [List.length_map, hsecondary.length_eq, List.length_drop, List.length_take]
    omega
  have hpaths := take_of_append (take_writeFront
    (primary.map RevertibleMarket.key ++ secondary.map RevertibleMarket.key)
    initial.paths (by rw [List.length_append]; omega))
  rw [hprimaryLength, hsecondaryLength] at hpaths
  refine ⟨primary, secondary, hprimary, hsecondary, ?_, ?_, fun token hmem => ?_⟩
  · unfold SwapActionParams.primarySwapPath
    rw [hprimaryTokens, hsecondaryTokens]
    exact hpaths.1
  · unfold SwapActionParams.secondarySwapPath
    rw [hprimaryTokens, hsecondaryTokens]
    exact hpaths.2
  · unfold SwapActionParams.tokenSet
    rw [take_writeFront _ _ htokens, mem_inOrder]
    rcases hmem with hcurrent | ⟨market, hmarket, htoken⟩
    · exact hmoreSecond (hmore hcurrent)
    · rcases List.mem_append.mp hmarket with hin | hin
      · exact hmoreSecond (hordered market hin htoken)
      · exact horderedSecond market hin htoken

theorem create_eq_ok {addresses : Addresses} {action : SwapAction}
    {initial params : SwapActionParams} {market : RevertibleMarket}
    {primaryLength secondaryLength : ℕ} {paths : List AccountInfo} {store : Pubkey}
    (hcreate : action.create addresses initial market primaryLength secondaryLength
      paths store = .ok params) :
    action.validateParamsExcludingSwap market.marketMeta = .ok () ∧
      ∃ primary secondary, Accepted market.marketMeta primaryLength
        (action.secondaryLength secondaryLength) paths
        (action.tokenIns market.marketMeta) (action.tokenOuts market.marketMeta)
        params primary secondary := by
  simp only [SwapAction.create, bind_eq_ok] at hcreate
  obtain ⟨_, _, _, hvalidate, hinit⟩ := hcreate
  exact ⟨hvalidate, validateAndInit_eq_ok hinit⟩

end Gmsol.SwapPath
