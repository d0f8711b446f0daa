import Gmsol.System.Funding

/-!
# Solvency of a market

With every transfer recorded, the balance of a token is what the pools hold of
it plus the funding charged minus the funding credited.  Receivers are credited
when they settle, payers are charged when they settle, so the balance covers
the pools only together with the funding that is still pending.
-/

namespace Gmsol.Model

open Gmsol.Fallible Gmsol.System

/-- `after` differs from `before` at most in the recorded balances. -/
def Market.KeepsPools (before after : Market false) : Prop :=
  ∃ longTokenBalance shortTokenBalance,
    after = { before with longTokenBalance, shortTokenBalance }

namespace Market.KeepsPools

variable {before after : Market false}

theorem keepsAccounts (hkeeps : before.KeepsPools after) :
    before.KeepsAccounts after := by
  obtain ⟨_, _, rfl⟩ := hkeeps
  exact ⟨rfl, rfl, rfl, rfl⟩

theorem keepsFunding (hkeeps : before.KeepsPools after) :
    before.KeepsFunding after := by
  obtain ⟨_, _, rfl⟩ := hkeeps
  exact ⟨rfl, rfl⟩

theorem tokenTotal_eq (hkeeps : before.KeepsPools after) (token : Bool) :
    after.tokenTotal token = before.tokenTotal token := by
  obtain ⟨_, _, rfl⟩ := hkeeps
  rfl

theorem trans {last : Market false} (hleft : before.KeepsPools after)
    (hright : after.KeepsPools last) : before.KeepsPools last := by
  obtain ⟨_, _, rfl⟩ := hleft
  obtain ⟨_, _, rfl⟩ := hright
  exact ⟨_, _, rfl⟩

theorem eq_of_balance (hkeeps : before.KeepsPools after)
    (hbalance : ∀ token, after.balanceForToken token =
      before.balanceForToken token) : after = before := by
  obtain ⟨long, short, rfl⟩ := hkeeps
  obtain rfl : long = before.longTokenBalance := hbalance true
  obtain rfl : short = before.shortTokenBalance := hbalance false
  rfl

end Market.KeepsPools

namespace Market

variable {before after : Market false}

theorem KeepsBalances.balanceForToken_eq (hkeeps : before.KeepsBalances after)
    (token : Bool) :
    after.balanceForToken token = before.balanceForToken token := by
  unfold balanceForToken
  rw [hkeeps.longTokenBalance_eq, hkeeps.shortTokenBalance_eq]

theorem setBalanceForToken_keepsPools (side : Bool) (balance : ℕ) :
    before.KeepsPools (before.setBalanceForToken side balance) := by
  unfold setBalanceForToken
  split_ifs
  · exact ⟨_, _, rfl⟩
  · exact ⟨_, _, rfl⟩

theorem balanceForToken_setBalanceForToken (side token : Bool) (balance : ℕ) :
    (before.setBalanceForToken side balance).balanceForToken token =
      if token = side then balance else before.balanceForToken token := by
  cases side <;> cases token <;> rfl

theorem recordTransferredIn_eq_ok {side : Bool} {amount : ℕ}
    (hrecord : before.recordTransferredIn side amount = .ok after) :
    before.KeepsPools after ∧
      before.balanceForToken side + amount ≤ maxU64 ∧
      ∀ token, after.balanceForToken token =
        before.balanceForToken token + if token = side then amount else 0 := by
  simp only [recordTransferredIn, bind_eq_ok, ensure_eq_ok, pure_eq_ok] at hrecord
  obtain ⟨_, hfits, rfl⟩ := hrecord
  refine ⟨setBalanceForToken_keepsPools _ _, hfits, fun token => ?_⟩
  rw [balanceForToken_setBalanceForToken]
  split_ifs with hside
  · rw [hside]
  · rfl

theorem recordTransferredOut_eq_ok {side : Bool} {amount : ℕ}
    (hrecord : before.recordTransferredOut side amount = .ok after) :
    before.KeepsPools after ∧
      ∀ token, after.balanceForToken token +
        (if token = side then amount else 0) = before.balanceForToken token := by
  simp only [recordTransferredOut, bind_eq_ok, ensure_eq_ok, pure_eq_ok] at hrecord
  obtain ⟨_, henough, rfl⟩ := hrecord
  refine ⟨setBalanceForToken_keepsPools _ _, fun token => ?_⟩
  rw [balanceForToken_setBalanceForToken]
  split_ifs with hside
  · rw [hside, Nat.sub_add_cancel henough]
  · rfl

theorem recordBoth_in_eq_ok {amounts : Bool → ℕ}
    (hrecord : recordBoth recordTransferredIn before amounts = .ok after) :
    before.KeepsPools after ∧
      ∀ token, after.balanceForToken token =
          before.balanceForToken token + amounts token ∧
        after.balanceForToken token ≤ maxU64 := by
  simp only [recordBoth, bind_eq_ok] at hrecord
  obtain ⟨middle, hlong, hshort⟩ := hrecord
  obtain ⟨hkeepsLong, hfitsLong, hbalanceLong⟩ := recordTransferredIn_eq_ok hlong
  obtain ⟨hkeepsShort, hfitsShort, hbalanceShort⟩ := recordTransferredIn_eq_ok hshort
  refine ⟨hkeepsLong.trans hkeepsShort, fun token => ?_⟩
  rw [hbalanceShort, hbalanceLong]
  rw [hbalanceLong] at hfitsShort
  cases token
  · simpa using hfitsShort
  · simpa using hfitsLong

theorem recordBoth_out_eq_ok {amounts : Bool → ℕ}
    (hrecord : recordBoth recordTransferredOut before amounts = .ok after) :
    before.KeepsPools after ∧
      ∀ token, after.balanceForToken token + amounts token =
        before.balanceForToken token := by
  simp only [recordBoth, bind_eq_ok] at hrecord
  obtain ⟨middle, hlong, hshort⟩ := hrecord
  obtain ⟨hkeepsLong, hbalanceLong⟩ := recordTransferredOut_eq_ok hlong
  obtain ⟨hkeepsShort, hbalanceShort⟩ := recordTransferredOut_eq_ok hshort
  refine ⟨hkeepsLong.trans hkeepsShort, fun token => ?_⟩
  rw [← hbalanceLong, ← hbalanceShort]
  cases token <;> simp

section Validate

variable [MarketNum] {market : Market false}

omit market in
theorem checkedAdd_of_le_maxU64 {left right : ℕ} (hle : left + right ≤ maxU64) :
    checkedAdd left right = some (left + right) := by
  have hbits : maxU64 ≤ maxUnsigned :=
    Nat.sub_le_sub_right
      (Nat.pow_le_pow_right (by norm_num) MarketNum.holds_u64) 1
  exact checkedAdd_eq_some.mpr ⟨hle.trans hbits, rfl⟩

theorem validateMarketBalanceForTheGivenToken_of_le {token : Bool}
    (hcovered : market.tokenTotal token ≤ market.balanceForToken token)
    (hfits : market.balanceForToken token ≤ maxU64) :
    market.validateMarketBalanceForTheGivenToken token 0 = .ok () := by
  simp only [tokenTotal, poolTotal, collateralTotal, Pool.tokenAmount_mixed]
    at hcovered
  have himpact : checkedAdd (market.primary.amount token)
      (market.swapImpact.amount token) = some _ :=
    checkedAdd_of_le_maxU64 (by omega)
  have hfee : checkedAdd (market.primary.amount token +
      market.swapImpact.amount token) (market.claimableFee.amount token) =
        some _ := checkedAdd_of_le_maxU64 (by omega)
  have hcollateral : checkedAdd ((market.collateralSum.get true).amount token)
      ((market.collateralSum.get false).amount token) = some _ :=
    checkedAdd_of_le_maxU64 (by omega)
  have hpools : market.primary.amount token + market.swapImpact.amount token +
      market.claimableFee.amount token ≤ market.balanceForToken token := by omega
  have hsums : (market.collateralSum.get true).amount token +
      (market.collateralSum.get false).amount token ≤
        market.balanceForToken token := by omega
  simp [validateMarketBalanceForTheGivenToken, balanceExcluding, addOtherSide,
    expectedMinTokenBalanceExcludingCollateralAmountForOneTokenSide,
    totalCollateralAmountForOneTokenSide, himpact, hfee, hcollateral, hpools,
    hsums, okOr, ensure, bind, Except.bind]

/-- A balance that covers the tokens of the market passes all checks. -/
theorem validateMarketBalances_of_le
    (hcovered : ∀ token, market.tokenTotal token ≤ market.balanceForToken token)
    (hfits : ∀ token, market.balanceForToken token ≤ maxU64) :
    market.validateMarketBalances 0 0 = .ok () := by
  have hlong := validateMarketBalanceForTheGivenToken_of_le (hcovered true)
    (hfits true)
  have hshort := validateMarketBalanceForTheGivenToken_of_le (hcovered false)
    (hfits false)
  simp [validateMarketBalances, hlong, hshort, bind, Except.bind]

end Validate

end Market

end Gmsol.Model

namespace Gmsol.System

open Gmsol.Fallible Gmsol.Model

section Solvency

variable {ι : Type} [MarketNum] [DecidableEq ι]

namespace World

/-- A decrease pays its funding fee in full in collateral and removes its
position only by closing the whole size. -/
def PaysFunding (world : World false ι) : Action ι → Prop
  | .decrease index params => ∀ done,
      DecreasePosition.execute world.market (world.positions index) params =
        .ok done →
      done.2.2.fundingPaidInCollateral = done.2.2.fees.funding.amount ∧
        (done.2.2.shouldRemove = true →
          done.2.2.sizeDeltaUsd = (world.positions index).sizeInUsd)
  | _ => True

/-- Moreover its other fees do not fall short by less than one pnl token. -/
def Orderly (world : World false ι) : Action ι → Prop
  | .decrease index params =>
      world.PaysFunding (.decrease index params) ∧
        ¬DecreasePosition.FeesFallShort world.market (world.positions index)
          params
  | _ => True

instance (world : World false ι) (action : Action ι) :
    Decidable (world.PaysFunding action) :=
  match action with
  | .decrease _ _ => decidable_of_iff _ forall_ok_iff_all.symm
  | .deposit _ | .withdraw _ | .swap _ | .increase _ _ | .updateFunding _
  | .updateBorrowing _ | .distributePositionImpact | .tick _
  | .configure _ _ => inferInstanceAs (Decidable True)

instance (world : World false ι) (action : Action ι) :
    Decidable (world.Orderly action) :=
  match action with
  | .decrease index params => inferInstanceAs (Decidable
      (world.PaysFunding (.decrease index params) ∧
        ¬DecreasePosition.FeesFallShort world.market (world.positions index)
          params))
  | .deposit _ | .withdraw _ | .swap _ | .increase _ _ | .updateFunding _
  | .updateBorrowing _ | .distributePositionImpact | .tick _
  | .configure _ _ => inferInstanceAs (Decidable True)

omit [DecidableEq ι] in
theorem Orderly.closesWhole {world : World false ι} {action : Action ι}
    (horderly : world.Orderly action) : world.ClosesWhole action := by
  cases action with
  | decrease index params =>
      intro market next report hexecute
      exact (horderly.1 (market, next, report) hexecute).2
  | _ => trivial

omit [MarketNum] [DecidableEq ι] in
theorem taken_of_positions (world : World false ι) (market : Market false)
    (token : Bool) (action : Action ι) :
    ({ world with market } : World false ι).taken token action =
      world.taken token action := by
  cases action <;> rfl

theorem step_taken {before after : World false ι} {action : Action ι}
    {flow : Flow} (hstep : before.step action = .ok (after, flow))
    (token : Bool) : flow.taken token = before.taken token action := by
  cases action <;>
    simp only [World.step, bind_eq_ok, pure_eq_ok, Prod.mk.injEq,
      Except.ok.injEq] at hstep <;>
    (obtain ⟨_, _, _, rfl⟩ := hstep; rfl)

end World

namespace Stepped

variable {before after : World false ι} {action : Action ι} {flow : Flow}

theorem keepsBalances (hvalid : ∀ index, (before.positions index).Valid)
    (hstep : Stepped before action after flow) :
    before.market.KeepsBalances after.market := by
  cases hstep with
  | liquidity _ _ _ _ _ _ balances => exact balances
  | borrowing _ _ _ _ balances => exact balances
  | funding _ _ _ _ balances => exact balances
  | increase effects =>
      exact ⟨effects.settles.longTokenBalance_eq,
        effects.settles.shortTokenBalance_eq⟩
  | decrease _ effects =>
      have hsettles := effects.settles (effects.size_ne_zero (hvalid _))
      exact ⟨hsettles.longTokenBalance_eq, hsettles.shortTokenBalance_eq⟩

/-- Every orderly step moves the tokens of the market by what it takes in, pays
out and settles as funding. -/
theorem tokens_eq (horderly : before.Orderly action)
    (hstep : Stepped before action after flow) (token : Bool) :
    after.market.tokenTotal token + flow.paid token +
        flow.fundingCharged token =
      before.market.tokenTotal token + flow.taken token +
        flow.fundingCredited token := by
  cases hstep with
  | liquidity _ _ _ tokens uncharged uncredited =>
      rw [uncharged, uncredited]
      exact tokens token
  | borrowing _ _ _ tokens => simp [tokens token, Flow.none]
  | funding _ _ _ tokens => simp [tokens token, Flow.none]
  | increase effects =>
      have htotal := effects.tokenTotal token
      rw [sub_eq_add_neg, signedInToken_add, signedInToken_neg, ← natCast_inToken,
        ← natCast_inToken] at htotal
      simp only [World.update, Flow.ofIncrease]
      omega
  | decrease executed effects =>
      obtain ⟨hpays, hcovered⟩ := horderly
      have hpaid := (hpays _ executed).1
      rw [DecreasePosition.feesFallShort_iff, not_not] at hcovered
      have htotal := effects.tokenTotal token
      rw [hcovered, hpaid] at htotal
      simp only [World.update, Flow.ofDecrease, effects.isOutputTokenLong_eq]
      simp only [inToken] at htotal ⊢
      split_ifs at htotal ⊢ <;> omega

end Stepped

/-- The balances are the pools plus the funding charged minus the funding
credited, and the funding invariants hold. -/
structure Solvent [Fintype ι] (flows : List Flow) (world : World false ι) :
    Prop where
  funding : FundingInvariant flows world
  balanced : ∀ token,
    world.market.balanceForToken token + creditedIn flows token =
      world.market.tokenTotal token + chargedIn flows token
  fits : ∀ token, world.market.balanceForToken token ≤ maxU64

variable [Fintype ι]

omit [DecidableEq ι] in
theorem FundingInvariant.keepsPools {flows : List Flow} {world : World false ι}
    {market : Market false} (hinvariant : FundingInvariant flows world)
    (hkeeps : world.market.KeepsPools market) :
    FundingInvariant flows { world with market } where
  collateral := hinvariant.collateral.keeps hkeeps.keepsAccounts
  interest := hinvariant.interest.keeps hkeeps.keepsAccounts
  funding := hinvariant.funding.keeps hkeeps.keepsFunding

omit [Fintype ι] [DecidableEq ι] in
/-- Recording the input does not concern decreases, which take nothing in. -/
theorem World.Orderly.received {world : World false ι} {action : Action ι}
    {received : Market false} (horderly : world.Orderly action)
    (hreceived : recordBoth Market.recordTransferredIn world.market
      (world.taken · action) = .ok received) :
    ({ world with market := received } : World false ι).Orderly action := by
  cases action with
  | decrease index params =>
      obtain ⟨hkeeps, hbalance⟩ := Market.recordBoth_in_eq_ok hreceived
      obtain rfl : received = world.market :=
        hkeeps.eq_of_balance fun token => (hbalance token).1
      exact horderly
  | _ => trivial

theorem Solvent.step {flows : List Flow} {before after : World false ι}
    {action : Action ι} {flow : Flow} (hsolvent : Solvent flows before)
    (horderly : before.Orderly action)
    (hstep : before.recordedStep action = .ok (after, flow)) :
    Solvent (flow :: flows) after := by
  simp only [World.recordedStep, bind_eq_ok, pure_eq_ok, Prod.mk.injEq] at hstep
  obtain ⟨received, hreceived, ⟨next, _⟩, hnext, paid, hpaid, rfl, rfl⟩ := hstep
  have horderlyReceived := horderly.received hreceived
  obtain ⟨hkeepsIn, hbalanceIn⟩ := Market.recordBoth_in_eq_ok hreceived
  obtain ⟨hkeepsOut, hbalanceOut⟩ := Market.recordBoth_out_eq_ok hpaid
  have hinvariant := hsolvent.funding.keepsPools hkeepsIn
  have hstepped := World.stepped hnext
  have hkept := hstepped.keepsBalances hinvariant.collateral.valid
  have hmoved := hinvariant.step horderlyReceived.closesWhole hstepped
  refine ⟨hmoved.keepsPools hkeepsOut, fun token => ?_, fun token => ?_⟩
  · have htokens := hstepped.tokens_eq horderlyReceived token
    have htaken := (World.step_taken hnext token).trans
      (before.taken_of_positions received token action)
    have hbefore := hsolvent.balanced token
    have hbalance := (hbalanceIn token).1
    have hout := hbalanceOut token
    have hsame := hkept.balanceForToken_eq token
    have hpools := hkeepsOut.tokenTotal_eq token
    have hpoolsIn := hkeepsIn.tokenTotal_eq token
    simp only [creditedIn, chargedIn, List.map_cons, List.sum_cons] at hbefore ⊢
    dsimp only at *
    omega
  · have hout := hbalanceOut token
    have hsame := hkept.balanceForToken_eq token
    have hfits := (hbalanceIn token).2
    dsimp only at *
    omega

omit [DecidableEq ι] in
theorem Solvent.init (config : MarketConfig) (isEnabled : Bool)
    (clock : SysvarClock) (isLong isCollateralTokenLong : ι → Bool) :
    Solvent [] (World.init config isEnabled clock isLong isCollateralTokenLong) where
  funding := .init config isEnabled clock isLong isCollateralTokenLong
  balanced := fun token => by cases token <;> rfl
  fits := fun token => by cases token <;> exact Nat.zero_le _

/-- In every run with recorded transfers whose decreases are orderly, the
recorded balance of a token is the sum of its pools plus the funding charged
minus the funding credited so far.  Together with the pending funding fees it
covers the sum of the pools and the pending claims, and while no funding fee is
pending all checks of the balances pass. -/
theorem market_solvent {config : MarketConfig} {isEnabled : Bool}
    {clock : SysvarClock} {isLong isCollateralTokenLong : ι → Bool}
    {flows : List Flow} {world : World false ι}
    (hrun : Run World.recordedStep World.Orderly
      (World.init config isEnabled clock isLong isCollateralTokenLong) flows
      world) :
    (∀ token, world.market.balanceForToken token + creditedIn flows token =
      world.market.tokenTotal token + chargedIn flows token) ∧
    (∀ token, world.market.tokenTotal token + ∑ index,
        (world.positions index).pendingCredit world.market token ≤
      world.market.balanceForToken token + ∑ index,
        (world.positions index).pendingCharge world.market token) ∧
    ((∀ token index,
        (world.positions index).pendingCharge world.market token = 0) →
      (∀ token, world.market.tokenTotal token ≤
        world.market.balanceForToken token) ∧
      world.market.validateMarketBalances 0 0 = .ok ()) := by
  have hsolvent : Solvent flows world := by
    refine hrun.invariant Solvent (.init config isEnabled clock _ _) ?_
    intro flows before action after flow hsolvent horderly hstep
    exact hsolvent.step horderly hstep
  have hbalanced := hsolvent.balanced
  have hcovers (token : Bool) : world.market.tokenTotal token + ∑ index,
        (world.positions index).pendingCredit world.market token ≤
      world.market.balanceForToken token + ∑ index,
        (world.positions index).pendingCharge world.market token := by
    have hfunding := hsolvent.funding.credited_le_charged token
    have hbalance := hbalanced token
    omega
  refine ⟨hbalanced, hcovers, fun hnone => ?_⟩
  have hcovered (token : Bool) :
      world.market.tokenTotal token ≤ world.market.balanceForToken token := by
    have hcover := hcovers token
    simp only [hnone token, Finset.sum_const_zero] at hcover
    omega
  exact ⟨hcovered, Market.validateMarketBalances_of_le hcovered hsolvent.fits⟩

end Solvency

section Store

attribute [local instance] storeNumbers

/-- After the receiver of funding has been closed, the recorded balance covers
the pools together with the payer's pending fee. -/
theorem market_solvent_receiver_closed :
    ∃ flows world, Run World.recordedStep World.Orderly fundingStart flows world ∧
      creditedIn flows true = 66 ∧
      world.market.tokenTotal true + ∑ index,
          (world.positions index).pendingCredit world.market true ≤
        world.market.balanceForToken true + ∑ index,
          (world.positions index).pendingCharge world.market true := by
  obtain ⟨⟨flows, world⟩, hperformed, hcredited⟩ :
      ∃ done, perform World.recordedStep World.Orderly ([], fundingStart)
        fundingActions = some done ∧ creditedIn done.1 true = 66 :=
    exists_of_any (by decide +kernel)
  have hrun := Run.perform .refl hperformed
  exact ⟨flows, world, hrun, hcredited, (market_solvent hrun).2.1 true⟩

/-- Without it the balance falls short of the pools: 1000 tokens of collateral
and 66 of funding have been paid out, and the long has not been charged yet. -/
theorem balance_below_pools_receiver_closed :
    ∃ flows world,
      Run World.recordedStep World.PaysFunding fundingStart flows world ∧
      world.market.balanceForToken true = 100934 ∧
      world.market.tokenTotal true = 101000 := by
  obtain ⟨⟨flows, world⟩, hperformed, hbalance⟩ :
      ∃ done, perform World.recordedStep World.PaysFunding ([], fundingStart)
        fundingActions = some done ∧
        (done.2.market.balanceForToken true = 100934 ∧
          done.2.market.tokenTotal true = 101000) :=
    exists_of_any (by decide +kernel)
  exact ⟨flows, world, Run.perform .refl hperformed, hbalance⟩

end Store

end Gmsol.System
