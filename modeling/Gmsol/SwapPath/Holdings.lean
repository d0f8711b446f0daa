import Gmsol.SwapPath.Execute
import Gmsol.System.Steps

/-!
# What a market holds

The recorded balance of a token and what the pools of a market promise of it.
A record changes the balance by its amount and a swap moves the promise from the
token in to the token out, so the surplus of the balance over the promise
follows the amount that is swapped.
-/

namespace Gmsol.Model.Market

open Fallible

variable {isPure : Bool}

/-- Writing the balance of a side changes what is seen from a token by the
change of that side. -/
theorem balanceForToken_set (market : Market isPure) (side token : Bool)
    {balance : ℕ} {delta : ℤ}
    (hbalance : (balance : ℤ) = market.balanceForToken side + delta) :
    ((market.setBalanceForToken side balance).balanceForToken token : ℤ) =
      market.balanceForToken token + signedInToken isPure side token delta := by
  cases isPure <;> cases side <;> cases token <;>
    simp_all [setBalanceForToken, balanceForToken, signedInToken]

theorem tokenTotal_set (market : Market isPure) (side token : Bool)
    (balance : ℕ) :
    (market.setBalanceForToken side balance).tokenTotal token =
      market.tokenTotal token := by
  unfold setBalanceForToken
  split <;> rfl

end Gmsol.Model.Market

namespace Gmsol.SwapPath

open Fallible Container Store

namespace MarketMeta

variable {marketMeta : MarketMeta} {token other : Pubkey} {side otherSide : Bool}

theorem isPure_iff :
    marketMeta.isPure = true ↔
      marketMeta.longTokenMint = marketMeta.shortTokenMint :=
  beq_iff_eq

/-- The side is the one whose token it is, and the long one in a pure market. -/
theorem toTokenSide_eq_ok (hside : marketMeta.toTokenSide token = .ok side) :
    token = marketMeta.pnlToken side ∧ (marketMeta.isPure = true → side = true) := by
  unfold toTokenSide at hside
  split_ifs at hside with hlong hshort
  · cases hside
    exact ⟨hlong, fun _ => rfl⟩
  · cases hside
    refine ⟨hshort, fun hpure => ?_⟩
    exact absurd (hshort.trans (isPure_iff.mp hpure).symm) hlong

theorem toTokenSide_pnlToken (marketMeta : MarketMeta) (side : Bool) :
    ∃ found, marketMeta.toTokenSide (marketMeta.pnlToken side) = .ok found ∧
      (marketMeta.isPure || side == found) = true := by
  unfold toTokenSide pnlToken
  cases side with
  | true => exact ⟨true, if_pos rfl, by rw [BEq.rfl, Bool.or_true]⟩
  | false =>
      by_cases hpure : marketMeta.shortTokenMint = marketMeta.longTokenMint
      · refine ⟨true, if_pos hpure, ?_⟩
        rw [isPure_iff.mpr hpure.symm, Bool.true_or]
      · exact ⟨false, (if_neg hpure).trans (if_pos rfl),
          by rw [BEq.rfl, Bool.or_true]⟩

/-- Two tokens of a market are on the same side of it, or it is pure, exactly
when they are the same. -/
theorem same_side_iff (htoken : marketMeta.toTokenSide token = .ok side)
    (hother : marketMeta.toTokenSide other = .ok otherSide) :
    (marketMeta.isPure || side == otherSide) = true ↔ other = token := by
  have hleft := (toTokenSide_eq_ok htoken).1
  have hright := (toTokenSide_eq_ok hother).1
  rw [Bool.or_eq_true, isPure_iff, beq_iff_eq]
  constructor
  · rintro (hpure | rfl)
    · cases side <;> cases otherSide <;>
        simp only [pnlToken, if_true, Bool.false_eq_true, if_false, hpure]
          at hleft hright <;>
        exact hright.trans hleft.symm
    · exact hright.trans hleft.symm
  · rintro rfl
    rw [htoken] at hother
    exact Or.inr (Except.ok.inj hother)

theorem oppositeToken_eq (hside : marketMeta.toTokenSide token = .ok side) :
    marketMeta.oppositeToken token = .ok (marketMeta.pnlToken !side) := by
  unfold toTokenSide at hside
  unfold oppositeToken
  split_ifs at hside ⊢ with hlong hshort
  · cases hside
    rfl
  · cases hside
    rfl

end MarketMeta

/-! ## Balance, promise and surplus -/

/-- An amount of one token, seen from a token. -/
def amountIn (token other : Pubkey) (amount : ℤ) : ℤ :=
  if other = token then amount else 0

theorem amountIn_neg (token other : Pubkey) (amount : ℤ) :
    amountIn token other (-amount) = -amountIn token other amount := by
  unfold amountIn
  split_ifs
  · rfl
  · rfl

namespace MarketMeta

/-- A change of the sides of a market, seen from a token. -/
def deltaOf (marketMeta : MarketMeta) (ofSide : Bool → ℤ) (token : Pubkey) : ℤ :=
  match marketMeta.toTokenSide token with
  | .ok side => ofSide side
  | .error _ => 0

theorem deltaOf_add (marketMeta : MarketMeta) (first second : Bool → ℤ)
    (token : Pubkey) :
    marketMeta.deltaOf (fun side => first side + second side) token =
      marketMeta.deltaOf first token + marketMeta.deltaOf second token := by
  unfold deltaOf
  cases marketMeta.toTokenSide token <;> rfl

theorem deltaOf_inToken {marketMeta : MarketMeta} {token : Pubkey} {side : Bool}
    (hside : marketMeta.toTokenSide token = .ok side) (amount : ℤ)
    (other : Pubkey) :
    marketMeta.deltaOf
        (Model.signedInToken marketMeta.isPure side · amount) other =
      amountIn token other amount := by
  unfold deltaOf amountIn Model.signedInToken
  cases hother : marketMeta.toTokenSide other with
  | error stopped =>
      rw [if_neg (by rintro rfl; rw [hside] at hother; cases hother)]
  | ok otherSide => exact if_congr (same_side_iff hside hother) rfl rfl

/-- The same for the token of a side, which in a pure market is on both. -/
theorem deltaOf_inPnlToken (marketMeta : MarketMeta) (side : Bool) (amount : ℤ)
    (other : Pubkey) :
    marketMeta.deltaOf
        (Model.signedInToken marketMeta.isPure side · amount) other =
      amountIn (marketMeta.pnlToken side) other amount := by
  obtain ⟨found, hfound, hsame⟩ :=
    toTokenSide_pnlToken marketMeta side
  rw [← deltaOf_inToken hfound]
  congr 1
  funext token
  rcases Bool.or_eq_true _ _ ▸ hsame with hpure | heq
  · exact Model.signedInToken_of_pure side token amount found hpure
  · rw [beq_iff_eq.mp heq]

end MarketMeta

namespace RevertibleMarket

/-- What a measure of the sides of a market is for a token; it is zero for a
token that the market does not have. -/
def measure (market : RevertibleMarket) (ofSide : Bool → ℕ) (token : Pubkey) : ℕ :=
  match market.marketMeta.toTokenSide token with
  | .ok side => ofSide side
  | .error _ => 0

/-- The recorded balance of a token. -/
def balanceOf (market : RevertibleMarket) : Pubkey → ℕ :=
  market.measure market.state.balanceForToken

/-- The recorded balances by token are those of the sides. -/
theorem balanceOf_congr {left right : RevertibleMarket}
    (hmeta : left.marketMeta = right.marketMeta)
    (hlong : left.state.longTokenBalance = right.state.longTokenBalance)
    (hshort : left.state.shortTokenBalance = right.state.shortTokenBalance) :
    left.balanceOf = right.balanceOf := by
  obtain ⟨_, marketMeta, state⟩ := left
  subst hmeta
  dsimp only at hlong hshort
  have hside : state.balanceForToken = right.state.balanceForToken := by
    funext side
    simp only [Model.Market.balanceForToken, hlong, hshort]
  exact congrArg right.measure hside

/-- The liquidity, swap impact, claimable fee and collateral sum pools in a
token. -/
def promisedOf (market : RevertibleMarket) : Pubkey → ℕ :=
  market.measure market.state.tokenTotal

def surplus (market : RevertibleMarket) (token : Pubkey) : ℤ :=
  market.balanceOf token - market.promisedOf token

/-- What an update changes of the holdings of a market. -/
structure Changes (before after : RevertibleMarket)
    (balance promised : Pubkey → ℤ) : Prop where
  marketMeta_eq : after.marketMeta = before.marketMeta
  balance_eq : ∀ token,
    (after.balanceOf token : ℤ) = before.balanceOf token + balance token
  promised_eq : ∀ token,
    (after.promisedOf token : ℤ) = before.promisedOf token + promised token

theorem Changes.surplus_eq {before after : RevertibleMarket}
    {balance promised : Pubkey → ℤ} (hchanges : before.Changes after balance promised)
    (token : Pubkey) :
    after.surplus token = before.surplus token + balance token - promised token := by
  have hbalance := hchanges.balance_eq token
  have hpromised := hchanges.promised_eq token
  unfold surplus
  omega

theorem Changes.refl (market : RevertibleMarket) :
    market.Changes market (fun _ => 0) fun _ => 0 :=
  ⟨rfl, fun _ => (add_zero _).symm, fun _ => (add_zero _).symm⟩

theorem Changes.trans {first second third : RevertibleMarket}
    {leftBalance leftPromised rightBalance rightPromised : Pubkey → ℤ}
    (hleft : first.Changes second leftBalance leftPromised)
    (hright : second.Changes third rightBalance rightPromised) :
    first.Changes third (fun token => leftBalance token + rightBalance token)
      fun token => leftPromised token + rightPromised token where
  marketMeta_eq := hright.marketMeta_eq.trans hleft.marketMeta_eq
  balance_eq token := by
    rw [hright.balance_eq, hleft.balance_eq, add_assoc]
  promised_eq token := by
    rw [hright.promised_eq, hleft.promised_eq, add_assoc]

theorem measure_add (market : RevertibleMarket) {before after : Bool → ℕ}
    {delta : Bool → ℤ}
    (hchange : ∀ side, (after side : ℤ) = before side + delta side)
    (token : Pubkey) :
    (market.measure after token : ℤ) =
      market.measure before token + market.marketMeta.deltaOf delta token := by
  unfold measure MarketMeta.deltaOf
  cases market.marketMeta.toTokenSide token with
  | error stopped => rfl
  | ok side => exact hchange side

theorem measure_congr (market : RevertibleMarket) {before after : Bool → ℕ}
    (hsame : ∀ side, after side = before side) (token : Pubkey) :
    (market.measure after token : ℤ) = market.measure before token + 0 := by
  rw [funext hsame, add_zero]

theorem update_eq_ok {market after : RevertibleMarket}
    {result : Model.Result (Model.Market market.marketMeta.isPure)}
    (hupdate : market.update result = .ok after) :
    ∃ state, result = .ok state ∧ { market with state } = after := by
  simp only [update, map_eq_ok, mapError_eq_ok] at hupdate
  exact hupdate

section Records

variable {market after : RevertibleMarket} {token : Pubkey} {amount : ℕ}

/-- Writing the balance of the side of a token. -/
theorem setBalance_changes {side : Bool} {balance : ℕ} {delta : ℤ}
    (hside : market.marketMeta.toTokenSide token = .ok side)
    (hbalance : (balance : ℤ) = market.state.balanceForToken side + delta) :
    market.Changes
      { market with state := market.state.setBalanceForToken side balance }
      (amountIn token · delta) fun _ => 0 := by
  refine ⟨rfl, fun other => ?_, fun other => ?_⟩
  · rw [← MarketMeta.deltaOf_inToken hside]
    exact market.measure_add
      (market.state.balanceForToken_set side · hbalance) other
  · exact market.measure_congr (market.state.tokenTotal_set side · balance) other

theorem recordTransferredIn_changes
    (hrecord : market.recordTransferredInByToken token amount = .ok after) :
    market.Changes after (amountIn token · amount) fun _ => 0 := by
  simp only [recordTransferredInByToken, bind_eq_ok] at hrecord
  obtain ⟨side, hside, hupdate⟩ := hrecord
  obtain ⟨state, hstate, rfl⟩ := update_eq_ok hupdate
  simp only [Model.Market.recordTransferredIn, bind_eq_ok, ensure_eq_ok,
    pure_eq_ok] at hstate
  obtain ⟨_, _, rfl⟩ := hstate
  exact setBalance_changes hside (Nat.cast_add _ _)

theorem recordTransferredOut_changes
    (hrecord : market.recordTransferredOutByToken token amount = .ok after) :
    market.Changes after (amountIn token · (-amount)) fun _ => 0 := by
  simp only [recordTransferredOutByToken, bind_eq_ok] at hrecord
  obtain ⟨side, hside, hupdate⟩ := hrecord
  obtain ⟨state, hstate, rfl⟩ := update_eq_ok hupdate
  simp only [Model.Market.recordTransferredOut, bind_eq_ok, ensure_eq_ok,
    pure_eq_ok] at hstate
  obtain ⟨_, henough, rfl⟩ := hstate
  apply setBalance_changes hside
  rw [Nat.cast_sub henough, sub_eq_add_neg]

end Records

variable [Model.MarketNum] {market after : RevertibleMarket} {token : Pubkey}
  {amount : ℕ}

theorem updateBorrowing_changes {prices : Model.Prices}
    (hupdate : market.updateBorrowing prices = .ok after) :
    market.Changes after (fun _ => 0) fun _ => 0 := by
  obtain ⟨state, hstate, rfl⟩ := update_eq_ok hupdate
  rw [map_eq_ok] at hstate
  obtain ⟨done, hdone, rfl⟩ := hstate
  obtain ⟨_, _, heq, _⟩ := Model.UpdateBorrowingState.execute_eq_ok hdone
  rw [heq]
  exact ⟨rfl, fun _ => (add_zero _).symm, fun _ => (add_zero _).symm⟩

/-- A swap promises the token in instead of the token out. -/
theorem swap_changes {side : Bool} {tokenOut : Pubkey} {prices : Model.Prices}
    {swapped : RevertibleMarket × ℕ}
    (hside : market.marketMeta.toTokenSide token = .ok side)
    (hswap : market.swap side amount prices = .ok swapped)
    (hopposite : swapped.1.marketMeta.oppositeToken token = .ok tokenOut) :
    market.Changes swapped.1 (fun _ => 0) fun other =>
      amountIn token other amount + amountIn tokenOut other (-swapped.2) := by
  simp only [swap, map_eq_ok, mapError_eq_ok] at hswap
  obtain ⟨⟨state, report⟩, hdone, rfl⟩ := hswap
  obtain ⟨hkeeps, _, htotal⟩ :=
    Model.Swap.tryExecute_eq_ok (Model.Swap.execute_eq_ok hdone)
  obtain rfl : market.marketMeta.pnlToken (!side) = tokenOut :=
    Except.ok.inj ((MarketMeta.oppositeToken_eq hside).symm.trans hopposite)
  refine ⟨rfl, fun other => ?_, fun other => ?_⟩
  · apply market.measure_congr
    obtain ⟨_, _, _, _, _, rfl⟩ := hkeeps
    exact fun token => rfl
  · rw [← MarketMeta.deltaOf_inToken hside, ← MarketMeta.deltaOf_inPnlToken,
      ← MarketMeta.deltaOf_add]
    refine market.measure_add (fun token => ?_) other
    have hpool := htotal token
    have hcollateral := hkeeps.collateralTotal_eq token
    simp only [Model.Market.tokenTotal, Model.signedInToken_neg]
    dsimp only at hpool
    push_cast
    omega

end RevertibleMarket

/-- A swap swaps one side after the other and validates the outputs of both. -/
theorem revertibleSwap_sides [Model.MarketNum] {oracle : Oracle} {markets : SwapMarkets}
    {direction : SwapDirection} {params : SwapActionParams}
    {expectedTokenOuts : Pubkey × Pubkey} {tokenIns : Option Pubkey × Option Pubkey}
    {tokenInAmounts : ℕ × ℕ} {swapped : Swapped}
    (hswap : revertibleSwap oracle markets direction params expectedTokenOuts tokenIns
      tokenInAmounts = .ok swapped) :
    ∃ long short,
      swapSide oracle params.primarySwapPath expectedTokenOuts.1 tokenIns.1
        tokenInAmounts.1 markets direction = .ok long ∧
      swapSide oracle params.secondarySwapPath expectedTokenOuts.2 tokenIns.2
        tokenInAmounts.2 long.markets long.direction = .ok short ∧
      validateOutputs short.markets short.direction
        (outputMarketToken short.direction params.primarySwapPath)
        (outputMarketToken short.direction params.secondarySwapPath)
        ⟨expectedTokenOuts.1, long.amount⟩ ⟨expectedTokenOuts.2, short.amount⟩ = .ok () ∧
      swapped = ⟨short.markets, short.direction, long.output, short.output⟩ := by
  simp only [revertibleSwap, SwapActionParams.validatedPrimarySwapPath,
    SwapActionParams.validatedSecondarySwapPath, bind_eq_ok, pure_eq_ok] at hswap
  obtain ⟨_, ⟨_, -, rfl⟩, long, hlong, _, ⟨_, -, rfl⟩, short, hshort, _, hvalid, rfl⟩ :=
    hswap
  exact ⟨long, short, hlong, hshort, hvalid, rfl⟩

end Gmsol.SwapPath
