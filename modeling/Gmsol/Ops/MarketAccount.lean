import Gmsol.Store.Transaction
import Gmsol.SwapPath.Market

/-!
# Market accounts with their buffers

An order works on the markets through the buffers of their accounts: the market that it
sees is read from a buffer, and everything it changes is staged there until it is
committed.  An operation that has just started sees the stored state.
-/

namespace Gmsol.Ops

open Fallible Container Store SwapPath

/-- The parts of a market account that no operation on its pools changes. -/
structure MarketInfo where
  store : Pubkey
  marketMeta : MarketMeta
  config : Model.MarketConfig
  isEnabled : Bool
  isGtMintingEnabled : Bool
  isAdlEnabled : Bool → Bool
  totalSupply : ℕ

/-- A market account.  No cache of its buffer is ahead of the buffer. -/
structure MarketAccount extends MarketInfo where
  market : Store.Market
  tagged : market.buffer.Tagged

namespace MarketAccount

def key (account : MarketAccount) : Pubkey := account.marketMeta.marketTokenMint

def validate (account : MarketAccount) (store : Pubkey) : Store.Result Unit := do
  ensure (store = account.store) .storeMismatched
  ensure (account.isEnabled = true) .disabledMarket

def latestAdlTime (account : MarketAccount) (isLong : Bool) : ℤ :=
  let clocks := account.market.state.clocks.value
  if isLong then clocks.adlForLong else clocks.adlForShort

/-! ## Reading -/

def poolOf {isPure : Bool} (pool : Store.Pool) : Model.Pool isPure :=
  ⟨pool.longTokenAmount, pool.shortTokenAmount⟩

def sidedPoolOf {isPure : Bool} (forLong forShort : Store.Pool) :
    Model.Sided (Model.Pool isPure) :=
  ⟨poolOf forLong, poolOf forShort⟩

/-- The market with the given contents. -/
def withContents (account : MarketAccount) (clock : Model.SysvarClock)
    (contents : Contents) : RevertibleMarket where
  store := account.store
  marketMeta := account.marketMeta
  state :=
    { config := account.config
      isEnabled := account.isEnabled
      clock := clock
      clocks := ⟨contents.clocks.priceImpactDistribution, contents.clocks.borrowing,
        contents.clocks.funding⟩
      totalSupply := account.totalSupply
      tradeCount := contents.other.tradeCount
      longTokenBalance := contents.other.longTokenBalance
      shortTokenBalance := contents.other.shortTokenBalance
      primary := poolOf (contents.pools .primary)
      swapImpact := poolOf (contents.pools .swapImpact)
      claimableFee := poolOf (contents.pools .claimableFee)
      openInterest := sidedPoolOf (contents.pools .openInterestForLong)
        (contents.pools .openInterestForShort)
      openInterestInTokens := sidedPoolOf (contents.pools .openInterestInTokensForLong)
        (contents.pools .openInterestInTokensForShort)
      positionImpact := poolOf (contents.pools .positionImpact)
      borrowingFactor := poolOf (contents.pools .borrowingFactor)
      fundingAmountPerSize := sidedPoolOf (contents.pools .fundingAmountPerSizeForLong)
        (contents.pools .fundingAmountPerSizeForShort)
      claimableFundingAmountPerSize :=
        sidedPoolOf (contents.pools .claimableFundingAmountPerSizeForLong)
          (contents.pools .claimableFundingAmountPerSizeForShort)
      collateralSum := sidedPoolOf (contents.pools .collateralSumForLong)
        (contents.pools .collateralSumForShort)
      totalBorrowing := poolOf (contents.pools .totalBorrowing)
      fundingFactorPerSecond := contents.other.fundingFactorPerSecond }

/-- The market that the current operation sees. -/
def revertible (account : MarketAccount) (clock : Model.SysvarClock) : RevertibleMarket :=
  account.withContents clock (account.market.buffer.view account.market.state)

/-- The market that is stored. -/
def stored (account : MarketAccount) (clock : Model.SysvarClock) : RevertibleMarket :=
  account.withContents clock account.market.state.contents

/-! ## Writing -/

/-- The amounts of a pool of the market. -/
def poolAmounts {isPure : Bool} (market : Model.Market isPure) : PoolKind → ℕ × ℕ
  | .primary => amounts market.primary
  | .swapImpact => amounts market.swapImpact
  | .claimableFee => amounts market.claimableFee
  | .openInterestForLong => amounts market.openInterest.forLong
  | .openInterestForShort => amounts market.openInterest.forShort
  | .openInterestInTokensForLong => amounts market.openInterestInTokens.forLong
  | .openInterestInTokensForShort => amounts market.openInterestInTokens.forShort
  | .positionImpact => amounts market.positionImpact
  | .borrowingFactor => amounts market.borrowingFactor
  | .fundingAmountPerSizeForLong => amounts market.fundingAmountPerSize.forLong
  | .fundingAmountPerSizeForShort => amounts market.fundingAmountPerSize.forShort
  | .claimableFundingAmountPerSizeForLong =>
    amounts market.claimableFundingAmountPerSize.forLong
  | .claimableFundingAmountPerSizeForShort =>
    amounts market.claimableFundingAmountPerSize.forShort
  | .collateralSumForLong => amounts market.collateralSum.forLong
  | .collateralSumForShort => amounts market.collateralSum.forShort
  | .totalBorrowing => amounts market.totalBorrowing
where
  amounts {isPure : Bool} (pool : Model.Pool isPure) : ℕ × ℕ :=
    (pool.longTokenAmount, pool.shortTokenAmount)

/-- The writes that bring a market into the buffer. -/
def writes {isPure : Bool} (market : Model.Market isPure) : List Access :=
  PoolKind.iter.map (fun kind => .poolMut kind fun pool =>
    { pool with
      longTokenAmount := (poolAmounts market kind).1
      shortTokenAmount := (poolAmounts market kind).2 }) ++
  [.clocksMut fun clocks =>
    { clocks with
      priceImpactDistribution := market.clocks.priceImpactDistribution
      borrowing := market.clocks.borrowing
      funding := market.clocks.funding },
    .otherMut fun _ =>
      { tradeCount := market.tradeCount
        longTokenBalance := market.longTokenBalance
        shortTokenBalance := market.shortTokenBalance
        fundingFactorPerSecond := market.fundingFactorPerSecond }]

/-- Performs accesses on the buffer. -/
def access (account : MarketAccount) (accesses : List Access) : MarketAccount :=
  { account with
    market := (account.market.accessAll accesses).1
    tagged := (Store.Market.accessAll_follows account.tagged accesses).1.tagged }

def stage (account : MarketAccount) (market : RevertibleMarket) : MarketAccount :=
  account.access (writes market.state)

/-- Starts an operation; the program stops when the revisions are used up. -/
def start (account : MarketAccount) : Store.Result MarketAccount :=
  match hstart : account.market.buffer.startRevertibleOperation with
  | none => .error .panic
  | some buffer =>
    let started : MarketAccount :=
      { account with
        market := { account.market with buffer }
        tagged := (RevertibleBuffer.start_clean account.tagged hstart).1 }
    .ok started

def commit (account : MarketAccount) : MarketAccount :=
  { account with
    market := account.market.commit
    tagged := account.tagged }

/-- Stores what an operation that has seen the stored market has made of it. -/
def persist (account : MarketAccount) (market : RevertibleMarket) :
    Store.Result MarketAccount := do
  let started ← account.start
  let committed := (started.stage market).commit
  return { committed with
    toMarketInfo := { committed.toMarketInfo with totalSupply := market.state.totalSupply } }

/-! ## Staging -/

section

variable {account : MarketAccount} {clock : Model.SysvarClock}

/-- An operation that has just started sees the stored contents, which stay as they are. -/
theorem start_eq_ok {started : MarketAccount} (hstart : account.start = .ok started) :
    started.market.buffer.view started.market.state = account.market.state.contents ∧
      started.toMarketInfo = account.toMarketInfo ∧
      started.market.state = account.market.state := by
  unfold start at hstart
  split at hstart
  · exact absurd hstart (by simp)
  · rename_i buffer hbuffer
    obtain rfl := Except.ok.inj hstart
    obtain ⟨_, _, hview⟩ := RevertibleBuffer.start_clean account.tagged hbuffer
    exact ⟨hview _, rfl, rfl⟩

/-- Accesses to the buffer do not touch the stored state. -/
@[simp]
theorem state_access (accesses : List Access) :
    (account.access accesses).market.state = account.market.state :=
  (Store.Market.accessAll_follows account.tagged accesses).1.state

/-- Writing each of the listed pools once. -/
theorem accessAll_poolMut (committed view : Contents) (kinds : List PoolKind)
    (hnodup : kinds.Nodup) (write : PoolKind → Store.Pool → Store.Pool) :
    (committed.accessAll view (kinds.map fun kind => .poolMut kind (write kind))).1 =
      { view with pools := fun kind =>
          if kind ∈ kinds then write kind (view.pools kind) else view.pools kind } := by
  induction kinds generalizing view with
  | nil => simp [Contents.accessAll]
  | cons first rest ih =>
      obtain ⟨hfirst, hrest⟩ := List.nodup_cons.mp hnodup
      simp only [List.map_cons, Contents.accessAll, Contents.access]
      rw [ih _ hrest]
      congr 1
      funext kind
      by_cases hsame : kind = first
      · subst hsame
        simp [hfirst]
      · simp [hsame]

theorem accessAll_append (committed view : Contents) (left right : List Access) :
    (committed.accessAll view (left ++ right)).1 =
      (committed.accessAll (committed.accessAll view left).1 right).1 := by
  induction left generalizing view with
  | nil => rfl
  | cons access left ih => exact ih _

/-- The contents with the parts of a market. -/
def contentsOf {isPure : Bool} (view : Contents) (market : Model.Market isPure) :
    Contents where
  pools kind :=
    { view.pools kind with
      longTokenAmount := (poolAmounts market kind).1
      shortTokenAmount := (poolAmounts market kind).2 }
  clocks :=
    { view.clocks with
      priceImpactDistribution := market.clocks.priceImpactDistribution
      borrowing := market.clocks.borrowing
      funding := market.clocks.funding }
  other :=
    { tradeCount := market.tradeCount
      longTokenBalance := market.longTokenBalance
      shortTokenBalance := market.shortTokenBalance
      fundingFactorPerSecond := market.fundingFactorPerSecond }

theorem accessAll_writes {isPure : Bool} (committed view : Contents)
    (market : Model.Market isPure) :
    (committed.accessAll view (writes market)).1 = contentsOf view market := by
  have hmem (kind : PoolKind) : kind ∈ PoolKind.iter := by cases kind <;> decide
  rw [writes, accessAll_append, accessAll_poolMut _ _ _ (by decide)]
  simp only [hmem, if_true, Contents.accessAll, Contents.access, contentsOf]

theorem view_access (accesses : List Access) :
    (account.access accesses).market.buffer.view (account.access accesses).market.state =
      (account.market.state.contents.accessAll
        (account.market.buffer.view account.market.state) accesses).1 := by
  obtain ⟨hfollows, -⟩ := Store.Market.accessAll_follows account.tagged accesses
  rw [state_access]
  exact hfollows.view

/-- The next step of an operation sees what the step before it has staged. -/
theorem revertible_stage (store : Pubkey)
    (state : Model.Market account.marketMeta.isPure) :
    (account.stage ⟨store, account.marketMeta, state⟩).revertible clock =
      ⟨account.store, account.marketMeta,
        { state with
          config := account.config
          isEnabled := account.isEnabled
          clock := clock
          totalSupply := account.totalSupply }⟩ := by
  unfold revertible stage
  rw [view_access, accessAll_writes]
  rfl

/-- What is persisted is stored, in place of the parts of the market. -/
theorem persist_contents {market : RevertibleMarket} {after : MarketAccount}
    (hpersist : account.persist market = .ok after) :
    after.market.state.contents = contentsOf account.market.state.contents market.state ∧
      after.marketMeta = account.marketMeta := by
  simp only [persist, bind_eq_ok, pure_eq_ok] at hpersist
  obtain ⟨started, hstart, rfl⟩ := hpersist
  obtain ⟨hview, hinfo, -⟩ := start_eq_ok hstart
  have hstarted : started.marketMeta = account.marketMeta :=
    congrArg MarketInfo.marketMeta hinfo
  refine ⟨?_, hstarted⟩
  refine (Store.Market.commit_contents (started.stage market).market).trans ?_
  unfold stage
  rw [view_access, accessAll_writes, hview]

end

end MarketAccount

end Gmsol.Ops
