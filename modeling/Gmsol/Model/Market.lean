import Gmsol.Model.Params

/-!
# Market state

The pools, clocks and configuration of a market, and the functions every kind
of market action shares.  The market keeps its own record of the token
balances it is owed; those records are checked against the pools.
-/

namespace Gmsol.Model

open Gmsol.Fallible

structure MarketConfig where
  swapImpactParams : PriceImpactParams
  swapFeeParams : FeeParams
  positionImpactParams : PriceImpactParams
  positionImpactDistributionParams : PositionImpactDistributionParams
  borrowingFeeParams : BorrowingFeeParams
  borrowingFeeKinkModelParams : Bool → BorrowingFeeKinkModelParamsForOneSide
  fundingFeeParams : FundingFeeParams
  positionParams : PositionParams
  orderFeeParams : FeeParams
  liquidationFeeParams : LiquidationFeeParams
  minCollateralFactorForOpenInterestMultiplier : Bool → ℕ
  maxPoolAmount : Bool → ℕ
  maxPoolValueForDeposit : Bool → ℕ
  pnlFactorConfig : PnlFactorKind → Bool → ℕ
  reserveFactor : ℕ
  openInterestReserveFactor : ℕ
  maxOpenInterest : Bool → ℕ
  ignoreOpenInterestForUsageFactor : Bool

/-- The time stamps of the last updates. -/
structure Clocks where
  priceImpactDistribution : ℤ
  borrowing : ℤ
  funding : ℤ
  deriving DecidableEq, Repr

/-- The clock of the cluster. -/
structure SysvarClock where
  slot : ℕ
  unixTimestamp : ℤ
  deriving DecidableEq, Repr

structure Market (isPure : Bool) where
  config : MarketConfig
  isEnabled : Bool
  clock : SysvarClock
  clocks : Clocks
  totalSupply : ℕ
  tradeCount : ℕ
  longTokenBalance : ℕ
  shortTokenBalance : ℕ
  primary : Pool isPure
  swapImpact : Pool isPure
  claimableFee : Pool isPure
  openInterest : Sided (Pool isPure)
  openInterestInTokens : Sided (Pool isPure)
  positionImpact : Pool false
  borrowingFactor : Pool false
  fundingAmountPerSize : Sided (Pool isPure)
  claimableFundingAmountPerSize : Sided (Pool isPure)
  collateralSum : Sided (Pool isPure)
  totalBorrowing : Pool false
  fundingFactorPerSecond : ℤ

namespace Clocks

/-- Seconds since `last` with saturating subtraction of `i64` time stamps, and
none at all when the clock went backwards. -/
def passedInSeconds (clock : SysvarClock) (last : ℤ) : ℕ :=
  (min (clock.unixTimestamp - last) (2 ^ 63 - 1)).toNat

/-- The time stamp that replaces `last` when the passed time is taken. -/
def justPassed (clock : SysvarClock) (last : ℤ) : ℤ :=
  if 0 < clock.unixTimestamp - last then clock.unixTimestamp else last

end Clocks

/-- A configuration without fees and price impact whose limits do not bind
small amounts. -/
def MarketConfig.unrestricted : MarketConfig where
  swapImpactParams := ⟨10 ^ 20, 0, 0⟩
  swapFeeParams := ⟨0, 0, 0, none⟩
  positionImpactParams := ⟨10 ^ 20, 0, 0⟩
  positionImpactDistributionParams := ⟨0, 0⟩
  borrowingFeeParams := ⟨0, fun _ => 10 ^ 20, fun _ => 0, false⟩
  borrowingFeeKinkModelParams := fun _ => ⟨0, 0, 0⟩
  fundingFeeParams := ⟨10 ^ 20, 0, 0, 0, 0, 0, 0, 0⟩
  positionParams := ⟨0, 0, 0, 0, 0, 0⟩
  orderFeeParams := ⟨0, 0, 0, none⟩
  liquidationFeeParams := ⟨0, 0⟩
  minCollateralFactorForOpenInterestMultiplier := fun _ => 0
  maxPoolAmount := fun _ => 10 ^ 30
  maxPoolValueForDeposit := fun _ => 10 ^ 38
  pnlFactorConfig := fun _ _ => 10 ^ 20
  reserveFactor := 10 ^ 20
  openInterestReserveFactor := 10 ^ 20
  maxOpenInterest := fun _ => 10 ^ 38
  ignoreOpenInterestForUsageFactor := true

/-- A new market: empty pools, and clocks that start now. -/
def Market.init (isPure : Bool) (config : MarketConfig) (isEnabled : Bool)
    (clock : SysvarClock) : Market isPure where
  config := config
  isEnabled := isEnabled
  clock := clock
  clocks := ⟨clock.unixTimestamp, clock.unixTimestamp, clock.unixTimestamp⟩
  totalSupply := 0
  tradeCount := 0
  longTokenBalance := 0
  shortTokenBalance := 0
  primary := .empty
  swapImpact := .empty
  claimableFee := .empty
  openInterest := ⟨.empty, .empty⟩
  openInterestInTokens := ⟨.empty, .empty⟩
  positionImpact := .empty
  borrowingFactor := .empty
  fundingAmountPerSize := ⟨.empty, .empty⟩
  claimableFundingAmountPerSize := ⟨.empty, .empty⟩
  collateralSum := ⟨.empty, .empty⟩
  totalBorrowing := .empty
  fundingFactorPerSecond := 0

def getMsgBySide (isLong : Bool) : String :=
  if isLong then "for long" else "for short"

namespace Market

variable [MarketNum] {isPure : Bool}

/-! ## Open interest and profit -/

/-- One side of a merged balance: the total of the side's pool. -/
def mergedAmount (pools : Sided (Pool isPure)) (isLong : Bool) : Result ℕ :=
  okOr (checkedAdd (pools.get isLong).longAmount (pools.get isLong).shortAmount)
    .overflow

def openInterestAmount (market : Market isPure) (isLong : Bool) : Result ℕ :=
  mergedAmount market.openInterest isLong

def openInterestInTokensAmount (market : Market isPure) (isLong : Bool) :
    Result ℕ :=
  mergedAmount market.openInterestInTokens isLong

def poolValueWithoutPnlForOneSide (market : Market isPure) (prices : Prices)
    (isLong maximize : Bool) : Result ℕ :=
  okOr (checkedMul (market.primary.amount isLong)
      ((prices.collateralTokenPrice isLong).pickPrice maximize))
    .overflow

def pnl (market : Market isPure) (indexTokenPrice : Price)
    (isLong maximize : Bool) : Result ℤ := do
  let openInterest ← market.openInterestAmount isLong
  let openInterestInTokens ← market.openInterestInTokensAmount isLong
  if openInterest = 0 ∧ openInterestInTokens = 0 then return 0
  else
    let price := indexTokenPrice.pickPriceForPnl isLong maximize
    let value ← okOr (checkedMul openInterestInTokens price)
      (.computation "calculating open interest value")
    if isLong then
      let signedValue ← toSigned value
      let signedInterest ← toSigned openInterest
      okOr (signedSub signedValue signedInterest)
        (.computation "calculating pnl for long")
    else
      let signedInterest ← toSigned openInterest
      let signedValue ← toSigned value
      okOr (signedSub signedInterest signedValue)
        (.computation "calculating pnl for short")

def pnlFactorWithPoolValue (market : Market isPure) (prices : Prices)
    (isLong maximize : Bool) : Result (ℤ × ℕ) := do
  let poolValue ← market.poolValueWithoutPnlForOneSide prices isLong !maximize
  let pnl ← market.pnl prices.indexTokenPrice isLong maximize
  let factor ← okOr (divToFactorSigned pnl poolValue)
    (.computation "calculating pnl factor")
  return (factor, poolValue)

/-- Whether the pnl factor exceeds the configured one of the given kind. -/
def pnlFactorExceeded (market : Market isPure) (prices : Prices)
    (kind : PnlFactorKind) (isLong : Bool) : Result Bool := do
  let factorAndValue ← market.pnlFactorWithPoolValue prices isLong true
  let pnlFactor := factorAndValue.1
  return decide (0 < pnlFactor ∧
    pnlFactor.natAbs > market.config.pnlFactorConfig kind isLong)

def validatePnlFactor (market : Market isPure) (prices : Prices)
    (kind : PnlFactorKind) (isLong : Bool) : Result Unit := do
  let exceeded ← market.pnlFactorExceeded prices kind isLong
  ensure (exceeded = false) (.pnlFactorExceeded kind (getMsgBySide isLong))

def validateMaxPnl (market : Market isPure) (prices : Prices)
    (longKind shortKind : PnlFactorKind) : Result Unit := do
  market.validatePnlFactor prices longKind true
  market.validatePnlFactor prices shortKind false

def validatePoolAmount (market : Market isPure) (isLongToken : Bool) :
    Result Unit :=
  ensure (market.primary.amount isLongToken ≤
      market.config.maxPoolAmount isLongToken)
    (.maxPoolAmountExceeded (getMsgBySide isLongToken))

/-- Longs reserve the value of their tokens, shorts their open interest. -/
def reservedValue (market : Market isPure) (indexTokenPrice : Price)
    (isLong : Bool) : Result ℕ :=
  if isLong then do
    let tokens ← market.openInterestInTokensAmount true
    okOr (checkedMul tokens (indexTokenPrice.pickPrice true)) .overflow
  else market.openInterestAmount false

/-- The reserve check shared by `validate_reserve` and
`validate_open_interest_reserve`. -/
def validateReserveWith (market : Market isPure) (prices : Prices)
    (isLong : Bool) (factor : ℕ) (insufficient : ℕ → ℕ → Error) :
    Result Unit := do
  let poolValue ← market.poolValueWithoutPnlForOneSide prices isLong false
  let maxReservedValue ← okOr (applyFactor poolValue factor)
    (.computation "calculating max reserved value")
  let reservedValue ← market.reservedValue prices.indexTokenPrice isLong
  ensure (reservedValue ≤ maxReservedValue)
    (insufficient reservedValue maxReservedValue)

def validateReserve (market : Market isPure) (prices : Prices)
    (isLong : Bool) : Result Unit :=
  market.validateReserveWith prices isLong market.config.reserveFactor
    .insufficientReserve

def validateOpenInterestReserve (market : Market isPure) (prices : Prices)
    (isLong : Bool) : Result Unit :=
  market.validateReserveWith prices isLong
    market.config.openInterestReserveFactor .insufficientReserveForOpenInterest

/-! ## Expected balances -/

def expectedMinTokenBalanceExcludingCollateralAmountForOneTokenSide
    (market : Market isPure) (isLongSide : Bool) : Result ℕ := do
  let withImpact ← okOr (checkedAdd (market.primary.amount isLongSide)
      (market.swapImpact.amount isLongSide))
    (.computation "overflow adding swap impact pool amount")
  okOr (checkedAdd withImpact (market.claimableFee.amount isLongSide))
    (.computation "overflow adding claimable fee amount")

def totalCollateralAmountForOneTokenSide (market : Market isPure)
    (isLongSide : Bool) : Result ℕ :=
  okOr (checkedAdd ((market.collateralSum.get true).amount isLongSide)
      ((market.collateralSum.get false).amount isLongSide))
    (.computation "calculating total collateral sum for one side")

/-! ## Utilities -/

def usageFactor (market : Market isPure) (isLong : Bool)
    (reservedValue poolValue : ℕ) : Result ℕ := do
  let maxReservedValue ←
    okOr (applyFactor poolValue market.config.openInterestReserveFactor)
      (.computation "usage factor: calculating max reserved factor")
  let reserveUsageFactor ←
    okOr (divToFactor reservedValue maxReservedValue false)
      (.computation "usage factor: calculating reserve usage factor")
  if market.config.ignoreOpenInterestForUsageFactor then
    return reserveUsageFactor
  else
    let openInterest ← market.openInterestAmount isLong
    let openInterestUsageFactor ←
      okOr (divToFactor openInterest (market.config.maxOpenInterest isLong) false)
        (.computation "usage factor: calculating open interest usage factor")
    return if reserveUsageFactor > openInterestUsageFactor
      then reserveUsageFactor else openInterestUsageFactor

def capPnl (market : Market isPure) (isLong : Bool) (pnl : ℤ) (poolValue : ℕ)
    (kind : PnlFactorKind) : Result ℤ :=
  if 0 < pnl then do
    let cap ←
      okOr (applyFactor poolValue (market.config.pnlFactorConfig kind isLong))
        (.computation "calculating max pnl")
    let maxPnl ← toSigned cap
    return if pnl > maxPnl then maxPnl else pnl
  else .ok pnl

/-! ## Updates of the base pools -/

def applyDelta (market : Market isPure) (isLongToken : Bool) (delta : ℤ) :
    Result (Market isPure) := do
  let primary ← market.primary.applyDeltaAmount isLongToken delta
  return { market with primary }

def applyDeltaToClaimableFeePool (market : Market isPure) (isLongToken : Bool)
    (delta : ℤ) : Result (Market isPure) := do
  let claimableFee ← market.claimableFee.applyDeltaAmount isLongToken delta
  return { market with claimableFee }

/-! ## Swap impact -/

/-- The impact amount of one token, and the value cut off by the cap. -/
def swapImpactAmountWithCap (market : Market isPure) (isLongToken : Bool)
    (price : Price) (usdImpact : ℤ) : Result (ℤ × ℕ) :=
  if price.hasZero then .error .dividedByZero
  else if 0 < usdImpact then do
    let maxPrice ← toSigned (price.pickPrice true)
    let amount ← okOr (signedDiv usdImpact maxPrice)
      (.computation "calculating swap impact amount")
    let maxAmount ← toSigned (market.swapImpact.amount isLongToken)
    if amount > maxAmount then
      let cappedDiffValue ← okOr (do
          let diffAmount ← signedSub amount maxAmount
          checkedMul diffAmount.natAbs (price.pickPrice true))
        (.computation "calculating capped diff value")
      return (maxAmount, cappedDiffValue)
    else return (amount, 0)
  else if usdImpact < 0 then do
    let minPrice ← toSigned (price.pickPrice false)
    let amount ← okOr (do
        let shifted ← signedSub usdImpact minPrice
        let numerator ← signedAdd shifted 1
        signedDiv numerator minPrice)
      (.computation "calculating round up swap impact amount")
    return (amount, 0)
  else .ok (0, 0)

/-- Moves the impact amount out of (or into) the impact pool; returns the
market and the magnitude of the moved amount. -/
def applySwapImpactValueWithCap (market : Market isPure) (isLongToken : Bool)
    (price : Price) (usdImpact : ℤ) : Result (Market isPure × ℕ) := do
  let capped ← market.swapImpactAmountWithCap isLongToken price usdImpact
  let delta ← okOr (signedNeg capped.1) (.computation "negating swap impact delta")
  let swapImpact ← market.swapImpact.applyDeltaAmount isLongToken delta
  return ({ market with swapImpact }, delta.natAbs)

end Market

end Gmsol.Model
