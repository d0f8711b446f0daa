import Gmsol.Oracle.PriceFeed
import Gmsol.Oracle.PriceLaws

/-!
# Prices of feeds

The oracle reads the price of a token from an account of the provider that is expected
for the token: a custom price feed, or an account of one of three other programs.  Each
provider says in its own form how old its price is and how it is to be scaled.

What the oracle keeps is a quote of the account that was listed for the token, which is
fresh, and whose bounds are rounded once.  For a custom price feed that quote is the
newest report published to it: a report that is narrowed to 128 bits is kept as it would
have been otherwise, as long as it has decimals left for the precision.
-/

namespace Gmsol.Oracle

open Fallible Narrowing Model

/-- A number as one of 128 bits. -/
def U128.wrap (value : ℕ) : U128 := ⟨value % 2 ^ 128, Nat.mod_lt _ (Nat.two_pow_pos 128)⟩

theorem U128.wrap_val {value : ℕ} (hlt : value < 2 ^ 128) : (U128.wrap value).val = value :=
  Nat.mod_eq_of_lt hlt

/-! ## What the configuration of a token asks for -/

namespace TokenConfig

def expectedProviderKind (config : TokenConfig) : Except PriceFeedError PriceProviderKind :=
  PriceProviderKind.tryFrom config.expectedProvider

def getFeed (config : TokenConfig) (kind : PriceProviderKind) :
    Except PriceFeedError Pubkey :=
  ((config.getFeedConfig kind).mapError fun _ => .notFound).map FeedConfig.feed

/-- The price with the decimals and the precision of the token. -/
def toDecimal (config : TokenConfig) (price : U128) (decimals : ℕ) :
    Except PriceFeedError Decimal :=
  (Decimal.tryFromPrice price decimals config.tokenDecimals config.precision).mapError
    fun _ => .invalidPriceFeedPrice

/-- A timestamp is not older than the heartbeat of the token. -/
def IsUpdated (config : TokenConfig) (clock : SysvarClock) (timestamp : ℤ) : Prop :=
  ¬(timestamp < clock.unixTimestamp ∧
    config.heartbeatDuration < clock.unixTimestamp - timestamp)

instance (config : TokenConfig) (clock : SysvarClock) (timestamp : ℤ) :
    Decidable (config.IsUpdated clock timestamp) := by
  unfold IsUpdated
  infer_instance

theorem IsUpdated.le {config : TokenConfig} {clock : SysvarClock} {timestamp : ℤ}
    (hupdated : config.IsUpdated clock timestamp) :
    clock.unixTimestamp ≤ timestamp + config.heartbeatDuration := by
  unfold IsUpdated at hupdated
  omega

end TokenConfig

/-! ## Custom price feeds -/

def Narrowing.PriceFeedPrice.tryToPrice (price : PriceFeedPrice) (config : TokenConfig) :
    Except PriceFeedError PriceRange := do
  let min ← config.toDecimal price.minPrice price.decimals
  let max ← config.toDecimal price.maxPrice price.decimals
  return { min, max }

/-- The slot and the timestamp of a price, and the price. -/
abbrev Checked : Type := ℕ × ℤ × PriceRange

def PriceFeed.checkAndGetPrice (feed : PriceFeed) (clock : SysvarClock)
    (config : TokenConfig) : Except PriceFeedError Checked := do
  let provider ← PriceProviderKind.tryFrom feed.provider
  let expected ← config.expectedProviderKind
  ensure (expected = provider) .requireEqViolated
  let feedId ← config.getFeed provider
  ensure (feed.feedId = feedId) .invalidPriceFeedAccount
  ensure (feed.price.isMarketOpen = true) .marketNotOpen
  ensure (config.IsUpdated clock feed.price.ts) .priceFeedNotUpdated
  let price ← feed.price.tryToPrice config
  return (feed.lastPublishedAtSlot, feed.price.ts, price)

/-! ## Pyth -/

structure PythPrice where
  price : ℤ
  conf : ℕ
  exponent : ℤ
  publishTime : ℤ

/-- What the accounts of the receiver program of Pyth say. -/
structure PythReceiver (Update : Type) where
  getPriceNoOlderThan : Update → SysvarClock → ℕ → Pubkey → Option PythPrice
  postedSlot : Update → ℕ

namespace Pyth

/-- The value scaled to an exponent that is not positive, and its decimals. -/
def scaleValue (value : ℕ) (exponent : ℤ) : Except PriceFeedError (ℕ × ℕ) := do
  if exponent ≤ 0 then
    ensure (exponent ≠ -2 ^ 31) (.panic "attempt to negate with overflow")
    ensure (-exponent ≤ 255) .invalidPriceFeedPrice
    return (value, (-exponent).toNat)
  else
    ensure (10 ^ exponent.toNat < 2 ^ 64) .invalidPriceFeedPrice
    ensure (value * 10 ^ exponent.toNat < 2 ^ 64) .invalidPriceFeedPrice
    return (value * 10 ^ exponent.toNat, 0)

def priceValueToDecimal (value : ℕ) (exponent : ℤ) (config : TokenConfig) :
    Except PriceFeedError Decimal := do
  let (value, decimals) ← scaleValue value exponent
  config.toDecimal (U128.wrap value) decimals

def priceWithConfidenceToPrice (price : ℤ) (confidence : ℕ) (exponent : ℤ)
    (config : TokenConfig) : Except PriceFeedError PriceRange := do
  ensure (0 ≤ price) .invalidPriceFeedPrice
  let midPrice := price.toNat
  ensure (confidence ≤ midPrice) .invalidPriceFeedPrice
  ensure (midPrice + confidence < 2 ^ 64) .invalidPriceFeedPrice
  let min ← priceValueToDecimal (midPrice - confidence) exponent config
  let max ← priceValueToDecimal (midPrice + confidence) exponent config
  return { min, max }

def checkAndGetPrice {Update : Type} (receiver : PythReceiver Update) (clock : SysvarClock)
    (config : TokenConfig) (feed : Update) (feedId : Pubkey) :
    Except PriceFeedError Checked := do
  let price ← okOr
    (receiver.getPriceNoOlderThan feed clock config.heartbeatDuration feedId) .pyth
  let parsedPrice ←
    priceWithConfidenceToPrice price.price price.conf price.exponent config
  return (receiver.postedSlot feed, price.publishTime, parsedPrice)

end Pyth

/-! ## Chainlink -/

structure Round where
  slot : ℕ
  timestamp : ℕ
  answer : ℤ
  answer_lt : answer < 2 ^ 127

def Chainlink.checkAndGetPriceFromRound (clock : SysvarClock) (round : Round)
    (decimals : ℕ) (config : TokenConfig) : Except PriceFeedError Checked := do
  ensure (0 < round.answer) .invalidPriceFeedPrice
  ensure (config.IsUpdated clock round.timestamp) .priceFeedNotUpdated
  let price ← config.toDecimal (U128.wrap round.answer.toNat) decimals
  return (round.slot, round.timestamp, { min := price, max := price })

/-! ## Switchboard -/

/-- A decimal of the feeds: its mantissa and its scale. -/
structure SbDecimal where
  mantissa : ℤ
  scale : ℕ
  mantissa_lt : mantissa < 2 ^ 96

structure SbFeed where
  resultTs : ℤ
  resultLandSlot : ℕ
  minValue : Option SbDecimal
  maxValue : Option SbDecimal

namespace Switchboard

def fromRustDecimalPrice (price : SbDecimal) (config : TokenConfig) :
    Except PriceFeedError Decimal := do
  ensure (0 ≤ price.mantissa) .invalidPriceFeedPrice
  ensure (price.scale ≤ 255) .invalidPriceFeedPrice
  config.toDecimal (U128.wrap price.mantissa.toNat) price.scale

def priceFrom (feed : SbFeed) (config : TokenConfig) : Except PriceFeedError PriceRange := do
  let minPrice ← okOr feed.minValue .priceIsStale
  let min ← fromRustDecimalPrice minPrice config
  let maxPrice ← okOr feed.maxValue .priceIsStale
  let max ← fromRustDecimalPrice maxPrice config
  return { min, max }

def checkAndGetPrice (clock : SysvarClock) (config : TokenConfig) (feed : SbFeed) :
    Except PriceFeedError Checked := do
  ensure (clock.unixTimestamp ≤ saturatingAddUnsigned feed.resultTs config.heartbeatDuration)
    .priceFeedNotUpdated
  let price ← priceFrom feed config
  return (feed.resultLandSlot, feed.resultTs, price)

end Switchboard

/-! ## Accounts -/

/-- An account that may be listed for a token, by the program that owns it. -/
inductive FeedAccount (Update : Type)
  | priceFeed (feed : PriceFeed)
  | pyth (update : Update)
  | chainlink (round : Round) (decimals : ℕ)
  | switchboard (feed : SbFeed)
  | other

/-- What the prices of feeds are read with: the receiver of Pyth, whether the program of
Chainlink is there, and the accounts. -/
structure FeedReader (Update : Type) where
  receiver : PythReceiver Update
  hasChainlink : Bool
  accounts : Pubkey → FeedAccount Update

variable {Update : Type}

/-- The provider of an account, with the price if it is a custom price feed. -/
def FeedAccount.providerAndParsed (account : FeedAccount Update) (clock : SysvarClock)
    (config : TokenConfig) : Except PriceFeedError (PriceProviderKind × Option Checked) :=
  match account with
  | .priceFeed feed => do
      let kind ← PriceProviderKind.tryFrom feed.provider
      let checked ← feed.checkAndGetPrice clock config
      return (kind, some checked)
  | .pyth _ => .ok (.pyth, none)
  | .chainlink _ _ => .ok (.chainlink, none)
  | .switchboard _ => .ok (.switchboard, none)
  | .other => .error .invalidPriceFeedAccount

/-- The price of an account by the program of the given provider. -/
def FeedReader.checkAndGetPrice (reader : FeedReader Update) (clock : SysvarClock)
    (config : TokenConfig) (key : Pubkey) (provider : PriceProviderKind)
    (feedId : Pubkey) (parsed : Option Checked) : Except PriceFeedError Checked :=
  match provider with
  | .chainlinkDataStreams => okOr parsed .internal
  | .pyth =>
      match reader.accounts key with
      | .pyth update => Pyth.checkAndGetPrice reader.receiver clock config update feedId
      | _ => .error .accountOwnedByWrongProgram
  | .chainlink => do
      ensure (feedId = key) .invalidPriceFeedAccount
      ensure (reader.hasChainlink = true) .chainlinkProgramIsRequired
      match reader.accounts key with
      | .chainlink round decimals =>
          Chainlink.checkAndGetPriceFromRound clock round decimals config
      | _ => .error .accountOwnedByWrongProgram
  | .switchboard => do
      ensure (feedId = key) .invalidPriceFeedAccount
      match reader.accounts key with
      | .switchboard feed => Switchboard.checkAndGetPrice clock config feed
      | _ => .error .accountOwnedByWrongProgram

def FeedReader.parseFromFeedAccount (reader : FeedReader Update) (clock : SysvarClock)
    (config : TokenConfig) (key : Pubkey) : Except PriceFeedError OraclePrice := do
  let (provider, parsed) ← (reader.accounts key).providerAndParsed clock config
  let expected ← config.expectedProviderKind
  ensure (expected = provider) .requireEqViolated
  let feedId ← config.getFeed provider
  let (oracleSlot, oracleTs, price) ←
    reader.checkAndGetPrice clock config key provider feedId parsed
  return { provider, oracleSlot, oracleTs, price }

/-- How a call stops that has read a feed.  Only the scaling of a price may stop the
program, when it negates the smallest exponent. -/
def PriceFeedError.toStopped : PriceFeedError → Stopped
  | .panic _ => .panic .arithmeticOverflow
  | error => .error (.feed (reprStr error))

/-- The sources of the oracle, whose feeds are accounts by their addresses. -/
def FeedReader.sources (reader : FeedReader Update)
    (getConfig : Pubkey → Option TokenConfig) : Sources Pubkey where
  getConfig := getConfig
  parseFromFeedAccount clock config key :=
    (reader.parseFromFeedAccount clock config key).mapError PriceFeedError.toStopped

/-! ## Quotes -/

/-- What an account says about the price of a token: two bounds, each with its decimals. -/
structure Quote where
  minPrice : ℕ
  minDecimals : ℕ
  maxPrice : ℕ
  maxDecimals : ℕ
  ts : ℤ
  slot : ℕ

/-- A decimal keeps the low 32 bits of a price with the precision of the token. -/
structure TokenConfig.Rounds (config : TokenConfig) (price decimals : ℕ)
    (decimal : Decimal) : Prop where
  limits : Decimal.WithinLimits decimals config.tokenDecimals config.precision
  value_eq : decimal.value = Decimal.floorPrice price decimals config.precision % 2 ^ 32
  decimalMultiplier_eq : decimal.decimalMultiplier =
    Decimal.decimalMultiplierFromPrecision config.tokenDecimals config.precision

/-- A quote is read for a token: it is fresh, and both bounds are rounded. -/
structure Quote.IsRead (clock : SysvarClock) (config : TokenConfig) (quote : Quote)
    (checked : Checked) : Prop where
  slot_eq : checked.1 = quote.slot
  ts_eq : checked.2.1 = quote.ts
  fresh : clock.unixTimestamp ≤ quote.ts + config.heartbeatDuration
  min : config.Rounds quote.minPrice quote.minDecimals checked.2.2.min
  max : config.Rounds quote.maxPrice quote.maxDecimals checked.2.2.max

def PriceFeed.quote (feed : PriceFeed) : Quote where
  minPrice := feed.price.minPrice
  minDecimals := feed.price.decimals
  maxPrice := feed.price.maxPrice
  maxDecimals := feed.price.decimals
  ts := feed.price.ts
  slot := feed.lastPublishedAtSlot

/-- The price less and plus its confidence, scaled to whole decimals. -/
def PythPrice.quote (price : PythPrice) (slot : ℕ) : Quote where
  minPrice := (price.price.toNat - price.conf) * 10 ^ price.exponent.toNat
  minDecimals := (-price.exponent).toNat
  maxPrice := (price.price.toNat + price.conf) * 10 ^ price.exponent.toNat
  maxDecimals := (-price.exponent).toNat
  ts := price.publishTime
  slot := slot

def Round.quote (round : Round) (decimals : ℕ) : Quote where
  minPrice := round.answer.toNat
  minDecimals := decimals
  maxPrice := round.answer.toNat
  maxDecimals := decimals
  ts := round.timestamp
  slot := round.slot

def SbFeed.quote (feed : SbFeed) (min max : SbDecimal) : Quote where
  minPrice := min.mantissa.toNat
  minDecimals := min.scale
  maxPrice := max.mantissa.toNat
  maxDecimals := max.scale
  ts := feed.resultTs
  slot := feed.resultLandSlot

/-- The account with the given key quotes a price for the feed with the given id. -/
inductive FeedReader.Quotes (reader : FeedReader Update) (clock : SysvarClock)
    (config : TokenConfig) (key feedId : Pubkey) : PriceProviderKind → Quote → Prop
  | chainlinkDataStreams (feed : PriceFeed) (account : reader.accounts key = .priceFeed feed)
      (feedId_eq : feed.feedId = feedId) (isOpen : feed.price.isMarketOpen = true) :
      Quotes reader clock config key feedId .chainlinkDataStreams feed.quote
  | pyth (update : Update) (price : PythPrice) (account : reader.accounts key = .pyth update)
      (found : reader.receiver.getPriceNoOlderThan update clock config.heartbeatDuration
        feedId = some price)
      (confident : (price.conf : ℤ) ≤ price.price) :
      Quotes reader clock config key feedId .pyth
        (price.quote (reader.receiver.postedSlot update))
  | chainlink (round : Round) (decimals : ℕ)
      (account : reader.accounts key = .chainlink round decimals) (key_eq : feedId = key)
      (positive : 0 < round.answer) :
      Quotes reader clock config key feedId .chainlink (round.quote decimals)
  | switchboard (feed : SbFeed) (min max : SbDecimal)
      (account : reader.accounts key = .switchboard feed) (key_eq : feedId = key)
      (min_eq : feed.minValue = some min) (max_eq : feed.maxValue = some max)
      (min_nonneg : 0 ≤ min.mantissa) (max_nonneg : 0 ≤ max.mantissa) :
      Quotes reader clock config key feedId .switchboard (feed.quote min max)

/-- The receiver finds prices of the given age only. -/
def PythReceiver.FindsFresh (receiver : PythReceiver Update) : Prop :=
  ∀ update clock maxAge feedId price,
    receiver.getPriceNoOlderThan update clock maxAge feedId = some price →
      clock.unixTimestamp ≤ price.publishTime + maxAge

/-! ## Reading a quote -/

section Reading

variable {clock : SysvarClock} {config : TokenConfig} {key feedId : Pubkey}
  {checked : Checked} {decimals : ℕ} {decimal : Decimal}

theorem TokenConfig.toDecimal_eq_ok {price : U128}
    (hdecimal : config.toDecimal price decimals = .ok decimal) :
    config.Rounds price decimals decimal := by
  rw [toDecimal, mapError_eq_ok, Decimal.tryFromPrice_eq] at hdecimal
  split_ifs at hdecimal with hlimits hscaled
  obtain rfl := Except.ok.inj hdecimal
  exact ⟨hlimits, rfl, rfl⟩

/-- Rounding a number that fits in 128 bits. -/
theorem TokenConfig.toDecimal_wrap_eq_ok {price : ℕ} (hlt : price < 2 ^ 128)
    (hdecimal : config.toDecimal (U128.wrap price) decimals = .ok decimal) :
    config.Rounds price decimals decimal := by
  have hrounds := toDecimal_eq_ok hdecimal
  rwa [U128.wrap_val hlt] at hrounds

theorem PriceFeed.checkAndGetPrice_eq_ok {feed : PriceFeed}
    (hcheck : feed.checkAndGetPrice clock config = .ok checked) :
    ∃ provider, PriceProviderKind.tryFrom feed.provider = .ok provider ∧
      config.getFeed provider = .ok feed.feedId ∧ feed.price.isMarketOpen = true ∧
      feed.quote.IsRead clock config checked := by
  simp only [checkAndGetPrice, PriceFeedPrice.tryToPrice, bind_eq_ok, ensure_eq_ok,
    pure_eq_ok] at hcheck
  obtain ⟨provider, hprovider, expected, -, _, -, found, hfound, _, hfeedId, _, hopen, _,
    hupdated, price, ⟨min, hmin, max, hmax, rfl⟩, rfl⟩ := hcheck
  exact ⟨provider, hprovider, hfeedId ▸ hfound, hopen, rfl, rfl, hupdated.le,
    TokenConfig.toDecimal_eq_ok hmin, TokenConfig.toDecimal_eq_ok hmax⟩

theorem Pyth.priceValueToDecimal_eq_ok {value : ℕ} {exponent : ℤ} (hlt : value < 2 ^ 64)
    (hdecimal : priceValueToDecimal value exponent config = .ok decimal) :
    config.Rounds (value * 10 ^ exponent.toNat) (-exponent).toNat decimal := by
  simp only [priceValueToDecimal, bind_eq_ok] at hdecimal
  obtain ⟨⟨scaled, decimals⟩, hscale, hdecimal⟩ := hdecimal
  obtain ⟨rfl, rfl, hscaled⟩ : value * 10 ^ exponent.toNat = scaled ∧
      (-exponent).toNat = decimals ∧ scaled < 2 ^ 64 := by
    unfold scaleValue at hscale
    split_ifs at hscale with hsign
    · simp only [bind_eq_ok, ensure_eq_ok, pure_eq_ok, Prod.mk.injEq] at hscale
      obtain ⟨_, -, _, -, rfl, rfl⟩ := hscale
      rw [Int.toNat_of_nonpos hsign, pow_zero, mul_one]
      exact ⟨rfl, rfl, hlt⟩
    · simp only [bind_eq_ok, ensure_eq_ok, pure_eq_ok, Prod.mk.injEq] at hscale
      obtain ⟨_, -, _, hfits, rfl, rfl⟩ := hscale
      exact ⟨rfl, Int.toNat_of_nonpos (by omega), hfits⟩
  exact TokenConfig.toDecimal_wrap_eq_ok (hscaled.trans (by norm_num)) hdecimal

theorem Pyth.checkAndGetPrice_eq_ok {receiver : PythReceiver Update} {update : Update}
    (hreceiver : receiver.FindsFresh)
    (hcheck : checkAndGetPrice receiver clock config update feedId = .ok checked) :
    ∃ price, receiver.getPriceNoOlderThan update clock config.heartbeatDuration feedId =
        some price ∧ (price.conf : ℤ) ≤ price.price ∧
      (price.quote (receiver.postedSlot update)).IsRead clock config checked := by
  simp only [checkAndGetPrice, priceWithConfidenceToPrice, bind_eq_ok, okOr_eq_ok,
    ensure_eq_ok, pure_eq_ok] at hcheck
  obtain ⟨price, hfound, _, ⟨_, hnonneg, _, hconf, _, hsum, min, hmin, max, hmax, rfl⟩,
    rfl⟩ := hcheck
  exact ⟨price, hfound, by omega, rfl, rfl, hreceiver _ _ _ _ _ hfound,
    priceValueToDecimal_eq_ok (by omega) hmin, priceValueToDecimal_eq_ok hsum hmax⟩

theorem Chainlink.checkAndGetPriceFromRound_eq_ok {round : Round}
    (hcheck : checkAndGetPriceFromRound clock round decimals config = .ok checked) :
    0 < round.answer ∧ (round.quote decimals).IsRead clock config checked := by
  simp only [checkAndGetPriceFromRound, bind_eq_ok, ensure_eq_ok, pure_eq_ok] at hcheck
  obtain ⟨_, hpositive, _, hupdated, decimal, hdecimal, rfl⟩ := hcheck
  have hlt := round.answer_lt
  have hrounds := TokenConfig.toDecimal_wrap_eq_ok (by omega) hdecimal
  exact ⟨hpositive, rfl, rfl, hupdated.le, hrounds, hrounds⟩

theorem Switchboard.fromRustDecimalPrice_eq_ok {price : SbDecimal}
    (hdecimal : fromRustDecimalPrice price config = .ok decimal) :
    0 ≤ price.mantissa ∧ config.Rounds price.mantissa.toNat price.scale decimal := by
  simp only [fromRustDecimalPrice, bind_eq_ok, ensure_eq_ok] at hdecimal
  obtain ⟨_, hnonneg, _, -, hdecimal⟩ := hdecimal
  have hlt := price.mantissa_lt
  exact ⟨hnonneg, TokenConfig.toDecimal_wrap_eq_ok (by omega) hdecimal⟩

theorem Switchboard.checkAndGetPrice_eq_ok {feed : SbFeed}
    (hcheck : checkAndGetPrice clock config feed = .ok checked) :
    ∃ min max, feed.minValue = some min ∧ feed.maxValue = some max ∧
      0 ≤ min.mantissa ∧ 0 ≤ max.mantissa ∧
      (feed.quote min max).IsRead clock config checked := by
  simp only [checkAndGetPrice, priceFrom, bind_eq_ok, okOr_eq_ok, ensure_eq_ok,
    pure_eq_ok] at hcheck
  obtain ⟨_, hupdated, _, ⟨min, hmin, _, hminPrice, max, hmax, _, hmaxPrice, rfl⟩, rfl⟩ :=
    hcheck
  obtain ⟨hminNonneg, hminRounds⟩ := fromRustDecimalPrice_eq_ok hminPrice
  obtain ⟨hmaxNonneg, hmaxRounds⟩ := fromRustDecimalPrice_eq_ok hmaxPrice
  exact ⟨min, max, hmin, hmax, hminNonneg, hmaxNonneg, rfl, rfl,
    hupdated.trans (min_le_left _ _), hminRounds, hmaxRounds⟩

end Reading

/-! ## Reading an account -/

section Accounts

variable {reader : FeedReader Update} {clock : SysvarClock} {config : TokenConfig}
  {key feedId : Pubkey} {provider : PriceProviderKind}

theorem FeedReader.checkAndGetPrice_eq_ok {parsed : Option Checked} {checked : Checked}
    (hreceiver : reader.receiver.FindsFresh)
    (hparsed : (reader.accounts key).providerAndParsed clock config =
      .ok (provider, parsed)) (hfeedId : config.getFeed provider = .ok feedId)
    (hcheck : reader.checkAndGetPrice clock config key provider feedId parsed =
      .ok checked) :
    ∃ quote, reader.Quotes clock config key feedId provider quote ∧
      quote.IsRead clock config checked := by
  unfold checkAndGetPrice at hcheck
  split at hcheck
  · -- only a custom price feed has a price already
    obtain rfl := okOr_eq_ok.mp hcheck
    cases haccount : reader.accounts key with
    | priceFeed feed =>
        simp only [haccount, FeedAccount.providerAndParsed, bind_eq_ok, pure_eq_ok,
          Prod.mk.injEq, Option.some.injEq] at hparsed
        obtain ⟨kind, hkind, checked, hchecked, rfl, rfl⟩ := hparsed
        obtain ⟨other, hother, hfound, hopen, hread⟩ :=
          PriceFeed.checkAndGetPrice_eq_ok hchecked
        obtain rfl := Except.ok.inj (hkind.symm.trans hother)
        obtain rfl := Except.ok.inj (hfound.symm.trans hfeedId)
        exact ⟨_, .chainlinkDataStreams feed haccount rfl hopen, hread⟩
    | pyth _ => simp [haccount, FeedAccount.providerAndParsed] at hparsed
    | chainlink _ _ => simp [haccount, FeedAccount.providerAndParsed] at hparsed
    | switchboard _ => simp [haccount, FeedAccount.providerAndParsed] at hparsed
    | other => simp [haccount, FeedAccount.providerAndParsed] at hparsed
  · split at hcheck
    · rename_i update haccount
      obtain ⟨price, hfound, hconf, hread⟩ := Pyth.checkAndGetPrice_eq_ok hreceiver hcheck
      exact ⟨_, .pyth update price haccount hfound hconf, hread⟩
    · cases hcheck
  · simp only [bind_eq_ok, ensure_eq_ok] at hcheck
    obtain ⟨_, hkey, _, -, hcheck⟩ := hcheck
    split at hcheck
    · rename_i round decimals haccount
      obtain ⟨hpositive, hread⟩ := Chainlink.checkAndGetPriceFromRound_eq_ok hcheck
      exact ⟨_, .chainlink round decimals haccount hkey hpositive, hread⟩
    · cases hcheck
  · simp only [bind_eq_ok, ensure_eq_ok] at hcheck
    obtain ⟨_, hkey, hcheck⟩ := hcheck
    split at hcheck
    · rename_i feed haccount
      obtain ⟨min, max, hmin, hmax, hminNonneg, hmaxNonneg, hread⟩ :=
        Switchboard.checkAndGetPrice_eq_ok hcheck
      exact ⟨_, .switchboard feed min max haccount hkey hmin hmax hminNonneg hmaxNonneg,
        hread⟩
    · cases hcheck

/-- What is read from an account is a fresh quote of the expected provider, for the feed
that the token is configured with. -/
theorem FeedReader.parseFromFeedAccount_eq_ok {read : OraclePrice}
    (hreceiver : reader.receiver.FindsFresh)
    (hparse : reader.parseFromFeedAccount clock config key = .ok read) :
    config.expectedProviderKind = .ok read.provider ∧
      ∃ feedId quote, config.getFeed read.provider = .ok feedId ∧
        reader.Quotes clock config key feedId read.provider quote ∧
        quote.IsRead clock config (read.oracleSlot, read.oracleTs, read.price) := by
  simp only [parseFromFeedAccount, bind_eq_ok, ensure_eq_ok, pure_eq_ok] at hparse
  obtain ⟨⟨provider, parsed⟩, hparsed, expected, hexpected, _, rfl, feedId, hfeedId,
    ⟨oracleSlot, oracleTs, price⟩, hcheck, rfl⟩ := hparse
  obtain ⟨quote, hquotes, hread⟩ :=
    checkAndGetPrice_eq_ok hreceiver hparsed hfeedId hcheck
  exact ⟨hexpected, feedId, quote, hfeedId, hquotes, hread⟩

end Accounts

/-! ## The prices of the oracle -/

/-- The prices keep a quote, up to what 32 bits hold of its rounded bounds. -/
structure SmallPrices.Keeps (config : TokenConfig) (quote : Quote) (prices : SmallPrices) :
    Prop where
  valid : prices.Valid
  min_eq : prices.min =
    Decimal.floorPrice quote.minPrice quote.minDecimals config.precision % 2 ^ 32
  max_eq : prices.max =
    Decimal.floorPrice quote.maxPrice quote.maxDecimals config.precision % 2 ^ 32
  decimalMultiplier_eq : prices.decimalMultiplier =
    Decimal.decimalMultiplierFromPrecision config.tokenDecimals config.precision
  isSynthetic_eq : prices.isSynthetic = config.isSynthetic

/-- The price of a token is a fresh quote of the account listed for it. -/
structure FeedReader.SetFrom (reader : FeedReader Update) (clock : SysvarClock)
    (config : TokenConfig) (key : Pubkey) (prices : SmallPrices)
    (provider : PriceProviderKind) (feedId : Pubkey) (quote : Quote) : Prop where
  expected : config.expectedProviderKind = .ok provider
  getFeed : config.getFeed provider = .ok feedId
  quotes : reader.Quotes clock config key feedId provider quote
  fresh : clock.unixTimestamp ≤ quote.ts + config.heartbeatDuration
  keeps : prices.Keeps config quote

section Oracle

variable {reader : FeedReader Update} {getConfig : Pubkey → Option TokenConfig}
  {clock : SysvarClock} {amounts : OracleAmounts} {tokens keys : List Pubkey}
  {oracle updated : Oracle} {token : Pubkey} {prices : SmallPrices}

/-- Every listed token is enabled. -/
theorem setPrices_isEnabled {Feed : Type} {sources : Sources Feed}
    {listed : List (Pubkey × Feed)} {validator validated : PriceValidator}
    {filled : Oracle}
    (hset : setPrices sources validator oracle listed = (filled, .ok validated)) :
    ∀ entry ∈ listed, ∀ config, sources.getConfig entry.1 = some config →
      config.isEnabled = true := by
  induction listed generalizing validator oracle with
  | nil => exact fun entry hentry => absurd hentry List.not_mem_nil
  | cons head rest ih =>
      rw [setPrices] at hset
      split at hset
      · cases hset
      rename_i merged next hone
      refine List.forall_mem_cons.mpr ⟨fun config hconfig => ?_, ih hset⟩
      rw [setPrice] at hone
      split at hone
      · cases hone
      rename_i _ hread
      simp only [readFeed, bind_eq_ok, okOr_eq_ok, ensure_eq_ok] at hread
      obtain ⟨found, hfound, _, henabled, -⟩ := hread
      obtain rfl := Option.some.inj (hfound.symm.trans hconfig)
      exact henabled

/-- Updating the range keeps the prices. -/
theorem updateOracleTsAndSlot_primary {validator : PriceValidator}
    (hupdate : oracle.updateOracleTsAndSlot validator = .ok updated) :
    updated.primary = oracle.primary := by
  simp only [updateOracleTsAndSlot, bind_eq_ok] at hupdate
  obtain ⟨range, -, hwritten⟩ := hupdate
  split at hwritten
  · rw [← pure_eq_ok.mp hwritten]
  · rw [pure_eq_ok.mp hwritten]

/-- Every price of an oracle that was cleared before is the reading of an account that
is listed for its token. -/
theorem setPricesFromRemainingAccounts_reading {Feed : Type} {sources : Sources Feed}
    {remainingAccounts : List Feed} (hcleared : oracle.Cleared)
    (hset : oracle.setPricesFromRemainingAccounts (.tryFrom clock amounts) sources tokens
      remainingAccounts = (updated, .ok ()))
    (hprices : updated.primary.get token = .ok (some prices)) :
    ∃ feed found, (token, feed) ∈ tokens.zip remainingAccounts ∧
      reading sources clock token feed = .ok found ∧ found.prices = prices ∧
      ∀ config, sources.getConfig token = some config → config.isEnabled = true := by
  rw [setPricesFromRemainingAccounts] at hset
  split at hset
  · cases hset
  split at hset
  · cases hset
  rename_i filled validated hfilled
  split at hset
  · cases hset
  rename_i hupdate
  obtain ⟨rfl, -⟩ := Prod.mk.inj hset
  rw [updateOracleTsAndSlot_primary hupdate, PriceMap.get_eq, Except.ok.injEq] at hprices
  rcases setPrices_stored hfilled token with
    ⟨feed, found, hmem, hfound, hlookup⟩ | ⟨-, hlookup⟩
  · exact ⟨feed, found, hmem, hfound, Option.some.inj (hlookup.symm.trans hprices),
      fun config => setPrices_isEnabled hfilled (token, feed) hmem config⟩
  · rw [hprices, hcleared.primary, PriceMap.contents_zeroed] at hlookup
    exact absurd hlookup.symm (by simp)

/-- What a reading of an account keeps of its quote. -/
theorem FeedReader.reading_eq_ok (hreceiver : reader.receiver.FindsFresh) {key : Pubkey}
    {found : Reading} (hreading : reading (reader.sources getConfig) clock token key =
      .ok found) :
    ∃ config provider feedId quote, getConfig token = some config ∧
      reader.SetFrom clock config key found.prices provider feedId quote := by
  simp only [reading, FeedReader.sources, bind_eq_ok, okOr_eq_ok, mapError_eq_ok,
    pure_eq_ok] at hreading
  obtain ⟨config, hconfig, read, hparse, adjustment, -, prices, hprices, rfl⟩ := hreading
  obtain ⟨hexpected, feedId, quote, hfeedId, hquotes, hread⟩ :=
    parseFromFeedAccount_eq_ok hreceiver hparse
  obtain ⟨hvalid, hmin, hmax, hmultiplier, -, hsynthetic⟩ :=
    SmallPrices.fromPrice_eq_ok hprices
  exact ⟨config, read.provider, feedId, quote, hconfig, hexpected, hfeedId, hquotes,
    hread.fresh, hvalid, hmin.trans hread.min.value_eq, hmax.trans hread.max.value_eq,
    hmultiplier.trans hread.min.decimalMultiplier_eq, hsynthetic⟩

/-- Every price that is set from the listed accounts is one of an enabled token, and
keeps a fresh quote of its expected provider for the feed it is configured with. -/
theorem FeedReader.setPrices_setFrom (hreceiver : reader.receiver.FindsFresh)
    (hcleared : oracle.Cleared)
    (hset : oracle.setPricesFromRemainingAccounts (.tryFrom clock amounts)
      (reader.sources getConfig) tokens keys = (updated, .ok ()))
    (hprices : updated.primary.get token = .ok (some prices)) :
    ∃ config key provider feedId quote, getConfig token = some config ∧
      config.isEnabled = true ∧ (token, key) ∈ tokens.zip keys ∧
      reader.SetFrom clock config key prices provider feedId quote := by
  obtain ⟨key, found, hmem, hfound, rfl, henabled⟩ :=
    setPricesFromRemainingAccounts_reading hcleared hset hprices
  obtain ⟨config, provider, feedId, quote, hconfig, hsetFrom⟩ :=
    reading_eq_ok hreceiver hfound
  exact ⟨config, key, provider, feedId, quote, hconfig, henabled config hconfig, hmem,
    hsetFrom⟩

end Oracle

section Store

/-- The updates of this receiver are the times at which they were published. -/
def storeReceiver : PythReceiver ℤ where
  getPriceNoOlderThan update clock maxAge _ :=
    if clock.unixTimestamp ≤ update + maxAge then some ⟨5000, 10, -2, update⟩ else none
  postedSlot update := update.toNat

theorem storeReceiver_findsFresh : storeReceiver.FindsFresh := by
  intro update clock maxAge feedId price hfound
  simp only [storeReceiver] at hfound
  split_ifs at hfound with hfresh
  obtain rfl := Option.some.inj hfound
  exact hfresh

/-- The feeds of the token are the account 7 of the given provider. -/
def storeConfigFor (provider : ℕ) : TokenConfig :=
  { storeTokenConfig with expectedProvider := provider }

def storeReader (accounts : Pubkey → FeedAccount ℤ) : FeedReader ℤ where
  receiver := storeReceiver
  hasChainlink := true
  accounts := accounts

def storePythSources : Sources Pubkey :=
  (storeReader fun _ => .pyth 980).sources fun _ => some (storeConfigFor 1)

/-- The price of a token is set from an update of Pyth. -/
theorem FeedReader.setPrices_setFrom_sample :
    ∃ updated prices config key provider feedId quote,
    storeOracle.setPricesFromRemainingAccounts (.tryFrom storeClock storeAmounts)
      storePythSources [3] [7] = (updated, .ok ()) ∧
    updated.primary.get 3 = .ok (some prices) ∧ config.isEnabled = true ∧
    (storeReader fun _ => .pyth 980).SetFrom storeClock config key prices provider feedId
      quote := by
  have hset : (storeOracle.setPricesFromRemainingAccounts (.tryFrom storeClock storeAmounts)
      storePythSources [3] [7]).2 = .ok () := by
    decide +kernel
  have hprices : (storeOracle.setPricesFromRemainingAccounts (.tryFrom storeClock storeAmounts)
      storePythSources [3] [7]).1.primary.get 3 =
        .ok (some ⟨7, 0, 499000, 501000⟩) := by
    decide +kernel
  obtain ⟨config, key, provider, feedId, quote, -, henabled, -, hfrom⟩ :=
    FeedReader.setPrices_setFrom storeReceiver_findsFresh storeOracle_cleared
      (Prod.ext rfl hset) hprices
  exact ⟨_, _, config, key, provider, feedId, quote, Prod.ext rfl hset, hprices, henabled,
    hfrom⟩

end Store

/-! ## Narrowing and rounding -/

section Narrowing

variable {price shift decimals precision : ℕ}

/-- Rounding down twice loses no more than rounding down once, as long as decimals are
left for the precision. -/
theorem Decimal.floorPrice_div (hle : precision + shift ≤ decimals) :
    floorPrice (price / 10 ^ shift) (decimals - shift) precision =
      floorPrice price decimals precision := by
  rw [floorPrice_of_ge _ _ _ (by omega), floorPrice_of_ge _ _ _ (by omega),
    Nat.div_div_eq_div_mul, ← pow_add]
  congr 2
  omega

/-- A price that fits 32 bits when it is rounded is not narrowed. -/
theorem findDivisorDecimals_eq_zero {num : U192}
    (hfits : Decimal.floorPrice num Report.decimals precision < 2 ^ 32) :
    findDivisorDecimals num = 0 := by
  rcases Nat.eq_zero_or_pos (findDivisorDecimals num) with hzero | hpos
  · exact hzero
  · have hlarge : (2 ^ 128 - 1) / 10 / 10 ^ Report.decimals ≤
        Decimal.floorPrice num Report.decimals precision :=
      Nat.div_le_div_right (((le_div_of_pos hpos).trans (Nat.div_le_self _ _)).trans
        (Nat.le_mul_of_pos_right _ (by positivity)))
    exact absurd (hlarge.trans_lt hfits) (by norm_num [Report.decimals])

/-- The prices of a report that can be narrowed are in order. -/
theorem fromChainlinkReport_ordered {report : Narrowing.Report} {price : PriceFeedPrice}
    (hprice : fromChainlinkReport report = .ok price) : report.bid.2 ≤ report.ask.2 := by
  simp only [fromChainlinkReport, bind_eq_ok, okOr_eq_ok, ensure_eq_ok,
    nonNegative_eq_some] at hprice
  obtain ⟨_, ⟨-, rfl⟩, _, ⟨-, rfl⟩, _, ⟨-, rfl⟩, _, hask, _, hbid, -⟩ := hprice
  exact hbid.trans hask

end Narrowing

/-! ## From reports to the oracle -/

/-- The prices are the bid and the ask of a report, rounded once. -/
structure SmallPrices.OfReport (config : TokenConfig) (report : Narrowing.Report)
    (prices : SmallPrices) : Prop where
  min_eq : prices.min = Decimal.floorPrice report.bid.2 Report.decimals config.precision
  max_eq : prices.max = Decimal.floorPrice report.ask.2 Report.decimals config.precision
  decimalMultiplier_eq : prices.decimalMultiplier =
    Decimal.decimalMultiplierFromPrecision config.tokenDecimals config.precision

/-- The prices are the low 32 bits of the rounded bid and ask of a report. -/
structure SmallPrices.LowBits (config : TokenConfig) (report : Narrowing.Report)
    (prices : SmallPrices) : Prop where
  min_eq : prices.min =
    Decimal.floorPrice report.bid.2 Report.decimals config.precision % 2 ^ 32
  max_eq : prices.max =
    Decimal.floorPrice report.ask.2 Report.decimals config.precision % 2 ^ 32

section Kept

variable {config : TokenConfig} {feed : PriceFeed} {prices : SmallPrices}
  {report : Narrowing.Report}

/-- What is kept of a feed is what would be kept of the report it shows, if narrowing it has
left decimals for the precision. -/
theorem SmallPrices.Keeps.lowBits (hkeeps : prices.Keeps config feed.quote)
    (hnarrowed : fromChainlinkReport report = .ok feed.price)
    (hprecision : config.precision + findDivisorDecimals report.ask.2 ≤ Report.decimals) :
    prices.LowBits config report := by
  have hreport := fromChainlinkReport_eq_ok hnarrowed
  have hdecimals : feed.price.decimals = Report.decimals - findDivisorDecimals report.ask.2 :=
    Nat.eq_sub_of_add_eq hreport.decimals_eq
  constructor
  · have hmin := hkeeps.min_eq
    simp only [PriceFeed.quote, hreport.minPrice_eq, hdecimals] at hmin
    rwa [Decimal.floorPrice_div hprecision] at hmin
  · have hmax := hkeeps.max_eq
    simp only [PriceFeed.quote, hreport.maxPrice_eq, hdecimals] at hmax
    rwa [Decimal.floorPrice_div hprecision] at hmax

/-- A report whose largest price fits when it is rounded is not narrowed, and its prices are
kept. -/
theorem SmallPrices.Keeps.ofReport (hkeeps : prices.Keeps config feed.quote)
    (hnarrowed : fromChainlinkReport report = .ok feed.price)
    (hfits : Decimal.floorPrice report.ask.2 Report.decimals config.precision < 2 ^ 32) :
    prices.OfReport config report := by
  have hreport := fromChainlinkReport_eq_ok hnarrowed
  have hzero := findDivisorDecimals_eq_zero hfits
  have hdecimals : feed.price.decimals = Report.decimals := by
    rw [← hreport.decimals_eq, hzero, Nat.add_zero]
  have hbid : Decimal.floorPrice report.bid.2 Report.decimals config.precision < 2 ^ 32 :=
    lt_of_le_of_lt (Nat.div_le_div_right
      (Nat.mul_le_mul_right _ (fromChainlinkReport_ordered hnarrowed))) hfits
  refine ⟨?_, ?_, hkeeps.decimalMultiplier_eq⟩
  · have hmin := hkeeps.min_eq
    simp only [PriceFeed.quote, hreport.minPrice_eq, hdecimals, hzero, pow_zero,
      Nat.div_one] at hmin
    rwa [Nat.mod_eq_of_lt hbid] at hmin
  · have hmax := hkeeps.max_eq
    simp only [PriceFeed.quote, hreport.maxPrice_eq, hdecimals, hzero, pow_zero,
      Nat.div_one] at hmax
    rwa [Nat.mod_eq_of_lt hfits] at hmax

end Kept

/-- The prices are those of a report: the last one that was published to the account, it
was verified, and it is for the feed of the token and not older than its heartbeat. -/
structure SmallPrices.FromReport (programs : ReportPrograms)
    (executed : List FeedInstruction) (clock : SysvarClock) (config : TokenConfig)
    (key : Pubkey) (prices : SmallPrices) (latest : Publication) (report : DecodedReport) :
    Prop where
  latest_eq : (publications key executed).head? = some latest
  follows : ∀ other ∈ (publications key executed).tail, latest.Follows programs other
  verified : programs.verify latest.verifierAccounts latest.compressedReport = true
  decoded : programs.decodeCompressedFullReport latest.compressedReport = .ok report
  getFeed : config.getFeed .chainlinkDataStreams = .ok report.feedId
  fresh : clock.unixTimestamp ≤
    report.prices.observationsTimestamp + config.heartbeatDuration
  ofReport :
    Decimal.floorPrice report.prices.ask.2 Report.decimals config.precision < 2 ^ 32 →
      prices.OfReport config report.prices
  lowBits :
    config.precision + findDivisorDecimals report.prices.ask.2 ≤ Report.decimals →
      prices.LowBits config report.prices

section Reports

variable {programs : ReportPrograms} {address : FeedSeeds → Pubkey}
  {executed : List FeedInstruction} {feeds : PriceFeeds} {reader : FeedReader Update}
  {getConfig : Pubkey → Option TokenConfig} {clock : SysvarClock} {amounts : OracleAmounts}
  {tokens keys : List Pubkey} {oracle updated : Oracle} {token : Pubkey}
  {prices : SmallPrices} {config : TokenConfig}

/-- A feed that quotes a price has been published to. -/
theorem PriceFeed.Shows.exists_latest {feed : PriceFeed} {published : List Publication}
    (hshows : feed.Shows programs published) (hopen : feed.price.isMarketOpen = true) :
    ∃ latest earlier report, published = latest :: earlier ∧
      latest.Carries programs feed.feedId report feed.price := by
  cases published with
  | nil =>
      rw [hshows.unpublished rfl] at hopen
      exact absurd hopen Bool.false_ne_true
  | cons latest earlier =>
      obtain ⟨⟨report, hcarries⟩, -⟩ := hshows.latest latest rfl
      exact ⟨latest, earlier, report, rfl, hcarries⟩

/-- From signed reports to the oracle: after any run of publications, the price that the
oracle takes for a token whose provider is the custom price feed is the one of the newest
report that was published to the account listed for the token. -/
theorem PriceFeeds.setPrices_fromReport
    (run : Run (PriceFeeds.step programs address) (fun _ _ => True) (fun _ => none)
      executed feeds)
    (haccounts : ∀ key feed, reader.accounts key = .priceFeed feed → feeds key = some feed)
    (hreceiver : reader.receiver.FindsFresh) (hcleared : oracle.Cleared)
    (hset : oracle.setPricesFromRemainingAccounts (.tryFrom clock amounts)
      (reader.sources getConfig) tokens keys = (updated, .ok ()))
    (hprices : updated.primary.get token = .ok (some prices))
    (hconfig : getConfig token = some config)
    (hexpected : config.expectedProviderKind = .ok .chainlinkDataStreams) :
    ∃ key latest report, (token, key) ∈ tokens.zip keys ∧
      prices.FromReport programs executed clock config key latest report := by
  obtain ⟨key, reading, hmem, hreading, rfl, -⟩ :=
    setPricesFromRemainingAccounts_reading hcleared hset hprices
  obtain ⟨found, provider, feedId, quote, hfound, hfrom⟩ :=
    FeedReader.reading_eq_ok hreceiver hreading
  obtain rfl := Option.some.inj (hfound.symm.trans hconfig)
  obtain rfl := Except.ok.inj (hfrom.expected.symm.trans hexpected)
  have hall : feeds.ShowAll programs address executed :=
    run.invariant (fun executed feeds => feeds.ShowAll programs address executed)
      showAll_start fun _ _ _ _ _ hall _ hstep => step_showAll hall hstep
  have hquotes := hfrom.quotes
  cases hquotes with
  | chainlinkDataStreams feed haccount hfeedId hopen =>
      obtain ⟨-, hshows⟩ := hall.shows key feed (haccounts key feed haccount)
      obtain ⟨latest, earlier, report, hpublished, hcarries⟩ := hshows.exists_latest hopen
      have hordered := hshows.ordered
      have hfresh := hfrom.fresh
      rw [hpublished, List.pairwise_cons] at hordered
      rw [PriceFeed.quote, (fromChainlinkReport_ts hcarries.narrowed).1] at hfresh
      refine ⟨key, latest, report, hmem, ?_⟩
      exact {
        latest_eq := by rw [hpublished, List.head?_cons]
        follows := by simpa only [hpublished, List.tail_cons] using hordered.1
        verified := hcarries.verified
        decoded := hcarries.decoded
        getFeed := by rw [hfrom.getFeed, ← hfeedId, hcarries.feedId_eq]
        fresh := hfresh
        ofReport := hfrom.keeps.ofReport hcarries.narrowed
        lowBits := hfrom.keeps.lowBits hcarries.narrowed }

end Reports

section Store

/-- The accounts of the feeds. -/
def storeAccounts (feeds : PriceFeeds) (key : Pubkey) : FeedAccount ℤ :=
  match feeds key with
  | some feed => .priceFeed feed
  | none => .other

theorem storeAccounts_priceFeed {feeds : PriceFeeds} {key : Pubkey} {feed : PriceFeed}
    (haccount : storeAccounts feeds key = .priceFeed feed) : feeds key = some feed := by
  unfold storeAccounts at haccount
  split at haccount
  · rename_i found hfound
    rw [hfound, FeedAccount.priceFeed.inj haccount]
  · cases haccount

/-- Two reports are published, and the oracle takes the price of the second one. -/
theorem PriceFeeds.setPrices_fromReport_sample :
    ∃ executed config key prices latest report,
      SmallPrices.FromReport storePrograms executed ⟨110, 110⟩ config key prices latest
          report ∧
        prices.min = 59999 ∧ prices.max = 60000 := by
  obtain ⟨result, hperformed, hset, hprices⟩ : ∃ result,
      perform (PriceFeeds.step storePrograms storeAddress) (fun _ _ => True)
        ([], fun _ => none)
        [.initializePriceFeed ⟨1, 2, 0, 0, 3⟩ 7,
          .updatePriceFeedWithChainlink (storePublication [90, 5] 100),
          .updatePriceFeedWithChainlink (storePublication [105, 6] 100)] = some result ∧
      (storeOracle.setPricesFromRemainingAccounts (.tryFrom ⟨110, 110⟩ storeAmounts)
        ((storeReader (storeAccounts result.2)).sources fun _ => some (storeConfigFor 0))
        [8] [3]).2 = .ok () ∧
      (storeOracle.setPricesFromRemainingAccounts (.tryFrom ⟨110, 110⟩ storeAmounts)
        ((storeReader (storeAccounts result.2)).sources fun _ => some (storeConfigFor 0))
        [8] [3]).1.primary.get 8 = .ok (some ⟨7, 0, 59999, 60000⟩) :=
    exists_of_any (by decide +kernel)
  obtain ⟨key, latest, report, -, hfrom⟩ :=
    PriceFeeds.setPrices_fromReport (Run.perform .refl hperformed)
      (fun _ _ haccount => storeAccounts_priceFeed haccount) storeReceiver_findsFresh
      storeOracle_cleared (Prod.ext rfl hset) hprices rfl rfl
  exact ⟨_, _, key, _, latest, report, hfrom, rfl, rfl⟩

end Store

end Gmsol.Oracle
