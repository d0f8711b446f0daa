import Gmsol.Container.Runs
import Gmsol.Library.Bitmap
import Gmsol.Model.Market
import Gmsol.Oracle.Decimal

/-!
# Token configurations

What the store knows about a token: how its prices are reported and how they are
to be kept.  Every provider has its own feed and an adjustment of the timestamps
of that feed.
-/

namespace Gmsol.Oracle

open Gmsol.Fallible

abbrev Pubkey : Type := Container.Pubkey

inductive PriceProviderKind
  | chainlinkDataStreams
  | pyth
  | chainlink
  | switchboard
  deriving DecidableEq, Repr

def PriceProviderKind.toIndex : PriceProviderKind → Fin 4
  | chainlinkDataStreams => 0
  | pyth => 1
  | chainlink => 2
  | switchboard => 3

inductive CoreError
  | notFound
  | pricesAreAlreadySet
  | exceedMaxLengthLimit
  | accountNotEnoughKeys
  | notEnoughTokenFeeds
  | tokenConfigDisabled
  | invalidArgument
  | tokenAmountOverflow
  | maxPriceAgeExceeded
  | maxPriceTimestampExceeded
  | invalidOracleTimestampsRange
  | maxOracleTimestampsRangeExceeded
  | missingOraclePrice
  | syntheticTokenPriceIsNotAllowed
  | unknownToken
  | alreadyExist
  | notEnoughSpace
  | feed (message : String)
  deriving DecidableEq, Repr

structure FeedConfig where
  feed : Pubkey
  timestampAdjustment : ℕ
  deriving DecidableEq

structure TokenConfig where
  name : List ℕ
  flags : Bitmap 8
  tokenDecimals : ℕ
  precision : ℕ
  expectedProvider : ℕ
  feeds : Fin 4 → FeedConfig
  heartbeatDuration : ℕ

namespace TokenConfig

def enabledFlag : ℕ := 1

def syntheticFlag : ℕ := 2

def isEnabled (config : TokenConfig) : Bool := config.flags.get enabledFlag

def isSynthetic (config : TokenConfig) : Bool := config.flags.get syntheticFlag

/-- The default public key stands for a feed that is not set. -/
def getFeedConfig (config : TokenConfig) (kind : PriceProviderKind) :
    Except CoreError FeedConfig :=
  let feed := config.feeds kind.toIndex
  if feed.feed = 0 then .error .notFound else .ok feed

def timestampAdjustment (config : TokenConfig) (kind : PriceProviderKind) :
    Except CoreError ℕ := do
  let feed ← config.getFeedConfig kind
  return feed.timestampAdjustment

end TokenConfig

end Gmsol.Oracle
