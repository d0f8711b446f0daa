import Gmsol.Oracle.PriceMap

/-!
# Setting the prices of the oracle

Before an action the oracle is filled from the feeds of the listed tokens, and
after it the oracle is cleared again.  A validator judges the age of every
reading and collects the range of their timestamps.
-/

namespace Gmsol.Oracle

open Gmsol.Fallible Gmsol.FixedArray Gmsol.Model

/-! ## Timestamps -/

def maxTimestamp : ℤ := 2 ^ 63 - 1

def minTimestamp : ℤ := -2 ^ 63

def maxSlot : ℕ := 2 ^ 64 - 1

def checkedTimestamp (timestamp : ℤ) : Option ℤ :=
  if minTimestamp ≤ timestamp ∧ timestamp ≤ maxTimestamp then some timestamp else none

def checkedAddUnsigned (timestamp : ℤ) (seconds : ℕ) : Option ℤ :=
  checkedTimestamp (timestamp + seconds)

def checkedSubUnsigned (timestamp : ℤ) (seconds : ℕ) : Option ℤ :=
  checkedTimestamp (timestamp - seconds)

def saturatingAddUnsigned (timestamp : ℤ) (seconds : ℕ) : ℤ :=
  min (timestamp + seconds) maxTimestamp

theorem checkedTimestamp_eq_some {timestamp result : ℤ} :
    checkedTimestamp timestamp = some result ↔
      (minTimestamp ≤ timestamp ∧ timestamp ≤ maxTimestamp) ∧ timestamp = result := by
  simp [checkedTimestamp]

/-! ## The validator -/

/-- The limits that the store sets on readings. -/
structure OracleAmounts where
  oracleMaxAge : ℕ
  oracleMaxTimestampRange : ℕ
  oracleMaxFutureTimestampExcess : ℕ

structure PriceValidator where
  clock : SysvarClock
  maxAge : ℕ
  maxOracleTimestampRange : ℕ
  maxFutureTimestampExcess : ℕ
  minOracleTs : ℤ
  maxOracleTs : ℤ
  minOracleSlot : Option ℕ

/-- What is read from the feed of a token. -/
structure OraclePrice where
  provider : PriceProviderKind
  oracleSlot : ℕ
  oracleTs : ℤ
  price : PriceRange

namespace PriceValidator

/-- A new validator has seen no reading: its range is empty. -/
def tryFrom (clock : SysvarClock) (amounts : OracleAmounts) : PriceValidator where
  clock := clock
  maxAge := amounts.oracleMaxAge
  maxOracleTimestampRange := amounts.oracleMaxTimestampRange
  maxFutureTimestampExcess := amounts.oracleMaxFutureTimestampExcess
  minOracleTs := maxTimestamp
  maxOracleTs := minTimestamp
  minOracleSlot := none

def mergeSlot : Option ℕ → Option ℕ → Option ℕ
  | some current, some other => some (min current other)
  | none, some slot => some slot
  | some slot, none => some slot
  | none, none => none

def mergeRange (validator : PriceValidator) (minOracleSlot : Option ℕ)
    (minOracleTs maxOracleTs : ℤ) : PriceValidator :=
  { validator with
    minOracleSlot := mergeSlot validator.minOracleSlot minOracleSlot
    minOracleTs := min validator.minOracleTs minOracleTs
    maxOracleTs := max validator.maxOracleTs maxOracleTs }

def validateOne (validator : PriceValidator) (config : TokenConfig)
    (provider : PriceProviderKind) (oracleTs : ℤ) (oracleSlot : ℕ) :
    Except CoreError PriceValidator := do
  let adjustment ← config.timestampAdjustment provider
  let ts ← okOr (checkedSubUnsigned oracleTs adjustment) .tokenAmountOverflow
  let expirationTs ← okOr (checkedAddUnsigned ts validator.maxAge) .tokenAmountOverflow
  let currentTs := validator.clock.unixTimestamp
  ensure (currentTs ≤ expirationTs) .maxPriceAgeExceeded
  ensure (oracleTs ≤ saturatingAddUnsigned currentTs validator.maxFutureTimestampExcess)
    .maxPriceTimestampExceeded
  return validator.mergeRange (some oracleSlot) ts ts

def finish (validator : PriceValidator) : Except CoreError (Option (ℕ × ℤ × ℤ)) := do
  let range ← okOr (checkedTimestamp (validator.maxOracleTs - validator.minOracleTs))
    .tokenAmountOverflow
  ensure (0 ≤ range) .invalidOracleTimestampsRange
  ensure (range ≤ validator.maxOracleTimestampRange) .maxOracleTimestampsRangeExceeded
  return validator.minOracleSlot.map fun slot =>
    (slot, validator.minOracleTs, validator.maxOracleTs)

end PriceValidator

end Gmsol.Oracle

/-! ## The oracle -/

namespace Gmsol

open Oracle Model in
/-- The oracle account. -/
structure Oracle where
  store : Pubkey
  authority : Pubkey
  minOracleTs : ℤ
  maxOracleTs : ℤ
  minOracleSlot : ℕ
  primary : PriceMap
  flags : Bitmap 8

end Gmsol

namespace Gmsol.Oracle

open Gmsol.Fallible Gmsol.FixedArray Gmsol.Model

/-- How a call stops without a result. -/
inductive Stopped
  | error (error : CoreError)
  | panic (panic : Panic)
  deriving DecidableEq, Repr

/-- Where prices come from: the token map, and the parser of the feed accounts
`Feed` of all providers, which may stop the program. -/
structure Sources (Feed : Type) where
  getConfig : Pubkey → Option TokenConfig
  parseFromFeedAccount : SysvarClock → TokenConfig → Feed → Except Stopped OraclePrice

variable {Feed T : Type}

def clearedFlag : ℕ := 0

def isCleared (oracle : Oracle) : Bool := oracle.flags.get clearedFlag

def getMinOracleSlot (oracle : Oracle) : Option ℕ :=
  if oracle.isCleared then none else some oracle.minOracleSlot

def clearAllPrices (oracle : Oracle) : Except Stopped Oracle :=
  match oracle.primary.clear with
  | .ok primary => .ok { oracle with
      primary
      minOracleTs := maxTimestamp
      maxOracleTs := minTimestamp
      minOracleSlot := maxSlot
      flags := oracle.flags.set clearedFlag true }
  | .error panic => .error (.panic panic)

def updateOracleTsAndSlot (oracle : Oracle) (validator : PriceValidator) :
    Except CoreError Oracle := do
  let merged := validator.mergeRange oracle.getMinOracleSlot oracle.minOracleTs
    oracle.maxOracleTs
  let range ← merged.finish
  match range with
  | some (minSlot, minTs, maxTs) =>
    return { oracle with
      minOracleSlot := minSlot
      minOracleTs := minTs
      maxOracleTs := maxTs
      flags := oracle.flags.set clearedFlag false }
  | none => return oracle

/-- The validated price of a listed token. -/
def readFeed (sources : Sources Feed) (validator : PriceValidator) (token : Pubkey)
    (feed : Feed) : Except Stopped (PriceValidator × SmallPrices) := do
  let config ← okOr (sources.getConfig token) (.error .notFound)
  ensure (config.isEnabled = true) (.error .tokenConfigDisabled)
  let oraclePrice ← sources.parseFromFeedAccount validator.clock config feed
  let validated ← (validator.validateOne config oraclePrice.provider oraclePrice.oracleTs
    oraclePrice.oracleSlot).mapError .error
  let prices ← (SmallPrices.fromPrice oraclePrice.price config.isSynthetic).mapError .error
  return (validated, prices)

/-- Sets the price of a listed token. -/
def setPrice (sources : Sources Feed) (validator : PriceValidator) (oracle : Oracle)
    (token : Pubkey) (feed : Feed) : Except Stopped (PriceValidator × Oracle) :=
  match readFeed sources validator token feed with
  | .error stopped => .error stopped
  | .ok (validated, prices) =>
    match oracle.primary.insert token prices with
    | .error panic => .error (.panic panic)
    | .ok (primary, _) => .ok (validated, { oracle with primary })

/-- Sets the prices of the listed tokens one after the other.  The oracle keeps
what has been set when a token fails. -/
def setPrices (sources : Sources Feed) (validator : PriceValidator) (oracle : Oracle) :
    List (Pubkey × Feed) → Oracle × Except Stopped PriceValidator
  | [] => (oracle, .ok validator)
  | (token, feed) :: rest =>
    match setPrice sources validator oracle token feed with
    | .error stopped => (oracle, .error stopped)
    | .ok (validated, updated) => setPrices sources validated updated rest

/-- The checks before any price is set. -/
def validateUnset (oracle : Oracle) (tokens : List Pubkey)
    (remainingAccounts : List Feed) : Except CoreError Unit := do
  ensure (oracle.isCleared = true) .pricesAreAlreadySet
  ensure (oracle.primary.isEmpty = true) .pricesAreAlreadySet
  ensure (tokens.length ≤ PriceMap.maxTokens) .exceedMaxLengthLimit
  ensure (tokens.length ≤ remainingAccounts.length) .accountNotEnoughKeys

def setPricesFromRemainingAccounts (oracle : Oracle) (validator : PriceValidator)
    (sources : Sources Feed) (tokens : List Pubkey) (remainingAccounts : List Feed) :
    Oracle × Except Stopped Unit :=
  match oracle.validateUnset tokens remainingAccounts with
  | .error error => (oracle, .error (.error error))
  | .ok () =>
    match setPrices sources validator oracle (tokens.zip remainingAccounts) with
    | (partly, .error stopped) => (partly, .error stopped)
    | (filled, .ok validated) =>
      match filled.updateOracleTsAndSlot validated with
      | .error error => (filled, .error (.error error))
      | .ok updated => (updated, .ok ())

/-- Clears the oracle, unless the program has stopped. -/
def clearAfter (oracle : Oracle) (outcome : Except Stopped T) :
    Oracle × Except Stopped T :=
  match outcome with
  | .error (.panic panic) => (oracle, .error (.panic panic))
  | outcome =>
    match oracle.clearAllPrices with
    | .error stopped => (oracle, .error stopped)
    | .ok cleared => (cleared, outcome)

/-- Runs `action` with the prices of the listed tokens.  The clock and the token
map are loaded first, which may fail. -/
def withPrices (oracle : Oracle) (clock : Except CoreError SysvarClock)
    (amounts : OracleAmounts) (tokenMap : Except CoreError (Sources Feed))
    (tokens : List Pubkey) (remainingAccounts : List Feed)
    (action : Oracle → List Feed → Oracle × Except Stopped T) :
    Oracle × Except Stopped T :=
  match clock with
  | .error error => (oracle, .error (.error error))
  | .ok clock =>
    if remainingAccounts.length < tokens.length then
      (oracle, .error (.error .notEnoughTokenFeeds))
    else
      match tokenMap with
      | .error error => (oracle, .error (.error error))
      | .ok sources =>
        match oracle.setPricesFromRemainingAccounts (.tryFrom clock amounts) sources
            tokens (remainingAccounts.take tokens.length) with
        | (partly, .error stopped) => partly.clearAfter (.error stopped)
        | (filled, .ok ()) =>
          let done := action filled (remainingAccounts.drop tokens.length)
          done.1.clearAfter done.2

end Gmsol.Oracle
