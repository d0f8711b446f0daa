import Gmsol.Library.Run
import Gmsol.Oracle.Narrowing
import Gmsol.Oracle.PriceSet
import Gmsol.Oracle.Report

/-!
# Custom price feeds

A custom price feed is an account of the store that keeps the last price published
for a token.  To publish one, a keeper sends a signed report, which is decompressed,
decoded and narrowed.  Another program verifies its signatures, and the feed takes
its price unless it is older than the one it has.

Whatever is published in a run, every feed shows the report that was published to it
last, which is also its newest one.
-/

namespace Gmsol.Oracle

open Fallible Narrowing Model Layout

/-! ## Reports -/

/-- The data of a report, with numbers of any size. -/
structure ReportDataV3 where
  feedId : Pubkey
  validFromTimestamp : ℕ
  observationsTimestamp : ℕ
  nativeFee : ℤ
  linkFee : ℤ
  expiresAt : ℕ
  benchmarkPrice : ℤ
  bid : ℤ
  ask : ℤ

structure DecodedReport where
  feedId : Pubkey
  validFromTimestamp : ℕ
  nativeFee : U192
  linkFee : U192
  expiresAt : ℕ
  prices : Narrowing.Report

inductive DecodeError
  | invalidData
  | negativeValue
  | snap
  | data
  | fullReport (failure : Failure)
  deriving DecidableEq, Repr

def biguintToU192 (num : ℕ) : Except DecodeError U192 :=
  if h : num < 2 ^ 192 then .ok ⟨num, h⟩ else .error .invalidData

def bigintToU192 (num : ℤ) : Except DecodeError U192 :=
  if num < 0 then .error .negativeValue else biguintToU192 num.natAbs

def bigintToSigned (num : ℤ) : Except DecodeError Signed := do
  let value ← biguintToU192 num.natAbs
  return (decide (0 ≤ num), value)

/-- What a published report goes through outside of the store: its decompression, the
parser of its data, and the program that verifies its signatures with the help of the
given accounts. -/
structure ReportPrograms where
  decompress : List Byte → Option Payload
  parse : List Byte → Option ReportDataV3
  verify : List Pubkey → List Byte → Bool

namespace ReportPrograms

def decode (programs : ReportPrograms) (data : List Byte) :
    Except DecodeError DecodedReport := do
  let report ← okOr (programs.parse data) .data
  let nativeFee ← bigintToU192 report.nativeFee
  let linkFee ← bigintToU192 report.linkFee
  let price ← bigintToSigned report.benchmarkPrice
  let bid ← bigintToSigned report.bid
  let ask ← bigintToSigned report.ask
  return {
    feedId := report.feedId
    validFromTimestamp := report.validFromTimestamp
    nativeFee, linkFee
    expiresAt := report.expiresAt
    prices := { observationsTimestamp := report.observationsTimestamp, price, bid, ask } }

def decodeCompressedFullReport (programs : ReportPrograms) (compressed : List Byte) :
    Except DecodeError DecodedReport := do
  let payload ← okOr (programs.decompress compressed) .snap
  let (_, blob) ← (Report.decodeFullReport payload).mapError .fullReport
  programs.decode blob

end ReportPrograms

/-! ## Feeds -/

inductive PriceFeedError
  | accountAlreadyInUse
  | accountNotInitialized
  | constraintHasOne
  | notSupportedCustomPriceProvider
  | invalidProviderKindIndex
  | invalidArgument
  | preconditionsAreNotMet
  | invalidPriceReport
  | verification
  | narrowing (error : FeedError)
  | panic (message : String)
  | requireEqViolated
  | accountOwnedByWrongProgram
  | invalidPriceFeedAccount
  | marketNotOpen
  | priceFeedNotUpdated
  | invalidPriceFeedPrice
  | priceIsStale
  | chainlinkProgramIsRequired
  | notFound
  | internal
  | pyth
  deriving DecidableEq, Repr

/-- `PriceProviderKind::try_from`. -/
def PriceProviderKind.tryFrom : ℕ → Except PriceFeedError PriceProviderKind
  | 0 => .ok .chainlinkDataStreams
  | 1 => .ok .pyth
  | 2 => .ok .chainlink
  | 3 => .ok .switchboard
  | _ => .error .invalidProviderKindIndex

theorem PriceProviderKind.tryFrom_chainlinkDataStreams {index : ℕ}
    (hkind : PriceProviderKind.tryFrom index = .ok .chainlinkDataStreams) : index = 0 := by
  rcases index with _ | _ | _ | _ | index
  · rfl
  all_goals exact absurd hkind nofun

/-- The price of a zeroed account. -/
def Narrowing.PriceFeedPrice.zeroed : PriceFeedPrice where
  decimals := 0
  isMarketOpen := false
  ts := 0
  price := 0
  minPrice := 0
  maxPrice := 0

structure PriceFeed where
  provider : ℕ
  index : ℕ
  store : Pubkey
  authority : Pubkey
  token : Pubkey
  feedId : Pubkey
  lastPublishedAtSlot : ℕ
  lastPublishedAt : ℤ
  price : PriceFeedPrice
  deriving DecidableEq

/-- What the address of a feed is derived from. -/
structure FeedSeeds where
  store : Pubkey
  authority : Pubkey
  index : ℕ
  provider : ℕ
  token : Pubkey
  deriving DecidableEq

namespace PriceFeed

def seeds (feed : PriceFeed) : FeedSeeds where
  store := feed.store
  authority := feed.authority
  index := feed.index
  provider := feed.provider
  token := feed.token

/-- A zeroed account, initialized. -/
def init (seeds : FeedSeeds) (feedId : Pubkey) : PriceFeed where
  provider := seeds.provider
  index := seeds.index
  store := seeds.store
  authority := seeds.authority
  token := seeds.token
  feedId := feedId
  lastPublishedAtSlot := 0
  lastPublishedAt := 0
  price := .zeroed

def update (feed : PriceFeed) (price : PriceFeedPrice) (maxFutureExcess : ℕ)
    (clock : SysvarClock) : Except PriceFeedError PriceFeed := do
  ensure (feed.lastPublishedAtSlot ≤ clock.slot) .preconditionsAreNotMet
  ensure (feed.lastPublishedAt ≤ clock.unixTimestamp) .preconditionsAreNotMet
  ensure (feed.price.ts ≤ price.ts) .invalidArgument
  ensure (price.ts ≤ saturatingAddUnsigned clock.unixTimestamp maxFutureExcess)
    .invalidArgument
  ensure (price.minPrice ≤ price.maxPrice) .invalidArgument
  ensure (price.price ≤ price.maxPrice) .invalidArgument
  ensure (price.minPrice ≤ price.price) .invalidArgument
  return { feed with
    lastPublishedAtSlot := clock.slot
    lastPublishedAt := clock.unixTimestamp
    price }

end PriceFeed

/-! ## Instructions -/

/-- A report that a keeper sends to a feed. -/
structure Publication where
  authority : Pubkey
  store : Pubkey
  verifierAccounts : List Pubkey
  priceFeed : Pubkey
  compressedReport : List Byte
  clock : SysvarClock
  amounts : OracleAmounts

inductive FeedInstruction
  | initializePriceFeed (seeds : FeedSeeds) (feedId : Pubkey)
  | updatePriceFeedWithChainlink (publication : Publication)

def decodeAndValidateReport (programs : ReportPrograms) (feed : PriceFeed)
    (compressedFullReport : List Byte) : Except PriceFeedError PriceFeedPrice := do
  let report ← (programs.decodeCompressedFullReport compressedFullReport).mapError
    fun
      | .fullReport (.panic message) => .panic message
      | _ => .invalidPriceReport
  ensure (report.feedId = feed.feedId) .invalidPriceReport
  (fromChainlinkReport report.prices).mapError .narrowing

def updatePriceFeedWithChainlink (programs : ReportPrograms) (publication : Publication)
    (feed : PriceFeed) : Except PriceFeedError PriceFeed := do
  ensure (feed.store = publication.store) .constraintHasOne
  ensure (feed.authority = publication.authority) .constraintHasOne
  let provider ← PriceProviderKind.tryFrom feed.provider
  ensure (provider = .chainlinkDataStreams) .invalidArgument
  let price ← decodeAndValidateReport programs feed publication.compressedReport
  ensure (programs.verify publication.verifierAccounts publication.compressedReport = true)
    .verification
  feed.update price publication.amounts.oracleMaxFutureTimestampExcess publication.clock

/-- The feed accounts, by their addresses. -/
abbrev PriceFeeds : Type := Pubkey → Option PriceFeed

/-- The address of a feed is derived from its seeds. -/
def PriceFeeds.initializeFeed (feeds : PriceFeeds) (address : FeedSeeds → Pubkey)
    (seeds : FeedSeeds) (feedId : Pubkey) : Except PriceFeedError PriceFeeds := do
  ensure (feeds (address seeds) = none) .accountAlreadyInUse
  let provider ← PriceProviderKind.tryFrom seeds.provider
  ensure (provider = .chainlinkDataStreams) .notSupportedCustomPriceProvider
  return Function.update feeds (address seeds) (some (.init seeds feedId))

/-- Executes an instruction, which is the output of the step. -/
def PriceFeeds.step (programs : ReportPrograms) (address : FeedSeeds → Pubkey)
    (feeds : PriceFeeds) (instruction : FeedInstruction) :
    Except PriceFeedError (PriceFeeds × FeedInstruction) :=
  match instruction with
  | .initializePriceFeed seeds feedId => do
      let initialized ← feeds.initializeFeed address seeds feedId
      return (initialized, instruction)
  | .updatePriceFeedWithChainlink publication => do
      let feed ← okOr (feeds publication.priceFeed) .accountNotInitialized
      let updated ← updatePriceFeedWithChainlink programs publication feed
      return (Function.update feeds publication.priceFeed (some updated), instruction)

/-! ## Publications -/

/-- The time of a narrowed price is the one of its report, and its market is open. -/
theorem Narrowing.fromChainlinkReport_ts {report : Narrowing.Report} {price : PriceFeedPrice}
    (hprice : fromChainlinkReport report = .ok price) :
    price.ts = report.observationsTimestamp ∧ price.isMarketOpen = true := by
  simp only [fromChainlinkReport, bind_eq_ok, pure_eq_ok] at hprice
  obtain ⟨_, -, _, -, _, -, _, -, _, -, _, -, _, -, _, -, _, -, rfl⟩ := hprice
  exact ⟨rfl, rfl⟩

namespace Publication

/-- The publication brings a verified report of the stream with the given id, whose
prices are narrowed to the given one. -/
structure Carries (programs : ReportPrograms) (publication : Publication)
    (feedId : Pubkey) (report : DecodedReport) (price : PriceFeedPrice) : Prop where
  verified : programs.verify publication.verifierAccounts publication.compressedReport = true
  decoded : programs.decodeCompressedFullReport publication.compressedReport = .ok report
  feedId_eq : report.feedId = feedId
  narrowed : fromChainlinkReport report.prices = .ok price
  inTime : price.ts ≤ saturatingAddUnsigned publication.clock.unixTimestamp
    publication.amounts.oracleMaxFutureTimestampExcess

/-- A publication is as late as another one by all clocks: the slot, the time of the
chain, and the time of its report. -/
structure Follows (programs : ReportPrograms) (later earlier : Publication) : Prop where
  slot_le : earlier.clock.slot ≤ later.clock.slot
  unixTimestamp_le : earlier.clock.unixTimestamp ≤ later.clock.unixTimestamp
  observations_le : ∃ newer older,
    programs.decodeCompressedFullReport later.compressedReport = .ok newer ∧
    programs.decodeCompressedFullReport earlier.compressedReport = .ok older ∧
    older.prices.observationsTimestamp ≤ newer.prices.observationsTimestamp

variable {programs : ReportPrograms} {first second third : Publication}

theorem Follows.trans (hsecond : third.Follows programs second)
    (hfirst : second.Follows programs first) : third.Follows programs first where
  slot_le := hfirst.slot_le.trans hsecond.slot_le
  unixTimestamp_le := hfirst.unixTimestamp_le.trans hsecond.unixTimestamp_le
  observations_le := by
    obtain ⟨newest, middle, hnewest, hmiddle, hle⟩ := hsecond.observations_le
    obtain ⟨newer, oldest, hnewer, holdest, hle'⟩ := hfirst.observations_le
    obtain rfl := Except.ok.inj (hmiddle.symm.trans hnewer)
    exact ⟨newest, oldest, hnewest, holdest, hle'.trans hle⟩

end Publication

/-- What a feed shows of the publications to it, the latest of which is first. -/
structure PriceFeed.Shows (programs : ReportPrograms) (feed : PriceFeed)
    (published : List Publication) : Prop where
  provider : feed.provider = 0
  signed : ∀ publication ∈ published,
    publication.authority = feed.authority ∧ publication.store = feed.store
  carried : ∀ publication ∈ published,
    ∃ report price, publication.Carries programs feed.feedId report price
  ordered : published.Pairwise (Publication.Follows programs)
  unpublished : published = [] → feed = .init feed.seeds feed.feedId
  latest : ∀ latest ∈ published.head?,
    (∃ report, latest.Carries programs feed.feedId report feed.price) ∧
      feed.lastPublishedAtSlot = latest.clock.slot ∧
      feed.lastPublishedAt = latest.clock.unixTimestamp

/-- A new feed shows that nothing was published to it. -/
theorem PriceFeed.Shows.init {programs : ReportPrograms} {seeds : FeedSeeds}
    {feedId : Pubkey} (hprovider : seeds.provider = 0) :
    (PriceFeed.init seeds feedId).Shows programs [] where
  provider := hprovider
  signed _ hmem := absurd hmem List.not_mem_nil
  carried _ hmem := absurd hmem List.not_mem_nil
  ordered := .nil
  unpublished _ := rfl
  latest latest hmem := absurd hmem (Option.not_mem_none latest)

section Update

variable {programs : ReportPrograms} {address : FeedSeeds → Pubkey}
  {publication : Publication} {feed updated : PriceFeed} {published : List Publication}

theorem decodeAndValidateReport_eq_ok {bytes : List Byte} {price : PriceFeedPrice}
    (hdecode : decodeAndValidateReport programs feed bytes = .ok price) :
    ∃ report, programs.decodeCompressedFullReport bytes = .ok report ∧
      report.feedId = feed.feedId ∧ fromChainlinkReport report.prices = .ok price := by
  simp only [decodeAndValidateReport, bind_eq_ok, mapError_eq_ok, ensure_eq_ok] at hdecode
  obtain ⟨report, hreport, _, hfeedId, hnarrowed⟩ := hdecode
  exact ⟨report, hreport, hfeedId, hnarrowed⟩

/-- A feed takes a price only from its authority, from a verified report that is no
older than what it has. -/
theorem updatePriceFeedWithChainlink_eq_ok
    (hupdate : updatePriceFeedWithChainlink programs publication feed = .ok updated) :
    ∃ report price, publication.Carries programs feed.feedId report price ∧
      publication.authority = feed.authority ∧ publication.store = feed.store ∧
      feed.lastPublishedAtSlot ≤ publication.clock.slot ∧
      feed.lastPublishedAt ≤ publication.clock.unixTimestamp ∧
      feed.price.ts ≤ price.ts ∧
      updated = { feed with
        lastPublishedAtSlot := publication.clock.slot
        lastPublishedAt := publication.clock.unixTimestamp
        price } := by
  simp only [updatePriceFeedWithChainlink, PriceFeed.update, bind_eq_ok, ensure_eq_ok,
    pure_eq_ok] at hupdate
  obtain ⟨_, hstore, _, hauthority, _, -, _, -, price, hdecode, _, hverified, _, hslot, _,
    htime, _, hnewer, _, hinTime, _, -, _, -, _, -, hupdated⟩ := hupdate
  obtain ⟨report, hreport, hfeedId, hnarrowed⟩ := decodeAndValidateReport_eq_ok hdecode
  exact ⟨report, price, ⟨hverified, hreport, hfeedId, hnarrowed, hinTime⟩,
    hauthority.symm, hstore.symm, hslot, htime, hnewer, hupdated.symm⟩

/-- A publication that is accepted becomes the one that the feed shows. -/
theorem PriceFeed.Shows.update (hshows : feed.Shows programs published)
    (hupdate : updatePriceFeedWithChainlink programs publication feed = .ok updated) :
    updated.Shows programs (publication :: published) := by
  obtain ⟨report, price, hcarries, hauthority, hstore, hslot, htime, hnewer, rfl⟩ :=
    updatePriceFeedWithChainlink_eq_ok hupdate
  have hlast : ∀ last ∈ published.head?, publication.Follows programs last := by
    intro last hlast
    obtain ⟨⟨older, holder⟩, hlastSlot, hlastTime⟩ := hshows.latest last hlast
    refine ⟨hlastSlot ▸ hslot, hlastTime ▸ htime, report, older, hcarries.decoded,
      holder.decoded, ?_⟩
    rw [(fromChainlinkReport_ts holder.narrowed).1,
      (fromChainlinkReport_ts hcarries.narrowed).1] at hnewer
    exact_mod_cast hnewer
  refine ⟨hshows.provider, ?_, ?_, ?_, nofun, ?_⟩
  · exact List.forall_mem_cons.mpr ⟨⟨hauthority, hstore⟩, hshows.signed⟩
  · exact List.forall_mem_cons.mpr ⟨⟨report, price, hcarries⟩, hshows.carried⟩
  · refine List.pairwise_cons.mpr ⟨fun other hother => ?_, hshows.ordered⟩
    cases published with
    | nil => exact absurd hother List.not_mem_nil
    | cons last earlier =>
        have hfollows := hlast last rfl
        rcases List.mem_cons.mp hother with rfl | hearlier
        · exact hfollows
        · exact hfollows.trans ((List.pairwise_cons.mp hshows.ordered).1 other hearlier)
  · rintro latest hlatest
    obtain rfl : publication = latest := by simpa using hlatest
    exact ⟨⟨report, hcarries⟩, rfl, rfl⟩

end Update

/-! ## Runs -/

/-- What was published to a feed, the latest publication first. -/
def publications (priceFeed : Pubkey) (executed : List FeedInstruction) :
    List Publication :=
  executed.filterMap fun
    | .initializePriceFeed _ _ => none
    | .updatePriceFeedWithChainlink publication =>
        if publication.priceFeed = priceFeed then some publication else none

/-- Every account shows what was published to it, and nothing is published to an account
that does not exist. -/
structure PriceFeeds.ShowAll (programs : ReportPrograms) (address : FeedSeeds → Pubkey)
    (executed : List FeedInstruction) (feeds : PriceFeeds) : Prop where
  none_iff : ∀ key, feeds key = none → publications key executed = []
  shows : ∀ key feed, feeds key = some feed →
    address feed.seeds = key ∧ feed.Shows programs (publications key executed)

section Runs

variable {programs : ReportPrograms} {address : FeedSeeds → Pubkey}
  {seeds : FeedSeeds} {feedId : Pubkey} {publication : Publication}
  {instruction done : FeedInstruction} {executed : List FeedInstruction}
  {feeds after : PriceFeeds}

theorem publications_cons_init (key : Pubkey) (seeds : FeedSeeds) (feedId : Pubkey)
    (executed : List FeedInstruction) :
    publications key (.initializePriceFeed seeds feedId :: executed) =
      publications key executed := rfl

theorem publications_cons_update (key : Pubkey) (publication : Publication)
    (executed : List FeedInstruction) :
    publications key (.updatePriceFeedWithChainlink publication :: executed) =
      if publication.priceFeed = key then publication :: publications key executed
      else publications key executed := by
  simp only [publications, List.filterMap_cons]
  split_ifs <;> rfl

/-- A new feed has no publication. -/
theorem PriceFeeds.ShowAll.initializeFeed (hall : feeds.ShowAll programs address executed)
    (hinit : feeds.initializeFeed address seeds feedId = .ok after) :
    after.ShowAll programs address (.initializePriceFeed seeds feedId :: executed) := by
  simp only [PriceFeeds.initializeFeed, bind_eq_ok, ensure_eq_ok, pure_eq_ok] at hinit
  obtain ⟨_, hvacant, provider, hprovider, _, rfl, rfl⟩ := hinit
  have hindex : seeds.provider = 0 :=
    PriceProviderKind.tryFrom_chainlinkDataStreams hprovider
  refine ⟨fun key hkey => ?_, fun key feed hfeed => ?_⟩
  · rw [publications_cons_init]
    apply hall.none_iff
    by_cases hsame : key = address seeds
    · rw [hsame, Function.update_self] at hkey
      exact absurd hkey (Option.some_ne_none _)
    · rwa [Function.update_of_ne hsame] at hkey
  · rw [publications_cons_init]
    by_cases hsame : key = address seeds
    · subst hsame
      rw [Function.update_self] at hfeed
      obtain rfl := Option.some.inj hfeed
      rw [hall.none_iff _ hvacant]
      exact ⟨rfl, .init hindex⟩
    · rw [Function.update_of_ne hsame] at hfeed
      exact hall.shows key feed hfeed

/-- A publication changes the feed it is for, and no other one. -/
theorem PriceFeeds.ShowAll.update (hall : feeds.ShowAll programs address executed)
    {feed updated : PriceFeed} (hfeed : feeds publication.priceFeed = some feed)
    (hupdate : updatePriceFeedWithChainlink programs publication feed = .ok updated) :
    PriceFeeds.ShowAll programs address
      (.updatePriceFeedWithChainlink publication :: executed)
      (Function.update feeds publication.priceFeed (some updated)) := by
  obtain ⟨haddress, hshows⟩ := hall.shows _ _ hfeed
  have hseeds : updated.seeds = feed.seeds := by
    obtain ⟨_, _, -, -, -, -, -, -, rfl⟩ := updatePriceFeedWithChainlink_eq_ok hupdate
    rfl
  refine ⟨fun key hkey => ?_, fun key other hother => ?_⟩
  · by_cases hsame : key = publication.priceFeed
    · rw [hsame, Function.update_self] at hkey
      exact absurd hkey (Option.some_ne_none _)
    · rw [Function.update_of_ne hsame] at hkey
      rw [publications_cons_update, if_neg (Ne.symm hsame)]
      exact hall.none_iff key hkey
  · by_cases hsame : key = publication.priceFeed
    · subst hsame
      rw [Function.update_self] at hother
      obtain rfl := Option.some.inj hother
      rw [publications_cons_update, if_pos rfl, hseeds]
      exact ⟨haddress, hshows.update hupdate⟩
    · rw [Function.update_of_ne hsame] at hother
      rw [publications_cons_update, if_neg (Ne.symm hsame)]
      exact hall.shows key other hother

theorem PriceFeeds.step_showAll (hall : feeds.ShowAll programs address executed)
    (hstep : feeds.step programs address instruction = .ok (after, done)) :
    after.ShowAll programs address (done :: executed) := by
  cases instruction with
  | initializePriceFeed seeds feedId =>
      simp only [PriceFeeds.step, bind_eq_ok, pure_eq_ok, Prod.mk.injEq] at hstep
      obtain ⟨_, hinit, rfl, rfl⟩ := hstep
      exact hall.initializeFeed hinit
  | updatePriceFeedWithChainlink publication =>
      simp only [PriceFeeds.step, bind_eq_ok, okOr_eq_ok, pure_eq_ok,
        Prod.mk.injEq] at hstep
      obtain ⟨feed, hfeed, updated, hupdate, rfl, rfl⟩ := hstep
      exact hall.update hfeed hupdate

theorem PriceFeeds.showAll_start :
    PriceFeeds.ShowAll programs address [] (fun _ => none) where
  none_iff _ _ := rfl
  shows _ _ hfeed := absurd hfeed (Option.some_ne_none _).symm

/-- Whatever is executed from no feeds on, every feed shows what was published to it:
only its authority publishes, only verified reports of its stream, each one as late as
all those before it, and its price is the one of the last report. -/
theorem PriceFeeds.run_showAll
    (run : Run (PriceFeeds.step programs address) (fun _ _ => True) (fun _ => none)
      executed feeds) : feeds.ShowAll programs address executed :=
  run.invariant (fun executed feeds => feeds.ShowAll programs address executed)
    showAll_start fun _ _ _ _ _ hall _ hstep => step_showAll hall hstep

end Runs

section Store

/-- Reports of the stream 7, whose data are their timestamp and their price. -/
def storePrograms : ReportPrograms where
  decompress bytes :=
    let context : Report.Context :=
      (.replicate 32 0, .replicate 32 0, .replicate 32 0)
    if h : (Report.abiEncode context bytes).length < 2 ^ 63 then
      some ⟨Report.abiEncode context bytes, h⟩
    else none
  parse
    | [ts, price] => some {
        feedId := 7
        validFromTimestamp := 0
        observationsTimestamp := ts.val
        nativeFee := 0
        linkFee := 0
        expiresAt := 0
        benchmarkPrice := price.val * 10 ^ 18
        bid := price.val * 10 ^ 18 - 1
        ask := price.val * 10 ^ 18 + 1 }
    | _ => none
  verify _ _ := true

def storeAddress (seeds : FeedSeeds) : Pubkey := seeds.token

def storePublication (bytes : List Byte) (time : ℕ) : Publication where
  authority := 2
  store := 1
  verifierAccounts := []
  priceFeed := 3
  compressedReport := bytes
  clock := ⟨time, time⟩
  amounts := ⟨60, 30, 10⟩

/-- A feed is initialized, and two reports are published to it. -/
theorem PriceFeeds.run_showAll_sample : ∃ executed feeds,
    PriceFeeds.ShowAll storePrograms storeAddress executed feeds ∧
      (publications 3 executed).length = 2 ∧
      (feeds 3).map (fun feed => feed.price.ts) = some 105 := by
  obtain ⟨result, hperformed, hlength, hts⟩ : ∃ result,
      perform (PriceFeeds.step storePrograms storeAddress) (fun _ _ => True)
        ([], fun _ => none)
        [.initializePriceFeed ⟨1, 2, 0, 0, 3⟩ 7,
          .updatePriceFeedWithChainlink (storePublication [90, 5] 100),
          .updatePriceFeedWithChainlink (storePublication [105, 6] 100)] = some result ∧
      (publications 3 result.1).length = 2 ∧
      (result.2 3).map (fun feed => feed.price.ts) = some 105 :=
    exists_of_any (by decide +kernel)
  exact ⟨result.1, result.2, PriceFeeds.run_showAll (Run.perform .refl hperformed),
    hlength, hts⟩

end Store

end Gmsol.Oracle
