import Gmsol.Oracle.PriceSet
import Mathlib.Order.Bounds.Basic

/-!
# Complete, fresh and cleared price sets

The validator folds the readings of the listed feeds into one range, starting
from an empty range.  What it has seen is a set of readings, and every reading
extends the range by one element.  From this it follows that the oracle holds
the exact range of the feeds, and that an action leaves no price behind.
-/

namespace Gmsol.Oracle

open Gmsol.Fallible Gmsol.FixedArray Gmsol.Model

variable {Feed T : Type}

/-! ## Bounds of sets -/

section Bounds

variable {α : Type*} [LinearOrder α] {values : Set α} {bound value least : α}

/-- A least element of a set with one more element. -/
theorem isLeast_insert_min (hleast : IsLeast values least) :
    IsLeast (insert value values) (min least value) := by
  simpa only [min_comm] using hleast.insert value

theorem isGreatest_insert_max (hgreatest : IsGreatest values least) :
    IsGreatest (insert value values) (max least value) := by
  simpa only [max_comm] using hgreatest.insert value

/-- An upper bound that starts a minimum does not change it. -/
theorem isLeast_of_insert (hleast : IsLeast (insert bound values) least)
    (hnonempty : values.Nonempty) (hbound : ∀ value ∈ values, value ≤ bound) :
    IsLeast values least := by
  refine ⟨?_, fun value hvalue => hleast.2 (Set.mem_insert_of_mem _ hvalue)⟩
  rcases hleast.1 with hstart | hmem
  · obtain ⟨value, hvalue⟩ := hnonempty
    have hbelow : least ≤ value := hleast.2 (Set.mem_insert_of_mem _ hvalue)
    have hequal : value = least :=
      le_antisymm ((hbound value hvalue).trans hstart.ge) hbelow
    exact hequal ▸ hvalue
  · exact hmem

theorem isGreatest_of_insert (hgreatest : IsGreatest (insert bound values) least)
    (hnonempty : values.Nonempty) (hbound : ∀ value ∈ values, bound ≤ value) :
    IsGreatest values least :=
  @isLeast_of_insert αᵒᵈ _ values bound least hgreatest hnonempty hbound

end Bounds

/-! ## Readings -/

/-- What a feed says about its token. -/
structure Reading where
  /-- The timestamp of the feed less the adjustment of its provider. -/
  ts : ℤ
  slot : ℕ
  prices : SmallPrices

def reading (sources : Sources Feed) (clock : SysvarClock) (token : Pubkey)
    (feed : Feed) : Except Stopped Reading := do
  let config ← okOr (sources.getConfig token) (.error .notFound)
  let oraclePrice ← sources.parseFromFeedAccount clock config feed
  let adjustment ← (config.timestampAdjustment oraclePrice.provider).mapError .error
  let prices ← (SmallPrices.fromPrice oraclePrice.price config.isSynthetic).mapError .error
  return {
    ts := oraclePrice.oracleTs - adjustment
    slot := oraclePrice.oracleSlot
    prices }

/-- The readings of the listed feeds. -/
def readings (sources : Sources Feed) (clock : SysvarClock)
    (listed : List (Pubkey × Feed)) : Set Reading :=
  {found | ∃ entry ∈ listed, reading sources clock entry.1 entry.2 = .ok found}

/-- A reading that the validator lets pass. -/
structure Accepted (validator : PriceValidator) (found : Reading) : Prop where
  valid : found.prices.Valid
  above : minTimestamp ≤ found.ts
  below : found.ts ≤ maxTimestamp
  fresh : validator.clock.unixTimestamp ≤ found.ts + validator.maxAge

def PriceValidator.merge (validator : PriceValidator) (found : Reading) :
    PriceValidator :=
  validator.mergeRange (some found.slot) found.ts found.ts

theorem PriceValidator.validateOne_eq_ok {validator validated : PriceValidator}
    {config : TokenConfig} {provider : PriceProviderKind} {oracleTs : ℤ}
    {oracleSlot : ℕ}
    (hvalidate : validator.validateOne config provider oracleTs oracleSlot =
      .ok validated) :
    ∃ adjustment, config.timestampAdjustment provider = .ok adjustment ∧
      minTimestamp ≤ oracleTs - adjustment ∧ oracleTs - adjustment ≤ maxTimestamp ∧
      validator.clock.unixTimestamp ≤ oracleTs - adjustment + validator.maxAge ∧
      validated = validator.mergeRange (some oracleSlot) (oracleTs - adjustment)
        (oracleTs - adjustment) := by
  simp only [validateOne, checkedSubUnsigned, checkedAddUnsigned, bind_eq_ok,
    okOr_eq_ok, checkedTimestamp_eq_some, ensure_eq_ok, pure_eq_ok] at hvalidate
  obtain ⟨adjustment, hadjustment, _, ⟨⟨habove, hbelow⟩, rfl⟩, _, ⟨_, rfl⟩,
    _, hfresh, _, _, rfl⟩ := hvalidate
  exact ⟨adjustment, hadjustment, habove, hbelow, hfresh, rfl⟩

theorem readFeed_eq_ok {sources : Sources Feed} {validator validated : PriceValidator}
    {token : Pubkey} {feed : Feed} {prices : SmallPrices}
    (hread : readFeed sources validator token feed = .ok (validated, prices)) :
    ∃ found, reading sources validator.clock token feed = .ok found ∧
      Accepted validator found ∧ validated = validator.merge found ∧
      prices = found.prices := by
  simp only [readFeed, bind_eq_ok, okOr_eq_ok, ensure_eq_ok, mapError_eq_ok, pure_eq_ok,
    Prod.mk.injEq] at hread
  obtain ⟨config, hconfig, _, _, oraclePrice, hparse, _, hvalidate, _, hprices,
    rfl, rfl⟩ := hread
  obtain ⟨adjustment, hadjustment, habove, hbelow, hfresh, hmerged⟩ :=
    PriceValidator.validateOne_eq_ok hvalidate
  refine ⟨⟨_, _, _⟩, ?_, ⟨(SmallPrices.fromPrice_eq_ok hprices).1, habove, hbelow,
    hfresh⟩, hmerged, rfl⟩
  simp only [reading, bind_eq_ok, okOr_eq_ok, mapError_eq_ok, pure_eq_ok]
  exact ⟨config, hconfig, oraclePrice, hparse, adjustment, hadjustment, _, hprices, rfl⟩

/-! ## One price after the other -/

/-- What setting one price does. -/
theorem setPrice_eq_ok {sources : Sources Feed} {validator validated : PriceValidator}
    {oracle updated : Oracle} {token : Pubkey} {feed : Feed}
    (hset : setPrice sources validator oracle token feed = .ok (validated, updated)) :
    ∃ found primary, reading sources validator.clock token feed = .ok found ∧
      Accepted validator found ∧ validated = validator.merge found ∧
      updated = { oracle with primary } ∧
      primary.contents = oracle.primary.contents.insert token found.prices := by
  rw [setPrice] at hset
  split at hset
  · cases hset
  · rename_i validated prices hread
    obtain ⟨found, hfound, haccepted, rfl, rfl⟩ := readFeed_eq_ok hread
    split at hset
    · cases hset
    · rename_i primary previous hinsert
      obtain ⟨rfl, rfl⟩ := Prod.mk.inj (Except.ok.inj hset)
      exact ⟨found, primary, hfound, haccepted, rfl, rfl,
        PriceMap.contents_of_insert hinsert⟩

theorem setPrices_cons_eq_ok {sources : Sources Feed}
    {validator validated : PriceValidator} {oracle filled : Oracle} {token : Pubkey}
    {feed : Feed} {rest : List (Pubkey × Feed)}
    (hset : setPrices sources validator oracle ((token, feed) :: rest) =
      (filled, .ok validated)) :
    ∃ found primary, reading sources validator.clock token feed = .ok found ∧
      Accepted validator found ∧
      primary.contents = oracle.primary.contents.insert token found.prices ∧
      setPrices sources (validator.merge found) { oracle with primary } rest =
        (filled, .ok validated) := by
  rw [setPrices] at hset
  split at hset
  · cases hset
  · rename_i merged updated hone
    obtain ⟨found, primary, hfound, haccepted, rfl, rfl, hcontents⟩ :=
      setPrice_eq_ok hone
    exact ⟨found, primary, hfound, haccepted, hcontents, hset⟩

theorem readings_cons {sources : Sources Feed} {clock : SysvarClock} {token : Pubkey}
    {feed : Feed} {rest : List (Pubkey × Feed)} {found : Reading}
    (hfound : reading sources clock token feed = .ok found) :
    readings sources clock ((token, feed) :: rest) =
      insert found (readings sources clock rest) := by
  ext other
  simp only [readings, Set.mem_ofPred_eq, List.exists_mem_cons_iff, hfound,
    Except.ok.injEq, Set.mem_insert_iff, eq_comm]

/-! ## The range of the validator -/

/-- The validator has seen these readings since it was made: its timestamps start
from the empty range, and its slot from none. -/
structure Spans (validator : PriceValidator) (seen : Set Reading) : Prop where
  minTs : IsLeast (insert maxTimestamp (Reading.ts '' seen)) validator.minOracleTs
  maxTs : IsGreatest (insert minTimestamp (Reading.ts '' seen)) validator.maxOracleTs
  minSlot : ∀ slot, validator.minOracleSlot = some slot →
    IsLeast (Reading.slot '' seen) slot
  noSlot : validator.minOracleSlot = none → seen = ∅

theorem spans_tryFrom (clock : SysvarClock) (amounts : OracleAmounts) :
    Spans (.tryFrom clock amounts) ∅ where
  minTs := by
    rw [Set.image_empty, insert_empty_eq]
    exact isLeast_singleton
  maxTs := by
    rw [Set.image_empty, insert_empty_eq]
    exact isGreatest_singleton
  minSlot := nofun
  noSlot _ := rfl

/-- Every reading extends the range by one element. -/
theorem Spans.merge {validator : PriceValidator} {seen : Set Reading}
    (hspans : Spans validator seen) (found : Reading) :
    Spans (validator.merge found) (insert found seen) where
  minTs := by
    rw [Set.image_insert_eq, Set.insert_comm]
    exact isLeast_insert_min hspans.minTs
  maxTs := by
    rw [Set.image_insert_eq, Set.insert_comm]
    exact isGreatest_insert_max hspans.maxTs
  minSlot := by
    intro slot hslot
    rw [Set.image_insert_eq]
    cases hbefore : validator.minOracleSlot with
    | none =>
        obtain rfl : found.slot = slot := by
          simpa [PriceValidator.merge, PriceValidator.mergeRange, hbefore,
            PriceValidator.mergeSlot] using hslot
        rw [hspans.noSlot hbefore, Set.image_empty, insert_empty_eq]
        exact isLeast_singleton
    | some current =>
        obtain rfl : min current found.slot = slot := by
          simpa [PriceValidator.merge, PriceValidator.mergeRange, hbefore,
            PriceValidator.mergeSlot] using hslot
        exact isLeast_insert_min (hspans.minSlot current hbefore)
  noSlot := by
    intro hnone
    cases hbefore : validator.minOracleSlot <;>
      simp [PriceValidator.merge, PriceValidator.mergeRange, hbefore,
        PriceValidator.mergeSlot] at hnone

/-- The validator after a run has seen the readings of the listed feeds, and has
let all of them pass. -/
theorem setPrices_spans {sources : Sources Feed} {listed : List (Pubkey × Feed)}
    {validator validated : PriceValidator} {oracle filled : Oracle} {seen : Set Reading}
    (hspans : Spans validator seen)
    (hset : setPrices sources validator oracle listed = (filled, .ok validated)) :
    Spans validated (seen ∪ readings sources validator.clock listed) := by
  induction listed generalizing validator oracle seen with
  | nil =>
      obtain ⟨rfl, hvalidator⟩ := Prod.mk.inj hset
      obtain rfl := Except.ok.inj hvalidator
      simpa [readings] using hspans
  | cons entry rest ih =>
      obtain ⟨found, primary, hfound, _, _, hrest⟩ := setPrices_cons_eq_ok hset
      have hrun := ih (hspans.merge found) hrest
      rw [readings_cons hfound, Set.union_insert, ← Set.insert_union]
      exact hrun

theorem setPrices_accepted {sources : Sources Feed} {listed : List (Pubkey × Feed)}
    {validator validated : PriceValidator} {oracle filled : Oracle}
    (hset : setPrices sources validator oracle listed = (filled, .ok validated)) :
    ∀ entry ∈ listed, ∃ found,
      reading sources validator.clock entry.1 entry.2 = .ok found ∧
        Accepted validator found := by
  induction listed generalizing validator oracle with
  | nil => exact fun entry hentry => absurd hentry List.not_mem_nil
  | cons head rest ih =>
      obtain ⟨found, primary, hfound, haccepted, _, hrest⟩ := setPrices_cons_eq_ok hset
      intro entry hentry
      rcases List.mem_cons.mp hentry with rfl | hrestEntry
      · exact ⟨found, hfound, haccepted⟩
      · obtain ⟨other, hother, ⟨hvalid, habove, hbelow, hfresh⟩⟩ := ih hrest entry hrestEntry
        exact ⟨other, hother, ⟨hvalid, habove, hbelow, hfresh⟩⟩

/-- What a run leaves alone. -/
theorem setPrices_frame {sources : Sources Feed} {listed : List (Pubkey × Feed)}
    {validator : PriceValidator} {oracle : Oracle} :
    ∃ primary, (setPrices sources validator oracle listed).1 = { oracle with primary } := by
  induction listed generalizing validator oracle with
  | nil => exact ⟨oracle.primary, rfl⟩
  | cons head rest ih =>
      rw [setPrices]
      split
      · exact ⟨oracle.primary, rfl⟩
      · rename_i validated updated hone
        obtain ⟨found, primary, _, _, _, rfl, _⟩ := setPrice_eq_ok hone
        obtain ⟨last, hlast⟩ := @ih validated { oracle with primary }
        exact ⟨last, hlast⟩

theorem setPrices_validator {sources : Sources Feed} {listed : List (Pubkey × Feed)}
    {validator validated : PriceValidator} {oracle filled : Oracle}
    (hset : setPrices sources validator oracle listed = (filled, .ok validated)) :
    validated.maxOracleTimestampRange = validator.maxOracleTimestampRange := by
  induction listed generalizing validator oracle with
  | nil =>
      obtain ⟨_, hvalidator⟩ := Prod.mk.inj hset
      rw [Except.ok.inj hvalidator]
  | cons entry rest ih =>
      obtain ⟨found, primary, _, _, _, hrest⟩ := setPrices_cons_eq_ok hset
      have hrun := ih hrest
      rw [hrun]
      rfl

/-- The price of a token is the one of the last feed listed for it. -/
theorem setPrices_stored {sources : Sources Feed} {listed : List (Pubkey × Feed)}
    {validator validated : PriceValidator} {oracle filled : Oracle}
    (hset : setPrices sources validator oracle listed = (filled, .ok validated))
    (token : Pubkey) :
    (∃ feed found, (token, feed) ∈ listed ∧
      reading sources validator.clock token feed = .ok found ∧
      filled.primary.contents.lookup token = some found.prices) ∨
    (token ∉ listed.map Prod.fst ∧
      filled.primary.contents.lookup token = oracle.primary.contents.lookup token) := by
  induction listed generalizing validator oracle with
  | nil =>
      obtain ⟨rfl, _⟩ := Prod.mk.inj hset
      exact .inr ⟨List.not_mem_nil, rfl⟩
  | cons head rest ih =>
      obtain ⟨found, primary, hfound, _, hcontents, hrest⟩ := setPrices_cons_eq_ok hset
      rcases ih hrest with ⟨feed, other, hmem, hother, hlookup⟩ | ⟨hrestAbsent, hlookup⟩
      · exact .inl ⟨feed, other, List.mem_cons_of_mem _ hmem, hother, hlookup⟩
      · simp only at hlookup
        rw [hcontents] at hlookup
        by_cases hsame : token = head.1
        · subst hsame
          rw [Finmap.lookup_insert] at hlookup
          exact .inl ⟨head.2, found, List.mem_cons_self, hfound, hlookup⟩
        · rw [Finmap.lookup_insert_of_ne _ hsame] at hlookup
          refine .inr ⟨?_, hlookup⟩
          rw [List.map_cons, List.mem_cons]
          exact fun hmem => hmem.elim hsame hrestAbsent

/-! ## The cleared oracle -/

/-- The oracle spans no reading. -/
structure EmptyRange (oracle : Oracle) : Prop where
  minOracleTs : oracle.minOracleTs = maxTimestamp
  maxOracleTs : oracle.maxOracleTs = minTimestamp
  minOracleSlot : oracle.minOracleSlot = maxSlot
  isCleared : oracle.isCleared = true

/-- The oracle after it has been cleared: an empty range, and no price. -/
structure Cleared (oracle : Oracle) : Prop extends EmptyRange oracle where
  primary : oracle.primary = PriceMap.zeroed

theorem clearAllPrices_cleared (oracle : Oracle) :
    ∃ after, oracle.clearAllPrices = .ok after ∧ after.Cleared ∧
      after.store = oracle.store ∧ after.authority = oracle.authority := by
  rw [clearAllPrices, PriceMap.clear_eq]
  refine ⟨_, rfl, ⟨⟨rfl, rfl, rfl, ?_⟩, rfl⟩, rfl, rfl⟩
  simp [isCleared, clearedFlag, Bitmap.get_set]

/-- A cleared oracle has no price for any token. -/
theorem Cleared.get {oracle : Oracle} (hcleared : oracle.Cleared) (token : Pubkey) :
    oracle.primary.get token = .ok none := by
  rw [hcleared.primary, PriceMap.get_eq, PriceMap.contents_zeroed, Finmap.lookup_empty]

/-! ## Complete and fresh prices -/

theorem finish_eq_ok {validator : PriceValidator} {range : Option (ℕ × ℤ × ℤ)}
    (hfinish : validator.finish = .ok range) :
    validator.minOracleTs ≤ validator.maxOracleTs ∧
      validator.maxOracleTs - validator.minOracleTs ≤
        validator.maxOracleTimestampRange ∧
      range = validator.minOracleSlot.map fun slot =>
        (slot, validator.minOracleTs, validator.maxOracleTs) := by
  simp only [PriceValidator.finish, bind_eq_ok, okOr_eq_ok, checkedTimestamp_eq_some,
    ensure_eq_ok, pure_eq_ok] at hfinish
  obtain ⟨_, ⟨_, rfl⟩, _, hordered, _, hrange, rfl⟩ := hfinish
  exact ⟨by omega, hrange, rfl⟩

/-- Merging the empty range of a cleared oracle changes nothing. -/
theorem EmptyRange.mergeRange {oracle : Oracle} (hempty : oracle.EmptyRange)
    {validator : PriceValidator} {seen : Set Reading} (hspans : Spans validator seen) :
    validator.mergeRange oracle.getMinOracleSlot oracle.minOracleTs oracle.maxOracleTs =
      validator := by
  have hmin : validator.minOracleTs ≤ maxTimestamp :=
    hspans.minTs.2 (Set.mem_insert _ _)
  have hmax : minTimestamp ≤ validator.maxOracleTs :=
    hspans.maxTs.2 (Set.mem_insert _ _)
  have hslot : PriceValidator.mergeSlot validator.minOracleSlot none =
      validator.minOracleSlot := by
    cases validator.minOracleSlot <;> rfl
  rw [PriceValidator.mergeRange, getMinOracleSlot, hempty.isCleared,
    hempty.minOracleTs, hempty.maxOracleTs, min_eq_left hmin, max_eq_left hmax,
    if_pos rfl, hslot]

/-- What the oracle holds for a list of tokens and their feeds. -/
structure PricesSet (sources : Sources Feed) (clock : SysvarClock)
    (amounts : OracleAmounts) (listed : List (Pubkey × Feed)) (oracle : Oracle) :
    Prop where
  /-- Every listed feed has a reading. -/
  read : ∀ entry ∈ listed, ∃ found, reading sources clock entry.1 entry.2 = .ok found
  /-- Every listed token has the price of a feed that is listed for it. -/
  stored : ∀ token ∈ listed.map Prod.fst, ∃ prices,
    oracle.primary.get token = .ok (some prices) ∧ prices.Valid ∧
      ∃ feed found, (token, feed) ∈ listed ∧
        reading sources clock token feed = .ok found ∧ found.prices = prices
  /-- The range of the oracle is the one of the adjusted timestamps. -/
  minTs : IsLeast (Reading.ts '' readings sources clock listed) oracle.minOracleTs
  maxTs : IsGreatest (Reading.ts '' readings sources clock listed) oracle.maxOracleTs
  minSlot : IsLeast (Reading.slot '' readings sources clock listed) oracle.minOracleSlot
  range : oracle.maxOracleTs - oracle.minOracleTs ≤ amounts.oracleMaxTimestampRange
  fresh : clock.unixTimestamp ≤ oracle.minOracleTs + amounts.oracleMaxAge
  isCleared : oracle.isCleared = false

theorem validateUnset_eq_ok {oracle : Oracle} {tokens : List Pubkey}
    {remainingAccounts : List Feed} {done : Unit}
    (hvalid : oracle.validateUnset tokens remainingAccounts = .ok done) :
    oracle.isCleared = true ∧ tokens.length ≤ PriceMap.maxTokens ∧
      tokens.length ≤ remainingAccounts.length := by
  simp only [validateUnset, bind_eq_ok, ensure_eq_ok] at hvalid
  obtain ⟨_, hcleared, _, _, _, hmost, hfeeds⟩ := hvalid
  exact ⟨hcleared, hmost, hfeeds⟩

/-- Without any reading the range of the validator is empty, and refused. -/
theorem seen_nonempty {validator : PriceValidator} {seen : Set Reading}
    (hspans : Spans validator seen)
    (hordered : validator.minOracleTs ≤ validator.maxOracleTs) : seen.Nonempty := by
  by_contra hnone
  rw [Set.not_nonempty_iff_eq_empty] at hnone
  subst hnone
  have hmin : validator.minOracleTs = maxTimestamp := by simpa using hspans.minTs.1
  have hmax : validator.maxOracleTs = minTimestamp := by simpa using hspans.maxTs.1
  rw [hmin, hmax] at hordered
  exact absurd hordered (by decide)

/-- The range that is written to an oracle with an empty range. -/
theorem EmptyRange.updateOracleTsAndSlot {oracle updated : Oracle}
    (hempty : oracle.EmptyRange) {validator : PriceValidator} {seen : Set Reading}
    (hspans : Spans validator seen)
    (hupdate : oracle.updateOracleTsAndSlot validator = .ok updated) :
    seen.Nonempty ∧ updated.primary = oracle.primary ∧ updated.isCleared = false ∧
      updated.minOracleTs = validator.minOracleTs ∧
      updated.maxOracleTs = validator.maxOracleTs ∧
      validator.minOracleSlot = some updated.minOracleSlot ∧
      updated.maxOracleTs - updated.minOracleTs ≤ validator.maxOracleTimestampRange := by
  simp only [Oracle.updateOracleTsAndSlot, hempty.mergeRange hspans, bind_eq_ok] at hupdate
  obtain ⟨range, hfinish, hwritten⟩ := hupdate
  obtain ⟨hordered, hrange, rfl⟩ := finish_eq_ok hfinish
  have hnonempty := seen_nonempty hspans hordered
  cases hslot : validator.minOracleSlot with
  | none => exact absurd (hspans.noSlot hslot) hnonempty.ne_empty
  | some slot =>
      rw [hslot] at hwritten
      obtain rfl := pure_eq_ok.mp hwritten
      refine ⟨hnonempty, rfl, ?_, rfl, rfl, rfl, hrange⟩
      simp [Oracle.isCleared, clearedFlag, Bitmap.get_set]

/-- Setting the prices of a cleared oracle sets all of them, from fresh readings
within the range of the oracle. -/
theorem setPricesFromRemainingAccounts_complete {sources : Sources Feed}
    {clock : SysvarClock} {amounts : OracleAmounts} {tokens : List Pubkey}
    {remainingAccounts : List Feed} {oracle updated : Oracle} (hempty : oracle.EmptyRange)
    (hset : oracle.setPricesFromRemainingAccounts (.tryFrom clock amounts) sources tokens
      remainingAccounts = (updated, .ok ())) :
    (tokens.zip remainingAccounts).map Prod.fst = tokens ∧
      PricesSet sources clock amounts (tokens.zip remainingAccounts) updated := by
  rw [setPricesFromRemainingAccounts] at hset
  split at hset
  · cases hset
  rename_i hvalid
  obtain ⟨_, _, hfeeds⟩ := validateUnset_eq_ok hvalid
  split at hset
  · cases hset
  rename_i filled validated hfilled
  split at hset
  · cases hset
  rename_i hupdate
  obtain ⟨rfl, _⟩ := Prod.mk.inj hset
  have hspans := setPrices_spans (spans_tryFrom clock amounts) hfilled
  rw [Set.empty_union] at hspans
  have haccepted := setPrices_accepted hfilled
  have hfilledEmpty : filled.EmptyRange := by
    obtain ⟨primary, hframe⟩ := @setPrices_frame _ sources
      (tokens.zip remainingAccounts) (.tryFrom clock amounts) oracle
    obtain rfl : { oracle with primary } = filled := by rw [← hframe, hfilled]
    exact ⟨hempty.minOracleTs, hempty.maxOracleTs, hempty.minOracleSlot,
      hempty.isCleared⟩
  obtain ⟨hnonempty, hprimary, hset, hmin, hmax, hslot, hrange⟩ :=
    hfilledEmpty.updateOracleTsAndSlot hspans hupdate
  have hseen : ∀ found ∈ readings sources clock (tokens.zip remainingAccounts),
      Accepted (.tryFrom clock amounts) found := by
    rintro found ⟨entry, hentry, hfound⟩
    obtain ⟨other, hother, hotherAccepted⟩ := haccepted entry hentry
    obtain rfl := Except.ok.inj (hfound.symm.trans hother)
    exact hotherAccepted
  have hminTs : IsLeast (Reading.ts '' readings sources clock
      (tokens.zip remainingAccounts)) validated.minOracleTs := by
    apply isLeast_of_insert hspans.minTs (hnonempty.image _)
    rintro _ ⟨found, hfound, rfl⟩
    exact (hseen found hfound).below
  refine ⟨List.map_fst_zip hfeeds, ?_, ?_, ?_, ?_, hspans.minSlot _ hslot, ?_, ?_, hset⟩
  · intro entry hentry
    obtain ⟨found, hfound, _⟩ := haccepted entry hentry
    exact ⟨found, hfound⟩
  · intro token htoken
    rcases setPrices_stored hfilled token with
      ⟨feed, found, hmem, hfound, hlookup⟩ | ⟨habsent, _⟩
    · refine ⟨found.prices, ?_, (hseen found ⟨_, hmem, hfound⟩).valid, feed, found, hmem,
        hfound, rfl⟩
      rw [hprimary, PriceMap.get_eq, hlookup]
    · exact absurd htoken habsent
  · rw [hmin]
    exact hminTs
  · rw [hmax]
    apply isGreatest_of_insert hspans.maxTs (hnonempty.image _)
    rintro _ ⟨found, hfound, rfl⟩
    exact (hseen found hfound).above
  · rw [setPrices_validator hfilled] at hrange
    exact hrange
  · obtain ⟨found, hfound, hts⟩ := hminTs.1
    rw [hmin, ← hts]
    exact (hseen found hfound).fresh

/-! ## No price is left behind -/

/-- Reading one of the listed feeds stops the program. -/
def Sources.StopsAt (sources : Sources Feed) (clock : SysvarClock)
    (listed : List (Pubkey × Feed)) (panic : Panic) : Prop :=
  ∃ entry ∈ listed, ∃ config, sources.getConfig entry.1 = some config ∧
    sources.parseFromFeedAccount clock config entry.2 = .error (.panic panic)

/-- Only the parser of the feed stops the program. -/
theorem readFeed_panics {sources : Sources Feed} {validator : PriceValidator}
    {token : Pubkey} {feed : Feed} {panic : Panic}
    (hread : readFeed sources validator token feed = .error (.panic panic)) :
    ∃ config, sources.getConfig token = some config ∧
      sources.parseFromFeedAccount validator.clock config feed = .error (.panic panic) := by
  have hcore {α : Type} (result : Except CoreError α) :
      FailsOnly (· ≠ .panic panic) (result.mapError Stopped.error) := by
    intro stopped hfail
    cases result <;> cases hfail
    simp
  by_contra hnone
  have honly : FailsOnly (· ≠ .panic panic) (readFeed sources validator token feed) := by
    refine FailsOnly.okOr_bind (fun _ => by simp) fun config hconfig => ?_
    refine FailsOnly.bind (failsOnly_ensure fun _ => by simp) fun _ _ => ?_
    refine FailsOnly.bind (fun stopped hfail hstopped => ?_) fun _ _ => ?_
    · exact hnone ⟨config, hconfig, hstopped ▸ hfail⟩
    · exact FailsOnly.bind (hcore _) fun _ _ => FailsOnly.bind (hcore _) fun _ _ =>
        failsOnly_ok _
  exact honly _ hread rfl

/-- With room for all listed tokens no insertion stops the program. -/
theorem setPrices_panics {sources : Sources Feed} {listed : List (Pubkey × Feed)}
    {validator : PriceValidator} {oracle : Oracle} {panic : Panic}
    (hroom : oracle.primary.contents.keys.card + listed.length ≤ PriceMap.maxTokens)
    (hset : (setPrices sources validator oracle listed).2 = .error (.panic panic)) :
    sources.StopsAt validator.clock listed panic := by
  induction listed generalizing validator oracle with
  | nil => simp [setPrices] at hset
  | cons head rest ih =>
      rw [List.length_cons] at hroom
      rw [setPrices] at hset
      split at hset
      · rename_i stopped hstopped
        rw [setPrice] at hstopped
        split at hstopped
        · rename_i failed hread
          obtain rfl := Except.error.inj hstopped
          obtain rfl := Except.error.inj hset
          exact ⟨head, List.mem_cons_self, readFeed_panics hread⟩
        · rename_i validated prices _
          obtain ⟨after, hinsert, _⟩ := oracle.primary.insert_eq head.1 prices
            (.inr (by omega))
          rw [hinsert] at hstopped
          cases hstopped
      · rename_i validated updated hone
        obtain ⟨found, primary, _, _, rfl, rfl, hcontents⟩ := setPrice_eq_ok hone
        obtain ⟨entry, hentry, hstops⟩ := ih (by
          have hcard := Finset.card_insert_le head.1 oracle.primary.contents.keys
          rw [hcontents, Container.FiniteMap.keys_insert]
          omega) hset
        exact ⟨entry, List.mem_cons_of_mem _ hentry, hstops⟩

theorem setPricesFromRemainingAccounts_panics {sources : Sources Feed}
    {validator : PriceValidator} {tokens : List Pubkey} {remainingAccounts : List Feed}
    {oracle : Oracle} {panic : Panic} (hcleared : oracle.Cleared)
    (hset : (oracle.setPricesFromRemainingAccounts validator sources tokens
      remainingAccounts).2 = .error (.panic panic)) :
    sources.StopsAt validator.clock (tokens.zip remainingAccounts) panic := by
  rw [setPricesFromRemainingAccounts] at hset
  split at hset
  · simp at hset
  rename_i hvalid
  obtain ⟨_, hmost, _⟩ := validateUnset_eq_ok hvalid
  have hroom : oracle.primary.contents.keys.card +
      (tokens.zip remainingAccounts).length ≤ PriceMap.maxTokens := by
    rw [hcleared.primary, PriceMap.contents_zeroed, List.length_zip]
    exact (Nat.zero_add _).le.trans ((min_le_left _ _).trans hmost)
  split at hset
  · rename_i stopped hstopped
    apply setPrices_panics hroom
    rw [hstopped]
    simpa using hset
  · split at hset <;> simp at hset

/-- Clearing after an outcome keeps the outcome, and leaves no price unless the
program has stopped. -/
theorem clearAfter_cleared (oracle : Oracle) (outcome : Except Stopped T) :
    (oracle.clearAfter outcome).2 = outcome ∧
      ((∀ panic, outcome ≠ .error (.panic panic)) →
        (oracle.clearAfter outcome).1.Cleared) := by
  obtain ⟨after, hafter, hcleared, _⟩ := clearAllPrices_cleared oracle
  rcases outcome with (error | panic) | value
  · have hkept : oracle.clearAfter (.error (.error error) : Except Stopped T) =
        (after, .error (.error error)) := by
      simp only [clearAfter, hafter]
    rw [hkept]
    exact ⟨rfl, fun _ => hcleared⟩
  · exact ⟨rfl, fun hrunning => absurd rfl (hrunning panic)⟩
  · have hkept : oracle.clearAfter (.ok value : Except Stopped T) = (after, .ok value) := by
      simp only [clearAfter, hafter]
    rw [hkept]
    exact ⟨rfl, fun _ => hcleared⟩

/-- The program has stopped, in the action or at a feed that is read for it. -/
def StoppedBy (clock : Except CoreError SysvarClock)
    (tokenMap : Except CoreError (Sources Feed)) (tokens : List Pubkey)
    (remainingAccounts : List Feed)
    (action : Oracle → List Feed → Oracle × Except Stopped T) (panic : Panic) : Prop :=
  (∃ filled, (action filled (remainingAccounts.drop tokens.length)).2 =
      .error (.panic panic)) ∨
    ∃ now sources, clock = .ok now ∧ tokenMap = .ok sources ∧
      sources.StopsAt now (tokens.zip remainingAccounts) panic

/-- In every outcome, an action that runs with the prices of a cleared oracle leaves
the oracle cleared.  The program stops only where the action or a feed stops it. -/
theorem withPrices_cleared {oracle : Oracle} (hcleared : oracle.Cleared)
    (clock : Except CoreError SysvarClock) (amounts : OracleAmounts)
    (tokenMap : Except CoreError (Sources Feed)) (tokens : List Pubkey)
    (remainingAccounts : List Feed)
    (action : Oracle → List Feed → Oracle × Except Stopped T) :
    (∃ panic, StoppedBy clock tokenMap tokens remainingAccounts action panic ∧
      (oracle.withPrices clock amounts tokenMap tokens remainingAccounts action).2 =
        .error (.panic panic)) ∨
    (oracle.withPrices clock amounts tokenMap tokens remainingAccounts action).1.Cleared := by
  simp only [withPrices]
  split
  · exact .inr hcleared
  rename_i now
  split
  · exact .inr hcleared
  split
  · exact .inr hcleared
  rename_i sources
  split
  · rename_i partly stopped hset
    have hclear := clearAfter_cleared partly (.error stopped : Except Stopped T)
    by_cases hpanics : ∃ panic, stopped = .panic panic
    · obtain ⟨panic, rfl⟩ := hpanics
      obtain ⟨entry, hentry, hstops⟩ :=
        setPricesFromRemainingAccounts_panics hcleared (congrArg Prod.snd hset)
      have hlisted : entry ∈ (tokens.zip remainingAccounts).take tokens.length := by
        rw [List.zip, List.take_zipWith, List.take_length]
        exact hentry
      exact .inl ⟨panic, .inr ⟨now, sources, rfl, rfl, entry, List.mem_of_mem_take hlisted,
        hstops⟩, hclear.1⟩
    · exact .inr (hclear.2 fun panic hpanic => hpanics ⟨panic, Except.error.inj hpanic⟩)
  · rename_i filled _
    have hclear := clearAfter_cleared
      (action filled (remainingAccounts.drop tokens.length)).1
      (action filled (remainingAccounts.drop tokens.length)).2
    by_cases hpanics : ∃ panic,
        (action filled (remainingAccounts.drop tokens.length)).2 = .error (.panic panic)
    · obtain ⟨panic, hpanic⟩ := hpanics
      exact .inl ⟨panic, .inl ⟨filled, hpanic⟩, hclear.1.trans hpanic⟩
    · exact .inr (hclear.2 fun panic hpanic => hpanics ⟨panic, hpanic⟩)

/-- On a cleared oracle, prices that are set are complete and fresh, and an action
that runs with prices leaves the oracle cleared, so that it has no price for any
token, unless the action or a feed stops the program. -/
theorem priceSets_complete_and_cleared {oracle : Oracle} (hcleared : oracle.Cleared)
    (amounts : OracleAmounts) (tokens : List Pubkey) (remainingAccounts : List Feed) :
    (∀ (sources : Sources Feed) (clock : SysvarClock) (updated : Oracle),
      oracle.setPricesFromRemainingAccounts (.tryFrom clock amounts) sources tokens
        remainingAccounts = (updated, .ok ()) →
      (tokens.zip remainingAccounts).map Prod.fst = tokens ∧
        PricesSet sources clock amounts (tokens.zip remainingAccounts) updated) ∧
    (∀ (tokenMap : Except CoreError (Sources Feed)) (clock : Except CoreError SysvarClock)
      (action : Oracle → List Feed → Oracle × Except Stopped T),
      let after :=
        oracle.withPrices clock amounts tokenMap tokens remainingAccounts action
      (∃ panic, StoppedBy clock tokenMap tokens remainingAccounts action panic ∧
        after.2 = .error (.panic panic)) ∨
      (after.1.Cleared ∧ ∀ token, after.1.primary.get token = .ok none)) := by
  refine ⟨fun sources clock updated hset =>
    setPricesFromRemainingAccounts_complete hcleared.toEmptyRange hset,
    fun tokenMap clock action => ?_⟩
  intro after
  rcases withPrices_cleared hcleared clock amounts tokenMap tokens remainingAccounts
    action with hpanics | hafter
  · exact .inl hpanics
  · exact .inr ⟨hafter, hafter.get⟩

section Store

/-- A cleared oracle. -/
def storeOracle : Oracle where
  store := 1
  authority := 2
  minOracleTs := maxTimestamp
  maxOracleTs := minTimestamp
  minOracleSlot := maxSlot
  primary := PriceMap.zeroed
  flags := Bitmap.set 0 clearedFlag true

theorem storeOracle_cleared : storeOracle.Cleared :=
  ⟨⟨rfl, rfl, rfl, by decide⟩, rfl⟩

def storeTokenConfig : TokenConfig where
  name := []
  flags := Bitmap.set 0 TokenConfig.enabledFlag true
  tokenDecimals := 9
  precision := 4
  expectedProvider := 1
  feeds := fun _ => ⟨7, 1⟩
  heartbeatDuration := 30

/-- The feeds of these sources are the timestamps of their prices. -/
def storeSources : Sources ℤ where
  getConfig _ := some storeTokenConfig
  parseFromFeedAccount _ _ feed := .ok {
    provider := .pyth
    oracleSlot := feed.toNat + 5
    oracleTs := feed
    price := ⟨⟨100, 2⟩, ⟨101, 2⟩⟩ }

def storeClock : SysvarClock := ⟨0, 1000⟩

def storeAmounts : OracleAmounts := ⟨60, 30, 10⟩

/-- The prices of two tokens are set, and an action that fails leaves none. -/
theorem priceSets_complete_and_cleared_twoTokens :
    (∃ updated, storeOracle.setPricesFromRemainingAccounts
        (.tryFrom storeClock storeAmounts) storeSources [3, 4] [980, 1005] =
          (updated, .ok ()) ∧
      PricesSet storeSources storeClock storeAmounts [(3, 980), (4, 1005)] updated) ∧
    (storeOracle.withPrices (.ok storeClock) storeAmounts (.ok storeSources) [3, 4]
      [980, 1005] fun filled _ =>
        (filled, (.error (.error .invalidArgument) : Except Stopped Unit))).1.Cleared := by
  obtain ⟨hcomplete, hcleared⟩ := @priceSets_complete_and_cleared ℤ Unit storeOracle
    storeOracle_cleared storeAmounts [3, 4] [980, 1005]
  have hset : (storeOracle.setPricesFromRemainingAccounts
      (.tryFrom storeClock storeAmounts) storeSources [3, 4] [980, 1005]).2 = .ok () := by
    decide +kernel
  refine ⟨⟨_, Prod.ext rfl hset, ?_⟩, ?_⟩
  · exact (hcomplete storeSources storeClock _ (Prod.ext rfl hset)).2
  · rcases hcleared (.ok storeSources) (.ok storeClock) (fun filled _ =>
      (filled, .error (.error .invalidArgument))) with
      ⟨_, ⟨_, haction⟩ | ⟨_, _, _, hsources, _, _, _, _, hparse⟩, _⟩ | hafter
    · cases haction
    · obtain rfl := Except.ok.inj hsources
      cases hparse
    · exact hafter.1

end Store

end Gmsol.Oracle
