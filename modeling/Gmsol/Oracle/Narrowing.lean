import Gmsol.Library.BinarySearch
import Gmsol.Oracle.Decimal

/-!
# Narrowing prices

Reports carry prices of 192 bits and the store keeps 128.  A price that does not
fit is divided by the least power of ten that makes it fit, which is found in a
table of the largest prices for each power.
-/

namespace Gmsol.Oracle

open Gmsol.Fallible

/-- The type of the prices of a report. -/
abbrev U192 := Fin (2 ^ 192)

namespace Narrowing

/-- The number with the given 64-bit limbs, the low limb first. -/
def fromLimbs (low middle high : ℕ) : ℕ :=
  low + middle * 2 ^ 64 + high * 2 ^ 128

/-- The largest numbers that fit after a division by ten to the index. -/
def powerBounds : List ℕ :=
  [fromLimbs 18446744073709551615 18446744073709551615 0,
    fromLimbs 18446744073709551606 18446744073709551615 9,
    fromLimbs 18446744073709551516 18446744073709551615 99,
    fromLimbs 18446744073709550616 18446744073709551615 999,
    fromLimbs 18446744073709541616 18446744073709551615 9999,
    fromLimbs 18446744073709451616 18446744073709551615 99999,
    fromLimbs 18446744073708551616 18446744073709551615 999999,
    fromLimbs 18446744073699551616 18446744073709551615 9999999,
    fromLimbs 18446744073609551616 18446744073709551615 99999999,
    fromLimbs 18446744072709551616 18446744073709551615 999999999,
    fromLimbs 18446744063709551616 18446744073709551615 9999999999,
    fromLimbs 18446743973709551616 18446744073709551615 99999999999,
    fromLimbs 18446743073709551616 18446744073709551615 999999999999,
    fromLimbs 18446734073709551616 18446744073709551615 9999999999999,
    fromLimbs 18446644073709551616 18446744073709551615 99999999999999,
    fromLimbs 18445744073709551616 18446744073709551615 999999999999999,
    fromLimbs 18436744073709551616 18446744073709551615 9999999999999999,
    fromLimbs 18346744073709551616 18446744073709551615 99999999999999999,
    fromLimbs 17446744073709551616 18446744073709551615 999999999999999999,
    fromLimbs 8446744073709551616 18446744073709551615 9999999999999999999]

/-- How a bound of the table compares with a number. -/
def compareBound (num : U192) (index : ℕ) : Ordering :=
  compare (powerBounds.getD index 0) num.val

/-- The least decimals of a divisor with which the number fits. -/
def findDivisorDecimals (num : U192) : ℕ :=
  match binarySearchBy (compareBound num) powerBounds.length with
  | .ok index => index
  | .error index => index

/-- `TEN.pow(exponent)`, which wraps around. -/
def tenPow (exponent : ℕ) : ℕ := 10 ^ exponent % 2 ^ 192

inductive FeedError
  | negativePriceIsNotSupported
  | invalidPriceReport
  | priceOverflow
  | panic (message : String)
  deriving DecidableEq, Repr

/-- `(num / divisor).try_into().unwrap()`. -/
def divideAndUnwrap (num : U192) (divisor : ℕ) : Except FeedError U128 :=
  if divisor = 0 then .error (.panic "attempt to divide by zero")
  else if h : num.val / divisor < 2 ^ 128 then .ok ⟨num.val / divisor, h⟩
  else .error (.panic "called `Result::unwrap()` on an `Err` value")

/-- The number and its decimals in the narrow type, unless too many decimals
would be lost. -/
def convertToU128Storage (num : U192) (decimals : ℕ) :
    Except FeedError (Option (U128 × ℕ)) :=
  let divisorDecimals := findDivisorDecimals num
  if divisorDecimals > decimals then .ok none
  else do
    let value ← divideAndUnwrap num (tenPow divisorDecimals)
    return some (value, decimals - divisorDecimals)

/-- A number with a sign, which holds for numbers that are not negative. -/
abbrev Signed : Type := Bool × U192

structure Report where
  observationsTimestamp : ℕ
  price : Signed
  bid : Signed
  ask : Signed

def Report.decimals : ℕ := 18

def nonNegative (num : Signed) : Option U192 :=
  if num.1 then some num.2 else none

structure PriceFeedPrice where
  decimals : ℕ
  isMarketOpen : Bool
  ts : ℤ
  price : U128
  minPrice : U128
  maxPrice : U128
  deriving DecidableEq, Repr

def fromChainlinkReport (report : Report) : Except FeedError PriceFeedPrice := do
  let price ← okOr (nonNegative report.price) .negativePriceIsNotSupported
  let bid ← okOr (nonNegative report.bid) .negativePriceIsNotSupported
  let ask ← okOr (nonNegative report.ask) .negativePriceIsNotSupported
  ensure (price ≤ ask) .invalidPriceReport
  ensure (bid ≤ price) .invalidPriceReport
  let divisorDecimals := findDivisorDecimals ask
  ensure (divisorDecimals ≤ Report.decimals) .priceOverflow
  let divisor := tenPow divisorDecimals
  let narrowPrice ← divideAndUnwrap price divisor
  let minPrice ← divideAndUnwrap bid divisor
  let maxPrice ← divideAndUnwrap ask divisor
  return {
    decimals := Report.decimals - divisorDecimals
    isMarketOpen := true
    ts := report.observationsTimestamp
    price := narrowPrice
    minPrice, maxPrice }

/-! ## The table -/

/-- The table is right, limb by limb. -/
theorem powerBounds_getD : ∀ index < 20,
    powerBounds.getD index 0 = (2 ^ 128 - 1) * 10 ^ index := by
  decide +kernel

theorem bound_mono {first second : ℕ} (hle : first ≤ second) :
    (2 ^ 128 - 1) * 10 ^ first ≤ (2 ^ 128 - 1) * 10 ^ second :=
  Nat.mul_le_mul_left _ (Nat.pow_le_pow_right (by norm_num) hle)

theorem compareBound_eq {num : U192} {index : ℕ} (hindex : index < 20) :
    compareBound num index = compare ((2 ^ 128 - 1) * 10 ^ index) num.val := by
  rw [compareBound, powerBounds_getD index hindex]

theorem sortedBy_compareBound (num : U192) : SortedBy (compareBound num) 20 where
  lt_of_lt := by
    intro first second hle hlt hsecond
    rw [compareBound_eq (by omega), Nat.compare_eq_lt] at hsecond ⊢
    exact (bound_mono hle).trans_lt hsecond
  gt_of_gt := by
    intro first second hle hlt hfirst
    rw [compareBound_eq (by omega), Nat.compare_eq_gt] at hfirst ⊢
    exact hfirst.trans_le (bound_mono hle)

/-- The search ends at the first bound that is not below the number. -/
theorem findDivisorDecimals_spec (num : U192) :
    findDivisorDecimals num ≤ 20 ∧
      num.val ≤ (2 ^ 128 - 1) * 10 ^ findDivisorDecimals num ∧
      ∀ below < findDivisorDecimals num, (2 ^ 128 - 1) * 10 ^ below < num.val := by
  have hspec := binarySearchBy_spec (sortedBy_compareBound num)
  rw [findDivisorDecimals, show powerBounds.length = 20 from rfl]
  cases hsearch : binarySearchBy (compareBound num) 20 with
  | ok index =>
      rw [hsearch] at hspec
      obtain ⟨hindex, hequal⟩ := hspec
      rw [compareBound_eq hindex, Nat.compare_eq_eq] at hequal
      refine ⟨hindex.le, hequal.ge, fun below hbelow => ?_⟩
      calc (2 ^ 128 - 1) * 10 ^ below < (2 ^ 128 - 1) * 10 ^ index :=
            Nat.mul_lt_mul_of_pos_left
              (Nat.pow_lt_pow_right (by norm_num) hbelow) (by norm_num)
        _ = num.val := hequal
  | error index =>
      rw [hsearch] at hspec
      obtain ⟨hindex, hbelow, habove⟩ := hspec
      dsimp only
      refine ⟨hindex, ?_, fun below hlt => ?_⟩
      · rcases hindex.lt_or_eq with hlt | rfl
        · have hgreater := habove index le_rfl hlt
          rw [compareBound_eq hlt, Nat.compare_eq_gt] at hgreater
          exact hgreater.le
        · exact num.isLt.le.trans (by norm_num)
      · have hless := hbelow below hlt
        rw [compareBound_eq (by omega), Nat.compare_eq_lt] at hless
        exact hless

/-- The decimals that are found are the least ones with which the number fits. -/
theorem findDivisorDecimals_isLeast (num : U192) :
    IsLeast {decimals | num.val ≤ (2 ^ 128 - 1) * 10 ^ decimals}
      (findDivisorDecimals num) := by
  obtain ⟨-, hfits, hbelow⟩ := findDivisorDecimals_spec num
  refine ⟨hfits, fun decimals hdecimals => ?_⟩
  by_contra hless
  exact absurd (hbelow decimals (by omega)) (not_lt.mpr hdecimals)

/-! ## The conversions -/

/-- No power of ten that is used wraps around. -/
theorem tenPow_eq {exponent : ℕ} (hexponent : exponent ≤ 20) :
    tenPow exponent = 10 ^ exponent := by
  apply Nat.mod_eq_of_lt
  calc 10 ^ exponent ≤ 10 ^ 20 := Nat.pow_le_pow_right (by norm_num) hexponent
    _ < 2 ^ 192 := by norm_num

/-- Numbers up to one that fits can be divided and unwrapped. -/
theorem divideAndUnwrap_eq {num bound : U192} (hle : num ≤ bound) :
    ∃ h : num.val / 10 ^ findDivisorDecimals bound < 2 ^ 128,
      divideAndUnwrap num (tenPow (findDivisorDecimals bound)) =
        .ok ⟨num.val / 10 ^ findDivisorDecimals bound, h⟩ := by
  obtain ⟨hlimit, hfits, -⟩ := findDivisorDecimals_spec bound
  have hpos : 0 < 10 ^ findDivisorDecimals bound := Nat.pow_pos (by norm_num)
  have hlt : num.val / 10 ^ findDivisorDecimals bound < 2 ^ 128 := by
    rw [Nat.div_lt_iff_lt_mul hpos]
    calc num.val ≤ bound.val := hle
      _ ≤ (2 ^ 128 - 1) * 10 ^ findDivisorDecimals bound := hfits
      _ < 2 ^ 128 * 10 ^ findDivisorDecimals bound :=
          Nat.mul_lt_mul_of_pos_right (by norm_num) hpos
  refine ⟨hlt, ?_⟩
  rw [divideAndUnwrap, tenPow_eq hlimit, if_neg hpos.ne', dif_pos hlt]

/-- What is left of a number that had to be divided is large. -/
theorem le_div_of_pos {num : U192} (hpos : 0 < findDivisorDecimals num) :
    (2 ^ 128 - 1) / 10 ≤ num.val / 10 ^ findDivisorDecimals num := by
  obtain ⟨-, -, hbelow⟩ := findDivisorDecimals_spec num
  have hlast := hbelow (findDivisorDecimals num - 1) (by omega)
  have hpower : 10 ^ findDivisorDecimals num =
      10 ^ (findDivisorDecimals num - 1) * 10 := by
    rw [← pow_succ]
    congr 1
    omega
  rw [hpower, ← Nat.div_div_eq_div_mul]
  apply Nat.div_le_div_right
  rw [Nat.le_div_iff_mul_le (Nat.pow_pos (by norm_num))]
  exact hlast.le

theorem convertToU128Storage_eq (num : U192) (decimals : ℕ) :
    (convertToU128Storage num decimals = .ok none ↔
        decimals < findDivisorDecimals num) ∧
      (findDivisorDecimals num ≤ decimals → ∃ value : U128,
        convertToU128Storage num decimals =
            .ok (some (value, decimals - findDivisorDecimals num)) ∧
          value.val = num.val / 10 ^ findDivisorDecimals num) := by
  have hconvert : findDivisorDecimals num ≤ decimals → ∃ value : U128,
      convertToU128Storage num decimals =
          .ok (some (value, decimals - findDivisorDecimals num)) ∧
        value.val = num.val / 10 ^ findDivisorDecimals num := by
    intro hle
    obtain ⟨hlt, hdivide⟩ := divideAndUnwrap_eq (le_refl num)
    refine ⟨⟨_, hlt⟩, ?_, rfl⟩
    simp only [convertToU128Storage, if_neg (not_lt.mpr hle), hdivide]
    rfl
  refine ⟨⟨fun hnone => ?_, fun hlt => ?_⟩, hconvert⟩
  · by_contra hle
    obtain ⟨value, hsome, -⟩ := hconvert (by omega)
    rw [hnone] at hsome
    exact absurd hsome (by simp)
  · rw [convertToU128Storage, if_pos hlt]

/-- A price of the feed is a price of the report, narrowed with the divisor of the
largest one. -/
structure NarrowsReport (report : Report) (price : PriceFeedPrice) : Prop where
  decimals_eq : price.decimals + findDivisorDecimals report.ask.2 = Report.decimals
  price_eq : price.price.val = report.price.2.val / 10 ^ findDivisorDecimals report.ask.2
  minPrice_eq :
    price.minPrice.val = report.bid.2.val / 10 ^ findDivisorDecimals report.ask.2
  maxPrice_eq :
    price.maxPrice.val = report.ask.2.val / 10 ^ findDivisorDecimals report.ask.2
  minPrice_le : price.minPrice ≤ price.price
  le_maxPrice : price.price ≤ price.maxPrice

theorem nonNegative_eq_some {num : Signed} {value : U192} :
    nonNegative num = some value ↔ num.1 = true ∧ num.2 = value := by
  simp [nonNegative]

theorem fromChainlinkReport_eq_ok {report : Report} {price : PriceFeedPrice}
    (hprice : fromChainlinkReport report = .ok price) : NarrowsReport report price := by
  simp only [fromChainlinkReport, bind_eq_ok, okOr_eq_ok, ensure_eq_ok, pure_eq_ok,
    nonNegative_eq_some] at hprice
  obtain ⟨_, ⟨-, rfl⟩, _, ⟨-, rfl⟩, _, ⟨-, rfl⟩, _, hask, _, hbid, _, hlimit, value,
    hvalue, minPrice, hmin, maxPrice, hmax, rfl⟩ := hprice
  obtain ⟨_, hvalueEq⟩ := divideAndUnwrap_eq hask
  obtain ⟨_, hminEq⟩ := divideAndUnwrap_eq (hbid.trans hask)
  obtain ⟨_, hmaxEq⟩ := divideAndUnwrap_eq (le_refl report.ask.2)
  rw [hvalueEq] at hvalue
  rw [hminEq] at hmin
  rw [hmaxEq] at hmax
  obtain rfl := Except.ok.inj hvalue
  obtain rfl := Except.ok.inj hmin
  obtain rfl := Except.ok.inj hmax
  exact {
    decimals_eq := Nat.sub_add_cancel hlimit
    price_eq := rfl
    minPrice_eq := rfl
    maxPrice_eq := rfl
    minPrice_le := Nat.div_le_div_right hbid
    le_maxPrice := Nat.div_le_div_right hask }

/-- Reading a report never stops the program. -/
theorem fromChainlinkReport_ne_panic (report : Report) (message : String) :
    fromChainlinkReport report ≠ .error (.panic message) := by
  have hfails : FailsOnly (fun error => ∀ message, error ≠ FeedError.panic message)
      (fromChainlinkReport report) := by
    refine FailsOnly.okOr_bind (fun _ => nofun) fun price hprice => ?_
    refine FailsOnly.okOr_bind (fun _ => nofun) fun bid hbid => ?_
    refine FailsOnly.okOr_bind (fun _ => nofun) fun ask hask => ?_
    refine (failsOnly_ensure fun _ => nofun).bind fun _ hpriceLe => ?_
    refine (failsOnly_ensure fun _ => nofun).bind fun _ hbidLe => ?_
    refine (failsOnly_ensure fun _ => nofun).bind fun _ _ => ?_
    rw [ensure_eq_ok] at hpriceLe hbidLe
    obtain ⟨_, hvalueEq⟩ := divideAndUnwrap_eq hpriceLe
    obtain ⟨_, hminEq⟩ := divideAndUnwrap_eq (hbidLe.trans hpriceLe)
    obtain ⟨_, hmaxEq⟩ := divideAndUnwrap_eq (le_refl ask)
    simp only [hvalueEq, hminEq, hmaxEq]
    exact failsOnly_ok _
  intro hpanic
  exact hfails _ hpanic message rfl

/-- Narrowing is tight and safe: the divisor is the least one, what it leaves is
exact and large, and no price of a report stops the program. -/
theorem narrowing_tight_and_safe :
    (∀ num : U192,
      IsLeast {decimals | num.val ≤ (2 ^ 128 - 1) * 10 ^ decimals}
        (findDivisorDecimals num) ∧ findDivisorDecimals num ≤ 20) ∧
    (∀ (num : U192) (decimals : ℕ),
      (convertToU128Storage num decimals = .ok none ↔
        decimals < findDivisorDecimals num) ∧
      (findDivisorDecimals num ≤ decimals → ∃ value : U128,
        convertToU128Storage num decimals =
            .ok (some (value, decimals - findDivisorDecimals num)) ∧
          value.val = num.val / 10 ^ findDivisorDecimals num ∧
          (0 < findDivisorDecimals num → (2 ^ 128 - 1) / 10 ≤ value.val))) ∧
    ∀ report : Report,
      (∀ message, fromChainlinkReport report ≠ .error (.panic message)) ∧
      ∀ price, fromChainlinkReport report = .ok price → NarrowsReport report price := by
  refine ⟨fun num => ?_, fun num decimals => ?_, fun report => ?_⟩
  · exact ⟨findDivisorDecimals_isLeast num, (findDivisorDecimals_spec num).1⟩
  · obtain ⟨hnone, hsome⟩ := convertToU128Storage_eq num decimals
    refine ⟨hnone, fun hle => ?_⟩
    obtain ⟨value, hconvert, hvalue⟩ := hsome hle
    refine ⟨value, hconvert, hvalue, fun hpos => ?_⟩
    rw [hvalue]
    exact le_div_of_pos hpos
  · exact ⟨fromChainlinkReport_ne_panic report, fun _ => fromChainlinkReport_eq_ok⟩

/-- The largest price of a report that can be narrowed keeps no decimals. -/
example : (fromChainlinkReport ⟨0, (true, 5), (true, 5),
    (true, ⟨(2 ^ 128 - 1) * 10 ^ 18, by decide⟩)⟩).toOption.map
      (fun price => (price.decimals, price.maxPrice.val)) =
    some (0, 2 ^ 128 - 1) := by
  decide +kernel

end Narrowing

end Gmsol.Oracle
