import Gmsol.Library.Potential
import Gmsol.Model.Pool

/-!
# Price impact over sequences of deltas

With an exponent of whole units the price impact is a difference of floored powers of the
imbalance.  The floored power with the negative factor is a potential: no delta gains more
than this potential falls, except for one unit when it rebalances on the same side.
-/

namespace Gmsol.Model

open Gmsol.Fallible Gmsol.Potential

section Impact

variable [MarketNum]

/-! ## Powers of whole units -/

/-- The repeated multiplication without its range checks. -/
def flooredPower (base : ℕ) : ℕ → ℕ
  | 0 => unit
  | count + 1 => flooredPower base count * base / unit

theorem powUnits_eq_some {base count result : ℕ}
    (hpower : powUnits base count = some result) : result = flooredPower base count := by
  induction count generalizing result with
  | zero => exact (Option.some.inj hpower).symm
  | succ count ih =>
      simp only [powUnits, option_bind_eq_some, checkedMulDiv_eq_some] at hpower
      obtain ⟨power, hpower, _, _, rfl⟩ := hpower
      rw [ih hpower, flooredPower]

theorem flooredPower_unit (count : ℕ) : flooredPower unit count = unit := by
  induction count with
  | zero => rfl
  | succ count ih => rw [flooredPower, ih, Nat.mul_div_cancel _ unit_pos]

theorem flooredPower_mono {low high : ℕ} (hle : low ≤ high) (count : ℕ) :
    flooredPower low count ≤ flooredPower high count := by
  induction count with
  | zero => exact le_rfl
  | succ count ih => exact Nat.div_le_div_right (Nat.mul_le_mul ih hle)

namespace PriceImpactParams

/-- `A * x ^ E` without its range checks. -/
def impactOf (params : PriceImpactParams) (factor value : ℕ) : ℕ :=
  (if value < unit then 0 else flooredPower value (params.exponent / unit)) * factor / unit

variable {params : PriceImpactParams}

theorem applyFactors_eq_ok {factor value result : ℕ}
    (hexponent : params.exponent % unit = 0)
    (happly : applyFactors value factor params.exponent = .ok result) :
    result = params.impactOf factor value := by
  simp only [applyFactors, bind_eq_ok, okOr_eq_ok, checkedMulDiv_eq_some] at happly
  obtain ⟨power, hpower, _, _, rfl⟩ := happly
  suffices hpowers : power =
      if value < unit then 0 else flooredPower value (params.exponent / unit) by
    rw [impactOf, hpowers]
  unfold applyExponentFactor at hpower
  split_ifs at hpower ⊢ with hsmall hone hzero hlinear
  · exact (Option.some.inj hpower).symm
  · rw [hone, flooredPower_unit]
    exact (Option.some.inj hpower).symm
  · rw [hzero, Nat.zero_div]
    exact (Option.some.inj hpower).symm
  · rw [hlinear, Nat.div_self unit_pos, flooredPower, flooredPower,
      Nat.mul_div_cancel_left _ unit_pos]
    exact (Option.some.inj hpower).symm
  · rw [checkedPowFixed, if_pos hexponent] at hpower
    exact powUnits_eq_some hpower

variable (params)

theorem impactOf_mono (factor : ℕ) {low high : ℕ} (hle : low ≤ high) :
    params.impactOf factor low ≤ params.impactOf factor high := by
  apply Nat.div_le_div_right
  apply Nat.mul_le_mul_right
  split_ifs with hlow hhigh hhigh
  · exact le_rfl
  · exact Nat.zero_le _
  · omega
  · exact flooredPower_mono hle _

omit [MarketNum] in
/-- Scaling by a larger factor spreads two values further, up to one rounding. -/
theorem scaled_spread {low high small large divisor : ℕ} (hvalues : low ≤ high)
    (hfactors : small ≤ large) :
    high * small / divisor + low * large / divisor ≤
      high * large / divisor + low * small / divisor + 1 := by
  obtain ⟨spread, rfl⟩ := Nat.exists_eq_add_of_le hvalues
  rcases Nat.eq_zero_or_pos divisor with rfl | hpos
  · simp
  have hsmall : (low + spread) * small / divisor ≤
      low * small / divisor + spread * small / divisor + 1 := by
    rw [Nat.add_mul, Nat.add_div hpos]
    split_ifs <;> omega
  have hlarge : low * large / divisor + spread * large / divisor ≤
      (low + spread) * large / divisor := by
    rw [Nat.add_mul]
    exact Nat.div_add_div_le_add_div
  have hspread : spread * small / divisor ≤ spread * large / divisor :=
    Nat.div_le_div_right (Nat.mul_le_mul_left spread hfactors)
  omega

theorem impactOf_spread {low high small large : ℕ} (hvalues : low ≤ high)
    (hfactors : small ≤ large) :
    params.impactOf small high + params.impactOf large low ≤
      params.impactOf large high + params.impactOf small low + 1 := by
  apply scaled_spread _ hfactors
  split_ifs with hlow hhigh hhigh
  · exact le_rfl
  · exact Nat.zero_le _
  · omega
  · exact flooredPower_mono hvalues _

theorem impactOf_mono_factor {small large : ℕ} (hfactors : small ≤ large) (value : ℕ) :
    params.impactOf small value ≤ params.impactOf large value :=
  Nat.div_le_div_right (Nat.mul_le_mul_left _ hfactors)

omit [MarketNum] in
theorem adjustedFactors_le :
    params.adjustedFactors.1 ≤ params.adjustedFactors.2 := by
  unfold adjustedFactors
  split_ifs with hlarger
  · exact le_rfl
  · exact Nat.le_of_not_lt hlarger

omit [MarketNum] in
theorem adjustedFactors_eq {params : PriceImpactParams}
    (hfactors : params.negativeFactor ≤ params.positiveFactor) :
    params.adjustedFactors.1 = params.adjustedFactors.2 := by
  unfold adjustedFactors
  split_ifs with hlarger
  · rfl
  · exact Nat.le_antisymm (Nat.le_of_not_lt hlarger) hfactors

/-- The potential of an imbalance: its power scaled by the negative factor. -/
def potential (value : PoolValue) : ℤ :=
  params.impactOf params.adjustedFactors.2 value.diffValue

end PriceImpactParams

/-! ## One delta -/

namespace PoolDelta

variable {delta : PoolDelta} {params : PriceImpactParams} {impact : ℤ}

/-- A change of the imbalance on the same side is scaled by one of the factors. -/
theorem priceImpactForSameSideRebalance_eq_ok (hexponent : params.exponent % unit = 0)
    (himpact : delta.priceImpactForSameSideRebalance params = .ok impact) :
    impact =
      params.impactOf (if delta.next.diffValue < delta.current.diffValue then
          params.adjustedFactors.1 else params.adjustedFactors.2)
        delta.current.diffValue -
      params.impactOf (if delta.next.diffValue < delta.current.diffValue then
          params.adjustedFactors.1 else params.adjustedFactors.2)
        delta.next.diffValue := by
  simp only [priceImpactForSameSideRebalance, bind_eq_ok, toSigned_eq_ok,
    decide_eq_true_eq] at himpact
  obtain ⟨initial, hinitial, next, hnext, _, ⟨_, rfl⟩, himpact⟩ := himpact
  rw [← PriceImpactParams.applyFactors_eq_ok hexponent hinitial,
    ← PriceImpactParams.applyFactors_eq_ok hexponent hnext]
  have hinitialEq := PriceImpactParams.applyFactors_eq_ok hexponent hinitial
  have hnextEq := PriceImpactParams.applyFactors_eq_ok hexponent hnext
  by_cases hpositive : delta.next.diffValue < delta.current.diffValue
  · rw [if_pos hpositive] at himpact
    have hle : next ≤ initial := by
      rw [hinitialEq, hnextEq]
      exact params.impactOf_mono _ hpositive.le
    rw [← Except.ok.inj himpact, natCast_diff_of_le hle]
  · rw [if_neg hpositive, okOr_eq_ok, signedNeg_eq_some] at himpact
    have hle : initial ≤ next := by
      rw [hinitialEq, hnextEq]
      exact params.impactOf_mono _ (Nat.le_of_not_lt hpositive)
    rw [← himpact.2, diff]
    omega

theorem priceImpactForCrossOverRebalance_eq_ok (hexponent : params.exponent % unit = 0)
    (himpact : delta.priceImpactForCrossOverRebalance params = .ok impact) :
    impact = params.impactOf params.adjustedFactors.1 delta.current.diffValue -
      params.potential delta.next := by
  simp only [priceImpactForCrossOverRebalance, bind_eq_ok, toSigned_eq_ok] at himpact
  obtain ⟨positive, hpositive, negative, hnegative, _, ⟨_, rfl⟩, himpact⟩ := himpact
  rw [PriceImpactParams.potential,
    ← PriceImpactParams.applyFactors_eq_ok hexponent hpositive,
    ← PriceImpactParams.applyFactors_eq_ok hexponent hnegative]
  split at himpact
  · rename_i hlarger
    rw [← Except.ok.inj himpact, natCast_diff_of_le (Nat.le_of_lt hlarger)]
  · rename_i hsmaller
    rw [okOr_eq_ok, signedNeg_eq_some] at himpact
    rw [← himpact.2, diff]
    omega

/-- A same-side move that does not raise the imbalance is scaled by the positive
factor. -/
theorem priceImpact_of_falls (hexponent : params.exponent % unit = 0)
    (hside : delta.isSameSideRebalance = true)
    (hfalls : delta.next.diffValue ≤ delta.current.diffValue)
    (himpact : delta.priceImpact params = .ok impact) :
    impact = params.impactOf params.adjustedFactors.1 delta.current.diffValue -
      params.impactOf params.adjustedFactors.1 delta.next.diffValue := by
  rw [priceImpact, if_pos hside] at himpact
  have hsame := priceImpactForSameSideRebalance_eq_ok hexponent himpact
  by_cases hstrict : delta.next.diffValue < delta.current.diffValue
  · simpa only [if_pos hstrict] using hsame
  · have heq : delta.next.diffValue = delta.current.diffValue := by omega
    rw [hsame, heq, sub_self, sub_self]

/-- A same-side move that does not lower the imbalance is scaled by the negative
factor. -/
theorem priceImpact_of_rises (hexponent : params.exponent % unit = 0)
    (hside : delta.isSameSideRebalance = true)
    (hrises : delta.current.diffValue ≤ delta.next.diffValue)
    (himpact : delta.priceImpact params = .ok impact) :
    impact = params.potential delta.current - params.potential delta.next := by
  rw [priceImpact, if_pos hside] at himpact
  have hsame := priceImpactForSameSideRebalance_eq_ok hexponent himpact
  simpa only [if_neg (Nat.not_lt.mpr hrises), PriceImpactParams.potential] using hsame

theorem priceImpact_of_crosses (hexponent : params.exponent % unit = 0)
    (hside : ¬delta.isSameSideRebalance = true)
    (himpact : delta.priceImpact params = .ok impact) :
    impact = params.impactOf params.adjustedFactors.1 delta.current.diffValue -
      params.potential delta.next := by
  rw [priceImpact, if_neg hside] at himpact
  exact priceImpactForCrossOverRebalance_eq_ok hexponent himpact

/-- A same-side rebalance with a positive impact. -/
def isSameSideGain (delta : PoolDelta) (impact : ℤ) : Bool :=
  delta.isSameSideRebalance && decide (0 < impact)

/-- No impact is more than what the potential falls, except for one unit. -/
theorem priceImpact_le (hexponent : params.exponent % unit = 0)
    (himpact : delta.priceImpact params = .ok impact) :
    impact ≤ params.potential delta.current - params.potential delta.next +
      if delta.isSameSideGain impact then 1 else 0 := by
  by_cases hside : delta.isSameSideRebalance = true
  · rcases Nat.le_total delta.next.diffValue delta.current.diffValue with hfalls | hrises
    · have heq := priceImpact_of_falls hexponent hside hfalls himpact
      by_cases hgain : 0 < impact
      · have hspread := params.impactOf_spread hfalls params.adjustedFactors_le
        rw [if_pos (by simp [isSameSideGain, hside, hgain]), heq]
        simp only [PriceImpactParams.potential]
        omega
      · have hmono := params.impactOf_mono params.adjustedFactors.2 hfalls
        simp only [PriceImpactParams.potential]
        split_ifs <;> omega
    · rw [priceImpact_of_rises hexponent hside hrises himpact]
      split_ifs <;> omega
  · have hfactor := params.impactOf_mono_factor params.adjustedFactors_le
      delta.current.diffValue
    rw [priceImpact_of_crosses hexponent hside himpact]
    simp only [PriceImpactParams.potential]
    split_ifs <;> omega

/-- With a positive factor as large as the negative one, every impact is what the
potential falls. -/
theorem priceImpact_eq (hexponent : params.exponent % unit = 0)
    (hfactors : params.negativeFactor ≤ params.positiveFactor)
    (himpact : delta.priceImpact params = .ok impact) :
    impact = params.potential delta.current - params.potential delta.next := by
  have hequal := PriceImpactParams.adjustedFactors_eq hfactors
  by_cases hside : delta.isSameSideRebalance = true
  · rcases Nat.le_total delta.next.diffValue delta.current.diffValue with hfalls | hrises
    · rw [priceImpact_of_falls hexponent hside hfalls himpact, hequal]
      rfl
    · exact priceImpact_of_rises hexponent hside hrises himpact
  · rw [priceImpact_of_crosses hexponent hside himpact, hequal]
    rfl

/-! ## Sequences of deltas -/

/-- Each delta starts where the one before it has ended. -/
def Connects (deltas : List PoolDelta) (start finish : PoolValue) : Prop :=
  Leads PoolDelta.current PoolDelta.next deltas start finish

/-- The impacts of a sequence of deltas. -/
def priceImpacts (deltas : List PoolDelta) (params : PriceImpactParams) :
    Result (List ℤ) :=
  deltas.mapM fun delta => delta.priceImpact params

/-- The number of same-side rebalances with a positive impact. -/
def sameSideGains (deltas : List PoolDelta) (impacts : List ℤ) : ℕ :=
  (deltas.zip impacts).countP fun pair => pair.1.isSameSideGain pair.2

/-- The deltas split a move on the same side into moves in the same direction. -/
structure Splits (deltas : List PoolDelta) (delta : PoolDelta) : Prop where
  connects : Connects deltas delta.current delta.next
  isSameSide : delta.isSameSideRebalance = true
  sameSide : ∀ step ∈ deltas, step.isSameSideRebalance = true
  sameDirection :
    (∀ step ∈ deltas, step.next.diffValue ≤ step.current.diffValue) ∨
      ∀ step ∈ deltas, step.current.diffValue ≤ step.next.diffValue

section Sequences

variable {deltas : List PoolDelta} {impacts : List ℤ}

/-- What is known of every impact of a sequence. -/
theorem forall₂_of_priceImpacts {holds : PoolDelta → ℤ → Prop}
    (himpacts : priceImpacts deltas params = .ok impacts)
    (hall : ∀ step ∈ deltas, ∀ impact, step.priceImpact params = .ok impact →
      holds step impact) :
    List.Forall₂ holds deltas impacts := by
  have hresults := forall₂_of_mapM_eq_ok himpacts
  rw [List.forall₂_iff_zip] at hresults ⊢
  obtain ⟨hlength, hzip⟩ := hresults
  refine ⟨hlength, fun hmem => ?_⟩
  exact hall _ (List.of_mem_zip hmem).1 _ (hzip hmem)

/-- A cycle gains at most one unit for each same-side rebalance with a positive
impact. -/
theorem sum_priceImpacts_le (hexponent : params.exponent % unit = 0) {value : PoolValue}
    (hcycle : Connects deltas value value)
    (himpacts : priceImpacts deltas params = .ok impacts) :
    impacts.sum ≤ sameSideGains deltas impacts := by
  have hsum := Leads.sum_le params.potential hcycle (forall₂_of_priceImpacts himpacts
    fun step _ impact himpact => priceImpact_le hexponent himpact)
  rwa [sub_self, zero_add] at hsum

theorem sum_priceImpacts_eq_zero (hexponent : params.exponent % unit = 0)
    (hfactors : params.negativeFactor ≤ params.positiveFactor) {value : PoolValue}
    (hcycle : Connects deltas value value)
    (himpacts : priceImpacts deltas params = .ok impacts) :
    impacts.sum = 0 := by
  have hsum := Leads.sum_eq params.potential hcycle (forall₂_of_priceImpacts himpacts
    fun step _ impact himpact => priceImpact_eq hexponent hfactors himpact)
  rwa [sub_self] at hsum

/-- Splitting a move does not change its impact. -/
theorem Splits.sum_priceImpacts (hsplits : Splits deltas delta)
    (hexponent : params.exponent % unit = 0)
    (himpact : delta.priceImpact params = .ok impact)
    (himpacts : priceImpacts deltas params = .ok impacts) :
    impacts.sum = impact := by
  rcases hsplits.sameDirection with hfalls | hrises
  · have htotal : delta.next.diffValue ≤ delta.current.diffValue :=
      Leads.trans_rel (fun first second => second.diffValue ≤ first.diffValue)
        (fun _ => le_rfl) (fun _ _ _ hfirst hsecond => hsecond.trans hfirst)
        hsplits.connects hfalls
    rw [priceImpact_of_falls hexponent hsplits.isSameSide htotal himpact]
    exact Leads.sum_eq (fun value => (params.impactOf params.adjustedFactors.1
        value.diffValue : ℤ)) hsplits.connects
      (forall₂_of_priceImpacts himpacts fun step hmem _ hstep =>
        priceImpact_of_falls hexponent (hsplits.sameSide step hmem) (hfalls step hmem)
          hstep)
  · have htotal : delta.current.diffValue ≤ delta.next.diffValue :=
      Leads.trans_rel (fun first second => first.diffValue ≤ second.diffValue)
        (fun _ => le_rfl) (fun _ _ _ hfirst hsecond => hfirst.trans hsecond)
        hsplits.connects hrises
    rw [priceImpact_of_rises hexponent hsplits.isSameSide htotal himpact]
    exact Leads.sum_eq params.potential hsplits.connects
      (forall₂_of_priceImpacts himpacts fun step hmem _ hstep =>
        priceImpact_of_rises hexponent (hsplits.sameSide step hmem) (hrises step hmem)
          hstep)

end Sequences

/-- With an exponent of whole units no cycle of deltas gains more than one unit for each
same-side rebalance with a positive impact, none gains anything when the positive factor
is as large as the negative one, and splitting a same-side move changes nothing. -/
theorem priceImpacts_noFreeLunch (params : PriceImpactParams)
    (hexponent : params.exponent % unit = 0) :
    (∀ deltas impacts value, Connects deltas value value →
      priceImpacts deltas params = .ok impacts →
        impacts.sum ≤ sameSideGains deltas impacts ∧
          (params.negativeFactor ≤ params.positiveFactor → impacts.sum = 0)) ∧
      ∀ delta deltas impact impacts, Splits deltas delta →
        delta.priceImpact params = .ok impact →
          priceImpacts deltas params = .ok impacts → impacts.sum = impact := by
  constructor
  · intro deltas impacts value hcycle himpacts
    exact ⟨sum_priceImpacts_le hexponent hcycle himpacts,
      fun hfactors => sum_priceImpacts_eq_zero hexponent hfactors hcycle himpacts⟩
  · intro delta deltas impact impacts hsplits himpact himpacts
    exact hsplits.sum_priceImpacts hexponent himpact himpacts

end PoolDelta

end Impact

namespace PoolDelta

section Store

attribute [local instance] storeNumbers

/-- A quadratic impact whose positive factor is below the negative one. -/
def squareImpact : PriceImpactParams := ⟨2 * 10 ^ 20, 3, 5⟩

/-- A move between two imbalances of the short side, in units. -/
def shortMove (first second : ℕ) : PoolDelta :=
  ⟨⟨0, first * 10 ^ 20⟩, ⟨0, second * 10 ^ 20⟩, 0, ((second : ℤ) - first) * 10 ^ 20⟩

/-- Three units of imbalance are taken off in two moves, which is a split of one move, and
come back. -/
theorem priceImpacts_noFreeLunch_square :
    ∃ gains total cycle,
      Splits [shortMove 3 2, shortMove 2 0] (shortMove 3 0) ∧
      priceImpacts [shortMove 3 2, shortMove 2 0] squareImpact = .ok gains ∧
      (shortMove 3 0).priceImpact squareImpact = .ok total ∧ gains.sum = total ∧
      Connects [shortMove 3 2, shortMove 2 0, shortMove 0 3] ⟨0, 3 * 10 ^ 20⟩
        ⟨0, 3 * 10 ^ 20⟩ ∧
      priceImpacts [shortMove 3 2, shortMove 2 0, shortMove 0 3] squareImpact =
        .ok cycle ∧
      cycle.sum ≤
        sameSideGains [shortMove 3 2, shortMove 2 0, shortMove 0 3] cycle := by
  obtain ⟨hcycles, hsplit⟩ := priceImpacts_noFreeLunch squareImpact (by decide)
  obtain ⟨gains, hgains⟩ : ∃ gains,
      priceImpacts [shortMove 3 2, shortMove 2 0] squareImpact = .ok gains :=
    exists_of_isOk (by decide +kernel)
  obtain ⟨total, htotal⟩ : ∃ total,
      (shortMove 3 0).priceImpact squareImpact = .ok total :=
    exists_of_isOk (by decide +kernel)
  obtain ⟨cycle, hcycle⟩ : ∃ cycle, priceImpacts
      [shortMove 3 2, shortMove 2 0, shortMove 0 3] squareImpact = .ok cycle :=
    exists_of_isOk (by decide +kernel)
  have hsplits : Splits [shortMove 3 2, shortMove 2 0] (shortMove 3 0) :=
    ⟨⟨rfl, rfl, rfl⟩, by decide, by decide, .inl (by decide)⟩
  have hconnects : Connects [shortMove 3 2, shortMove 2 0, shortMove 0 3]
      ⟨0, 3 * 10 ^ 20⟩ ⟨0, 3 * 10 ^ 20⟩ := ⟨rfl, rfl, rfl, rfl⟩
  exact ⟨gains, total, cycle, hsplits, hgains, htotal,
    hsplit _ _ _ _ hsplits htotal hgains, hconnects, hcycle,
    (hcycles _ _ _ hconnects hcycle).1⟩

end Store

end PoolDelta

end Gmsol.Model
