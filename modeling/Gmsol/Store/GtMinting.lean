import Gmsol.Library.Run
import Gmsol.Store.Gt

/-!
# Minting GT

What a successful mint or burn does to the counters, and the price path of
minting: the cost is a function of the total that has been minted.
-/

namespace Gmsol.Store

open Gmsol.Fallible Gmsol.Model Gmsol.Mutation

/-! ## Ranks -/

/-- In a list whose first `count` elements are the ones with a property, `count`
elements have it. -/
theorem countP_eq_of_prefix {α : Type} (holds : α → Bool) (list : List α)
    (count : ℕ) (hcount : count ≤ list.length)
    (hinitial : ∀ index (h : index < list.length),
      holds list[index] = true ↔ index < count) : list.countP holds = count := by
  have htake : (list.take count).countP holds = count := by
    rw [List.countP_eq_length.mpr, List.length_take, min_eq_left hcount]
    intro element hmem
    obtain ⟨index, hindex, rfl⟩ := List.mem_iff_getElem.mp hmem
    rw [List.length_take, min_eq_left hcount] at hindex
    rw [List.getElem_take]
    exact (hinitial index (by omega)).mpr hindex
  have hdrop : (list.drop count).countP holds = 0 := by
    rw [List.countP_eq_zero]
    intro element hmem
    obtain ⟨index, hindex, rfl⟩ := List.mem_iff_getElem.mp hmem
    rw [List.getElem_drop]
    intro hholds
    have := (hinitial (count + index) _).mp hholds
    omega
  rw [← List.take_append_drop count list, List.countP_append, htake, hdrop,
    Nat.add_zero]

/-- The number of thresholds that an amount reaches. -/
def GtState.thresholdsReached (gt : GtState) (amount : ℕ) : ℕ :=
  gt.ranks.countP (· ≤ amount)

/-- The thresholds increase strictly, as they do after initialisation. -/
def GtState.Ranked (gt : GtState) : Prop := gt.ranks.SortedLT

theorem GtState.compareRank_eq (gt : GtState) (amount : ℕ) {index : ℕ}
    (hindex : index < gt.ranks.length) :
    gt.compareRank amount index = cmp gt.ranks[index] amount := by
  simp [GtState.compareRank, hindex]

theorem GtState.sortedBy {gt : GtState} (hranked : gt.Ranked) (amount : ℕ) :
    SortedBy (gt.compareRank amount) gt.ranks.length := by
  have hle : ∀ {first second : ℕ} (hsecond : second < gt.ranks.length)
      (hle : first ≤ second), gt.ranks[first] ≤ gt.ranks[second] := by
    intro first second hsecond hle
    exact hranked.strictMono_get.monotone
      (show (⟨first, by omega⟩ : Fin _) ≤ ⟨second, hsecond⟩ from hle)
  constructor
  · intro first second hfirst hsecond hlt
    rw [gt.compareRank_eq amount hsecond, cmp_eq_lt_iff] at hlt
    rw [gt.compareRank_eq amount (by omega), cmp_eq_lt_iff]
    exact (hle hsecond hfirst).trans_lt hlt
  · intro first second hfirst hsecond hgt
    rw [gt.compareRank_eq amount (by omega), cmp_eq_gt_iff] at hgt
    rw [gt.compareRank_eq amount hsecond, cmp_eq_gt_iff]
    exact hgt.trans_le (hle hsecond hfirst)

theorem GtState.rankOf_eq {gt : GtState} (hranked : gt.Ranked) (amount : ℕ) :
    gt.rankOf amount = gt.thresholdsReached amount := by
  have hspec := binarySearchBy_spec (gt.sortedBy hranked amount)
  symm
  unfold rankOf thresholdsReached
  cases hresult : binarySearchBy (gt.compareRank amount) gt.ranks.length with
  | ok rank =>
      rw [hresult] at hspec
      obtain ⟨hrank, heq⟩ := hspec
      rw [gt.compareRank_eq amount hrank, cmp_eq_eq_iff] at heq
      apply countP_eq_of_prefix _ _ _ hrank
      intro index hindex
      rw [decide_eq_true_iff, ← heq, Nat.lt_succ_iff]
      exact hranked.strictMono_get.le_iff_le
        (a := ⟨index, hindex⟩) (b := ⟨rank, hrank⟩)
  | error rank =>
      rw [hresult] at hspec
      obtain ⟨hrank, hbelow, habove⟩ := hspec
      apply countP_eq_of_prefix _ _ _ hrank
      intro index hindex
      rw [decide_eq_true_iff]
      constructor
      · intro hreached
        by_contra hge
        have hgt := habove index (by omega) hindex
        rw [gt.compareRank_eq amount hindex, cmp_eq_gt_iff] at hgt
        omega
      · intro hlt
        have hbelow := hbelow index hlt
        rw [gt.compareRank_eq amount hindex, cmp_eq_lt_iff] at hbelow
        exact hbelow.le

theorem GtState.thresholdsReached_le (gt : GtState) (amount : ℕ) :
    gt.thresholdsReached amount ≤ gt.maxRank :=
  List.countP_le_length

/-! ## The price path -/

section Minting

variable [MarketNum]

/-- The next minting cost: the cost times the grow factor, rounded down. -/
def growOnce (growFactor mintingCost : ℕ) : ℕ :=
  mintingCost * growFactor / unit

theorem growMintingCost_eq_some {growFactor steps mintingCost result : ℕ}
    (hgrow : growMintingCost growFactor steps mintingCost = some result) :
    result = (growOnce growFactor)^[steps] mintingCost := by
  induction steps generalizing mintingCost with
  | zero => exact (Option.some.inj hgrow).symm
  | succ steps ih =>
      obtain ⟨next, hnext, hrest⟩ := option_bind_eq_some.mp hgrow
      have hvalue : next = growOnce growFactor mintingCost := by
        rw [applyFactor, checkedMulDiv, if_neg unit_pos.ne', narrow] at hnext
        split_ifs at hnext
        exact (Option.some.inj hnext).symm
      rw [Function.iterate_succ_apply, ← hvalue]
      exact ih hrest

/-- The steps are the whole multiples of the step amount below the total, and
the cost has grown once for each of them. -/
structure HasGrown (initialMintingCost : ℕ) (gt : GtState) : Prop where
  growSteps : gt.growSteps = gt.totalMinted / gt.growStepAmount
  mintingCost : gt.mintingCost =
    (growOnce gt.mintingCostGrowFactor)^[gt.growSteps] initialMintingCost

/-- What changes in the GT state when `amount` is minted. -/
structure GtState.Minted (amount : ℕ) (before after : GtState) : Prop where
  totalMinted : after.totalMinted = before.totalMinted + amount
  supply : after.supply = before.supply + amount
  gtVault : after.gtVault = before.gtVault
  ranks : after.ranks = before.ranks
  growStepAmount : after.growStepAmount = before.growStepAmount
  growFactor : after.mintingCostGrowFactor = before.mintingCostGrowFactor
  discounts : after.orderFeeDiscountFactors = before.orderFeeDiscountFactors
  rewards : after.referralRewardFactors = before.referralRewardFactors
  hasGrown : ∀ initialMintingCost,
    HasGrown initialMintingCost before → HasGrown initialMintingCost after

/-- The rank of a user whose balance moved is the rank of the new balance. -/
structure UserHeader.Holds (gt : GtState) (balance : ℕ)
    (before after : UserHeader) : Prop where
  isInitialized : after.isInitialized = before.isInitialized
  amount : after.gt.amount = balance
  rank : before.gt.amount ≠ balance → after.gt.rank = gt.rankOf balance
  unchanged : before.gt.amount = balance → after = before

omit [MarketNum] in
@[simp]
theorem GtAccounts.uncheckedUpdateRank_gt (accounts : GtAccounts) :
    accounts.uncheckedUpdateRank.gt = accounts.gt := by
  unfold uncheckedUpdateRank
  dsimp only
  split_ifs <;> rfl

omit [MarketNum] in
theorem GtAccounts.uncheckedUpdateRank_user (accounts : GtAccounts) :
    accounts.uncheckedUpdateRank.user.isInitialized =
        accounts.user.isInitialized ∧
      accounts.uncheckedUpdateRank.user.gt.amount = accounts.user.gt.amount ∧
      accounts.uncheckedUpdateRank.user.gt.rank =
        accounts.gt.rankOf accounts.user.gt.amount := by
  unfold uncheckedUpdateRank
  by_cases hrank :
      accounts.user.gt.rank = accounts.gt.rankOf accounts.user.gt.amount
  · simp [hrank]
  · simp [hrank]

omit [MarketNum] in
theorem checkedAddU64_eq_ok {left right result : ℕ} :
    checkedAddU64 left right = .ok result ↔
      left + right ≤ maxU64 ∧ result = left + right := by
  unfold checkedAddU64
  split_ifs with hle
  · simp [hle, eq_comm]
  · simp [hle]

omit [MarketNum] in
theorem checkedSubU64_eq_ok {left right result : ℕ} {failure : CoreError} :
    checkedSubU64 left right failure = .ok result ↔
      right ≤ left ∧ result = left - right := by
  unfold checkedSubU64
  split_ifs with hle
  · simp [hle, eq_comm]
  · simp [hle]

/-- The growth that a mint computes takes the cost along its path. -/
theorem GtState.hasGrown_next {gt : GtState} {initialMintingCost nextMinted : ℕ}
    {next : Option (ℕ × ℕ)} (hgrown : HasGrown initialMintingCost gt)
    (hmore : gt.totalMinted ≤ nextMinted)
    (hnext : gt.nextMintingCost nextMinted = .ok next) :
    let grown := next.getD (gt.growSteps, gt.mintingCost)
    grown.1 = nextMinted / gt.growStepAmount ∧
      grown.2 = (growOnce gt.mintingCostGrowFactor)^[grown.1]
        initialMintingCost := by
  simp only [GtState.nextMintingCost, Fallible.bind_eq_ok, ensure_eq_ok] at hnext
  obtain ⟨-, -, hnext⟩ := hnext
  split_ifs at hnext with hsteps
  · obtain ⟨cost, hcost, hdone⟩ := Fallible.bind_eq_ok.mp hnext
    obtain rfl := Except.ok.inj hdone
    refine ⟨rfl, ?_⟩
    have hle : gt.growSteps ≤ nextMinted / gt.growStepAmount := by
      rw [hgrown.growSteps]
      exact Nat.div_le_div_right hmore
    rw [growMintingCost_eq_some (okOr_eq_ok.mp hcost), hgrown.mintingCost,
      ← Function.iterate_add_apply, Option.getD_some, Nat.sub_add_cancel hle]
  · obtain rfl := Except.ok.inj hnext
    exact ⟨(not_not.mp hsteps).symm, hgrown.mintingCost⟩

theorem mintTo_spec {now : ℤ} {amount : ℕ} {before after : GtAccounts}
    (hmint : mintTo now amount before = .ok () after) :
    before.gt.Minted amount after.gt ∧
      UserHeader.Holds after.gt (before.user.gt.amount + amount) before.user
        after.user := by
  unfold mintTo at hmint
  by_cases hamount : amount = 0
  · rw [if_neg (not_not_intro hamount)] at hmint
    obtain ⟨-, rfl⟩ := EStateM.Result.ok.inj hmint
    subst hamount
    exact ⟨⟨rfl, rfl, rfl, rfl, rfl, rfl, rfl, rfl, fun _ hgrown => hgrown⟩,
      ⟨rfl, rfl, fun hne => absurd rfl hne, fun _ => rfl⟩⟩
  · rw [if_pos hamount] at hmint
    simp only [Mutation.bind_eq_ok, lift_eq_ok, checkedAddU64_eq_ok] at hmint
    obtain ⟨accounts, _, hget, total, _, ⟨⟨-, rfl⟩, rfl⟩, next, _, ⟨hnext, rfl⟩,
      userTotal, _, ⟨⟨-, rfl⟩, rfl⟩, userAmount, _, ⟨⟨-, rfl⟩, rfl⟩, supply, _,
      ⟨⟨-, rfl⟩, rfl⟩, _, recorded, hrecord, hrank⟩ := hmint
    obtain ⟨rfl, rfl⟩ := EStateM.Result.ok.inj hget
    obtain ⟨-, rfl⟩ := EStateM.Result.ok.inj hrecord
    obtain ⟨-, rfl⟩ := EStateM.Result.ok.inj hrank
    refine ⟨?_, ?_⟩
    · rw [GtAccounts.uncheckedUpdateRank_gt]
      cases next with
      | none =>
          refine ⟨rfl, rfl, rfl, rfl, rfl, rfl, rfl, rfl, fun initial hgrown => ?_⟩
          obtain ⟨hsteps, hcost⟩ :=
            GtState.hasGrown_next hgrown (Nat.le_add_right _ amount) hnext
          exact ⟨hsteps, hcost⟩
      | some grown =>
          refine ⟨rfl, rfl, rfl, rfl, rfl, rfl, rfl, rfl, fun initial hgrown => ?_⟩
          obtain ⟨hsteps, hcost⟩ :=
            GtState.hasGrown_next hgrown (Nat.le_add_right _ amount) hnext
          exact ⟨hsteps, hcost⟩
    · obtain ⟨hinitialized, hbalance, hrank⟩ :=
        GtAccounts.uncheckedUpdateRank_user (before.recordMint now next
          (before.gt.totalMinted + amount) (before.user.gt.totalMinted + amount)
          (before.user.gt.amount + amount) (before.gt.supply + amount))
      refine ⟨hinitialized, hbalance, fun _ => ?_, fun hsame => ?_⟩
      · rw [GtAccounts.uncheckedUpdateRank_gt]
        exact hrank
      · omega

/-- A mint that fails has not changed anything yet. -/
theorem mintTo_keepsOnError (now : ℤ) (amount : ℕ) :
    KeepsOnError (mintTo now amount) := by
  unfold mintTo
  by_cases hamount : amount = 0
  · rw [if_neg (not_not_intro hamount)]
    exact (infallible_pure ()).keepsOnError
  · rw [if_pos hamount]
    apply readOnly_get.bind
    intro accounts
    apply (readOnly_lift _).bind
    intro nextGtTotalMinted
    apply (readOnly_lift _).bind
    intro nextMintingCost
    apply (readOnly_lift _).bind
    intro nextUserTotalMinted
    apply (readOnly_lift _).bind
    intro nextAmount
    apply (readOnly_lift _).bind
    intro nextSupply
    apply Infallible.keepsOnError
    exact (infallible_modify _).bind fun _ => infallible_modify _

end Minting

/-! ## Burning -/

theorem uncheckedBurnFrom_spec {amount : ℕ} {before after : GtAccounts}
    (hburn : uncheckedBurnFrom amount before = .ok () after) :
    amount ≤ before.user.gt.amount ∧ amount ≤ before.gt.supply ∧
      after.gt = { before.gt with supply := before.gt.supply - amount } ∧
      UserHeader.Holds after.gt (before.user.gt.amount - amount) before.user
        after.user := by
  unfold uncheckedBurnFrom at hburn
  by_cases hamount : amount = 0
  · rw [if_neg (not_not_intro hamount)] at hburn
    obtain ⟨-, rfl⟩ := EStateM.Result.ok.inj hburn
    subst hamount
    exact ⟨Nat.zero_le _, Nat.zero_le _, rfl, rfl, rfl,
      fun hne => absurd rfl hne, fun _ => rfl⟩
  · rw [if_pos hamount] at hburn
    simp only [Mutation.bind_eq_ok, lift_eq_ok, checkedSubU64_eq_ok,
      ensure_eq_ok] at hburn
    obtain ⟨accounts, _, hget, _, _, ⟨-, rfl⟩, rest, _,
      ⟨⟨henough, rfl⟩, rfl⟩, supply, _, ⟨⟨hsupply, rfl⟩, rfl⟩, _, recorded,
      hrecord, hrank⟩ := hburn
    obtain ⟨rfl, rfl⟩ := EStateM.Result.ok.inj hget
    obtain ⟨-, rfl⟩ := EStateM.Result.ok.inj hrecord
    obtain ⟨-, rfl⟩ := EStateM.Result.ok.inj hrank
    obtain ⟨hinitialized, hbalance, hrank⟩ :=
      GtAccounts.uncheckedUpdateRank_user (before.recordBurn
        (before.user.gt.amount - amount) (before.gt.supply - amount))
    refine ⟨henough, hsupply, ?_, hinitialized, hbalance, fun _ => ?_, ?_⟩
    · rw [GtAccounts.uncheckedUpdateRank_gt]
      rfl
    · rw [GtAccounts.uncheckedUpdateRank_gt]
      exact hrank
    · intro hsame
      omega

end Gmsol.Store
