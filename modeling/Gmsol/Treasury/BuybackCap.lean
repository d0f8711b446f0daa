import Gmsol.Treasury.Buyback

/-!
# The cap of a buyback

When the exchanges of a vault are confirmed, the bank keeps only what the GT of
the vault may be bought back for.  The price of a buyback is capped by a part of
the value of the bank and the treasury, and by the minting cost; the rest of
the balances is left to the treasury.
-/

namespace Gmsol.Treasury

open Gmsol.Container Gmsol.Fallible Gmsol.FixedArray Gmsol.Model Gmsol.ProRata
  Gmsol.Store

section Cap

variable [MarketNum] {Token : Type} [LinearOrder Token] [Inhabited Token]

/-! ## Values -/

/-- The least price of the oracle for a token that is not synthetic, if any. -/
abbrev MinPrice (Token : Type) : Type := Token → Except BankError ℕ

/-- A token account of the treasury. -/
structure TreasuryVault (Token : Type) where
  mint : Token
  amount : ℕ

structure BuybackValue where
  gtBankValue : ℕ
  maxBuybackValue : ℕ

/-- A buyback never exceeds the value of the bank. -/
def BuybackValue.new (gtBankValue maxBuybackValue : ℕ) : BuybackValue where
  gtBankValue := gtBankValue
  maxBuybackValue := min gtBankValue maxBuybackValue

/-- Adds the value of an amount to a total. -/
def addValue (minPrice : MinPrice Token) (total : ℕ) (token : Token) (amount : ℕ) :
    Except BankError ℕ := do
  let price ← minPrice token
  let value ← okOr (checkedMul amount price) (.core .valueOverflow)
  if value ≠ 0 then okOr (checkedAdd total value) (.core .valueOverflow)
  else return total

def addBalanceValue (minPrice : MinPrice Token) (total : ℕ)
    (entry : Token × TokenBalance) : Except BankError ℕ :=
  if entry.2.amount = 0 then .ok total
  else addValue minPrice total entry.1 entry.2.amount

def GtBank.totalValue (bank : GtBank Token) (minPrice : MinPrice Token) :
    Except BankError ℕ :=
  bank.balances.entries.foldlM (addBalanceValue minPrice) 0

def addVaultValue (minPrice : MinPrice Token) (total : ℕ)
    (vault : TreasuryVault Token) : Except BankError ℕ :=
  addValue minPrice total vault.mint vault.amount

def treasuryValue (minPrice : MinPrice Token) (vaults : List (TreasuryVault Token)) :
    Except BankError ℕ :=
  vaults.foldlM (addVaultValue minPrice) 0

def getMaxBuybackValue (bank : GtBank Token) (minPrice : MinPrice Token)
    (vaults : List (TreasuryVault Token)) (buybackFactor : ℕ) :
    Except BankError BuybackValue := do
  let gtBankValue ← bank.totalValue minPrice
  let treasuryValue ← treasuryValue minPrice vaults
  let totalValue ← okOr (checkedAdd treasuryValue gtBankValue) (.core .valueOverflow)
  let maxBuybackValue ← okOr (applyFactor totalValue buybackFactor) (.core .valueOverflow)
  return .new gtBankValue maxBuybackValue

/-! ## Updating the balances -/

/-- Keeps in the bank what the GT of the vault may be bought back for. -/
def updateBalances (bank : GtBank Token) (minPrice : MinPrice Token)
    (vaults : List (TreasuryVault Token)) (buybackFactor mintingCost buybackAmount : ℕ) :
    Except BankError (GtBank Token) :=
  if buybackAmount = 0 then bank.recordAllTransferredOut
  else do
    let value ← getMaxBuybackValue bank minPrice vaults buybackFactor
    let estimatedBuybackPrice ←
      okOr (checkedDiv value.maxBuybackValue buybackAmount) (.core .internal)
    let buybackPrice := min estimatedBuybackPrice mintingCost
    let buybackValue ← okOr (checkedMul buybackAmount buybackPrice) (.core .valueOverflow)
    if buybackValue = 0 then bank.recordAllTransferredOut
    else bank.reserveBalances buybackValue value.gtBankValue

/-! ## What a total is -/

variable {minPrice : MinPrice Token} {entries : List (Token × TokenBalance)}
  {total result numerator denominator : ℕ}

/-- An entry has a price unless its balance is zero. -/
def Priced (minPrice : MinPrice Token) (entry : Token × TokenBalance) : Prop :=
  entry.2.amount ≠ 0 → ∃ price, minPrice entry.1 = .ok price

/-- The price of a token, zero when there is none. -/
def priceOr (minPrice : MinPrice Token) (token : Token) : ℕ :=
  (minPrice token).toOption.getD 0

def worth (minPrice : MinPrice Token) (entry : Token × TokenBalance) : ℕ :=
  entry.2.amount * priceOr minPrice entry.1

def totalWorth (minPrice : MinPrice Token) (entries : List (Token × TokenBalance)) : ℕ :=
  (entries.map (worth minPrice)).sum

omit [LinearOrder Token] [Inhabited Token] in
/-- Adding the value of an entry. -/
theorem addBalanceValue_eq_ok (hfits : total ≤ maxUnsigned)
    (entry : Token × TokenBalance) :
    addBalanceValue minPrice total entry = .ok result ↔
      Priced minPrice entry ∧ total + worth minPrice entry ≤ maxUnsigned ∧
        total + worth minPrice entry = result := by
  obtain ⟨token, ⟨amount⟩⟩ := entry
  by_cases hzero : amount = 0
  · simp [addBalanceValue, Priced, worth, hzero, hfits]
  cases hprice : minPrice token with
  | error error =>
      simp [addBalanceValue, addValue, Priced, hzero, hprice, bind, Except.bind]
  | ok price =>
      have hworth : worth minPrice (token, ⟨amount⟩) = amount * price := by
        simp [worth, priceOr, hprice, Except.toOption]
      have hpriced : Priced minPrice (token, ⟨amount⟩) := fun _ => ⟨price, hprice⟩
      simp only [addBalanceValue, addValue, hzero, ↓reduceIte, hprice, bind_eq_ok,
        Except.ok.injEq, okOr_eq_ok, checkedMul_eq_some, hworth, hpriced, true_and]
      constructor
      · rintro ⟨_, rfl, _, ⟨hvalue, rfl⟩, hadd⟩
        split_ifs at hadd with hnonzero
        · simpa only [okOr_eq_ok, checkedAdd_eq_some] using hadd
        · obtain rfl := pure_eq_ok.mp hadd
          rw [not_not.mp hnonzero]
          exact ⟨hfits, rfl⟩
      · rintro ⟨hsum, rfl⟩
        refine ⟨price, rfl, _, ⟨by omega, rfl⟩, ?_⟩
        split_ifs with hnonzero
        · exact okOr_eq_ok.mpr (checkedAdd_eq_some.mpr ⟨hsum, rfl⟩)
        · rw [not_not.mp hnonzero]
          rfl

omit [LinearOrder Token] [Inhabited Token] in
theorem foldlM_addBalanceValue_eq_ok (hfits : total ≤ maxUnsigned) :
    entries.foldlM (addBalanceValue minPrice) total = .ok result ↔
      (∀ entry ∈ entries, Priced minPrice entry) ∧
        total + totalWorth minPrice entries ≤ maxUnsigned ∧
        total + totalWorth minPrice entries = result := by
  induction entries generalizing total with
  | nil => simp [totalWorth, hfits, pure, Except.pure]
  | cons entry rest ih =>
      simp only [List.foldlM_cons, bind_eq_ok, addBalanceValue_eq_ok hfits,
        List.forall_mem_cons, totalWorth, List.map_cons, List.sum_cons]
      constructor
      · rintro ⟨next, ⟨hpriced, hnext, rfl⟩, hrest⟩
        obtain ⟨hrestPriced, hsum, rfl⟩ := (ih hnext).mp hrest
        exact ⟨⟨hpriced, hrestPriced⟩, by rwa [← Nat.add_assoc], by
          rw [totalWorth, Nat.add_assoc]⟩
      · rintro ⟨⟨hpriced, hrestPriced⟩, hsum, rfl⟩
        have hnext : total + worth minPrice entry ≤ maxUnsigned := by omega
        refine ⟨_, ⟨hpriced, hnext, rfl⟩, (ih hnext).mpr ⟨hrestPriced, ?_, ?_⟩⟩
        · rwa [totalWorth, Nat.add_assoc]
        · rw [totalWorth, Nat.add_assoc]

omit [LinearOrder Token] [Inhabited Token] in
/-- The total value of a bank is what its balances are worth. -/
theorem totalValue_eq_ok {bank : GtBank Token} :
    bank.totalValue minPrice = .ok result ↔
      (∀ entry ∈ bank.balances.entries, Priced minPrice entry) ∧
        totalWorth minPrice bank.balances.entries ≤ maxUnsigned ∧
        totalWorth minPrice bank.balances.entries = result := by
  rw [GtBank.totalValue, foldlM_addBalanceValue_eq_ok (Nat.zero_le maxUnsigned),
    Nat.zero_add]

/-! ## What is reserved -/

/-- The entries after each balance was reserved. -/
def reservedEntries (numerator denominator : ℕ) (entries : List (Token × TokenBalance)) :
    List (Token × TokenBalance) :=
  entries.map fun entry =>
    (entry.1, ⟨share entry.2.amount numerator denominator⟩)

omit [MarketNum] [LinearOrder Token] [Inhabited Token] in
theorem totalWorth_reservedEntries_le (hpos : 0 < denominator)
    (htotal : totalWorth minPrice entries = denominator) :
    totalWorth minPrice (reservedEntries numerator denominator entries) ≤ numerator := by
  have hworth := @worth_shares_le denominator numerator
    (entries.map fun entry => (entry.2.amount, priceOr minPrice entry.1)) hpos (by
      rw [List.map_map]
      exact htotal)
  rw [List.map_map] at hworth
  rw [totalWorth, reservedEntries, List.map_map]
  exact hworth

/-- A reserved balance passes its check. -/
theorem reserveBalance_eq_ok {balance : TokenBalance} (hle : numerator ≤ denominator)
    (hpos : 0 < denominator) (hfits : balance.amount ≤ maxU64) :
    GtBank.reserveBalance numerator denominator balance =
      .ok ⟨share balance.amount numerator denominator⟩ := by
  obtain ⟨amount⟩ := balance
  by_cases hzero : amount = 0
  · subst hzero
    rw [GtBank.reserveBalance, if_pos rfl, share_zero_balance]
  have hamount : amount ≤ maxU64 := hfits
  have hshare : share amount numerator denominator ≤ amount := share_le hle
  have hwide : maxU64 ≤ maxUnsigned := by
    have hbits := MarketNum.holds_u64
    exact Nat.sub_le_sub_right (Nat.pow_le_pow_right (by norm_num) hbits) 1
  simp only [share] at hshare ⊢
  have hdiv : checkedMulDiv amount numerator denominator =
      some (amount * numerator / denominator) :=
    checkedMulDiv_eq_some.mpr ⟨hpos.ne', by omega, rfl⟩
  have hinto : tryIntoU64 (amount * numerator / denominator) =
      some (amount * numerator / denominator) := if_pos (by omega)
  simp only [GtBank.reserveBalance, hzero, ↓reduceIte, bind_eq_ok, okOr_eq_ok, ensure_eq_ok,
    pure_eq_ok, hdiv, Option.bind_some, hinto, Option.some.injEq]
  exact ⟨_, rfl, (), hshare, rfl⟩

/-! ## The entries of a bank -/

section Entries

variable {N : ℕ} {K V : Type}

omit [MarketNum] in
theorem getElem?_entries (map : FixedMap N K V) (slot : ℕ) :
    map.entries[slot]? = if slot < map.count then
      (map.data[slot]?).map fun entry => (entry.key, entry.value) else none := by
  rw [FixedMap.entries, List.getElem?_map, List.getElem?_take, Vector.getElem?_toList,
    FixedMap.len]
  split <;> rfl

omit [MarketNum] in
/-- Updating every live entry updates the list of the entries. -/
theorem entries_entriesMut (map : FixedMap N K V) (update : K → V → V) :
    (map.entriesMut update).entries =
      map.entries.map fun entry => (entry.1, update entry.1 entry.2) := by
  apply List.ext_getElem?
  intro slot
  rw [List.getElem?_map, getElem?_entries, getElem?_entries]
  by_cases hlive : slot < map.count
  · have hcount : slot < (map.entriesMut update).count := hlive
    rw [if_pos hcount, if_pos hlive]
    simp [FixedMap.entriesMut, FixedMap.len, hlive, Function.comp_def]
  · have hcount : ¬slot < (map.entriesMut update).count := hlive
    rw [if_neg hcount, if_neg hlive]
    rfl

end Entries

namespace GtBank

variable {bank : GtBank Token} {model : FiniteMap Token TokenBalance}

omit [MarketNum] in
theorem Holds.amount_le_of_mem (hholds : Holds bank model)
    {entry : Token × TokenBalance} (hentry : entry ∈ bank.balances.entries) :
    entry.2.amount ≤ maxU64 := by
  obtain ⟨slot, hslot⟩ := List.mem_iff_getElem?.mp hentry
  rw [getElem?_entries] at hslot
  split at hslot
  · rename_i hlive
    obtain ⟨found, hfound, rfl⟩ := Option.map_eq_some_iff.mp hslot
    exact hholds.amount_le ((hholds.represents.lookup_iff _ _).mpr ⟨slot, hlive, hfound⟩)
  · cases hslot

omit [MarketNum] in
/-- After all balances were taken out the bank is worth nothing. -/
theorem Holds.recordAllTransferredOut_eq (hholds : Holds bank model) :
    ∃ after, bank.recordAllTransferredOut = .ok after ∧ Holds after ∅ ∧
      after.balances.entries = [] := by
  obtain ⟨balances, hclear, hrep⟩ := hholds.represents.clear
  refine ⟨{ bank with balances }, ?_, ⟨hrep, holds_zeroed.amount_le⟩, ?_⟩
  · rw [recordAllTransferredOut, hclear]
    rfl
  · have hcount : balances.count = 0 := by simpa using hrep.card_eq.symm
    rw [FixedMap.entries, FixedMap.len, hcount, List.take_zero, List.map_nil]

/-- The loop reserves a share of every balance. -/
theorem Holds.reserveBalances_eq (hholds : Holds bank model)
    (hle : numerator ≤ denominator) (hpos : 0 < denominator) :
    ∃ after next, bank.reserveBalances numerator denominator = .ok after ∧
      Holds after next ∧
      after.balances.entries =
        reservedEntries numerator denominator bank.balances.entries ∧
      ∀ token found, next.lookup token = some found → ∃ before,
        model.lookup token = some before ∧ found.amount ≤ before.amount := by
  have hreserved : ∀ (token : Token) (balance : TokenBalance), balance.amount ≤ maxU64 →
      reservedOr numerator denominator token balance =
        ⟨share balance.amount numerator denominator⟩ := by
    intro token balance hfits
    rw [reservedOr, reserveBalance_eq_ok hle hpos hfits]
    rfl
  obtain ⟨values, hvalues, _⟩ := exists_mapM_eq_ok (fun entry hentry =>
    ⟨_, reserveBalance_eq_ok hle hpos (hholds.amount_le_of_mem hentry), rfl⟩ :
    ∀ entry ∈ bank.balances.entries, ∃ value,
      reserveBalance numerator denominator entry.2 = .ok value ∧
        (fun _ => ()) value = (fun _ => ()) entry)
  refine ⟨{ bank with
    balances := bank.balances.entriesMut (reservedOr numerator denominator) }, _, ?_,
    hholds.reserved, ?_, fun token found => reserved_le⟩
  · simp only [GtBank.reserveBalances, bind_eq_ok, ensure_eq_ok, pure_eq_ok]
    exact ⟨(), hle, values, hvalues, trivial⟩
  · rw [entries_entriesMut, reservedEntries]
    apply List.map_congr_left
    intro entry hentry
    rw [hreserved entry.1 entry.2 (hholds.amount_le_of_mem hentry)]

end GtBank

/-! ## The cap -/

omit [LinearOrder Token] [Inhabited Token] in
/-- What the largest value of a buyback is. -/
theorem getMaxBuybackValue_eq_ok {bank : GtBank Token} {vaults : List (TreasuryVault Token)}
    {buybackFactor : ℕ} {value : BuybackValue}
    (hvalue : getMaxBuybackValue bank minPrice vaults buybackFactor = .ok value) :
    ∃ treasury, bank.totalValue minPrice = .ok value.gtBankValue ∧
      treasuryValue minPrice vaults = .ok treasury ∧
      value.maxBuybackValue ≤ value.gtBankValue ∧
      value.maxBuybackValue * unit ≤ buybackFactor * (value.gtBankValue + treasury) := by
  simp only [getMaxBuybackValue, bind_eq_ok, okOr_eq_ok, checkedAdd_eq_some,
    applyFactor_eq_some, pure_eq_ok] at hvalue
  obtain ⟨bankValue, hbank, treasury, htreasury, _, ⟨_, rfl⟩, _, ⟨_, rfl⟩, rfl⟩ := hvalue
  refine ⟨treasury, hbank, htreasury, min_le_left _ _, ?_⟩
  calc min bankValue ((treasury + bankValue) * buybackFactor / unit) * unit
      ≤ (treasury + bankValue) * buybackFactor / unit * unit :=
        Nat.mul_le_mul_right _ (min_le_right _ _)
    _ ≤ (treasury + bankValue) * buybackFactor := Nat.div_mul_le_self _ _
    _ = buybackFactor * (bankValue + treasury) := by ring

omit [MarketNum] [LinearOrder Token] [Inhabited Token] in
/-- Balances that shrink leave every priced entry priced. -/
theorem reservedEntries_priced (hpriced : ∀ entry ∈ entries, Priced minPrice entry) :
    ∀ entry ∈ reservedEntries numerator denominator entries, Priced minPrice entry := by
  intro entry hentry hnonzero
  obtain ⟨before, hbefore, rfl⟩ := List.mem_map.mp hentry
  apply hpriced before hbefore
  intro hzero
  apply hnonzero
  simp only [hzero, share_zero_balance]

/-- What an update leaves in the bank. -/
structure Capped (bank : GtBank Token) (minPrice : MinPrice Token)
    (after : GtBank Token) (cap : ℕ) : Prop where
  balance_le : ∀ token, after.balance token ≤ bank.balance token
  value : ∃ reserved, after.totalValue minPrice = .ok reserved ∧ reserved ≤ cap

namespace GtBank

variable {bank : GtBank Token} {model : FiniteMap Token TokenBalance}

theorem Holds.recordAllTransferredOut_capped (hholds : Holds bank model) :
    ∃ after, bank.recordAllTransferredOut = .ok after ∧ Capped bank minPrice after 0 := by
  obtain ⟨after, hafter, hempty, hentries⟩ := hholds.recordAllTransferredOut_eq
  refine ⟨after, hafter, fun token => ?_, 0, ?_, le_rfl⟩
  · rw [hempty.balance_eq, Finmap.lookup_empty]
    exact Nat.zero_le _
  · rw [GtBank.totalValue, hentries]
    rfl

theorem Holds.reserveBalances_capped (hholds : Holds bank model)
    (hle : numerator ≤ denominator) (hpos : 0 < denominator)
    (hvalue : bank.totalValue minPrice = .ok denominator) :
    ∃ after, bank.reserveBalances numerator denominator = .ok after ∧
      Capped bank minPrice after numerator := by
  obtain ⟨after, next, hafter, hnext, hentries, hshrinks⟩ :=
    hholds.reserveBalances_eq hle hpos
  obtain ⟨hpriced, hfits, htotal⟩ := totalValue_eq_ok.mp hvalue
  have hworth : totalWorth minPrice (reservedEntries numerator denominator
      bank.balances.entries) ≤ numerator :=
    totalWorth_reservedEntries_le hpos htotal
  refine ⟨after, hafter, fun token => ?_, _, ?_, hworth⟩
  · rw [hnext.balance_eq, hholds.balance_eq]
    cases hfound : next.lookup token with
    | none => exact Nat.zero_le _
    | some found =>
        obtain ⟨before, hbefore, hle⟩ := hshrinks token found hfound
        rw [hbefore]
        exact hle
  · rw [totalValue_eq_ok, hentries]
    exact ⟨reservedEntries_priced hpriced, by omega, rfl⟩

end GtBank

omit [LinearOrder Token] in
theorem updateBalances_eq {bank : GtBank Token} {vaults : List (TreasuryVault Token)}
    {buybackFactor mintingCost buybackAmount buybackValue : ℕ} {value : BuybackValue}
    (hamount : buybackAmount ≠ 0)
    (hvalue : getMaxBuybackValue bank minPrice vaults buybackFactor = .ok value)
    (hmul : checkedMul buybackAmount
      (min (value.maxBuybackValue / buybackAmount) mintingCost) = some buybackValue) :
    updateBalances bank minPrice vaults buybackFactor mintingCost buybackAmount =
      if buybackValue = 0 then bank.recordAllTransferredOut
      else bank.reserveBalances buybackValue value.gtBankValue := by
  have hdiv : checkedDiv value.maxBuybackValue buybackAmount =
      some (value.maxBuybackValue / buybackAmount) :=
    checkedDiv_eq_some.mpr ⟨hamount, rfl⟩
  simp only [updateBalances, hamount, ↓reduceIte, hvalue, hdiv, hmul, okOr, bind,
    Except.bind]

/-- An update of the balances succeeds once the largest value of a buyback is known.
It raises no balance, and leaves at most the value of the bank, the buyback factor's
part of the bank and the treasury, and the GT at its minting cost. -/
theorem updateBalances_capped {bank : GtBank Token} (hbank : ∃ model, bank.Holds model)
    {vaults : List (TreasuryVault Token)} {buybackFactor : ℕ} {value : BuybackValue}
    (hvalue : getMaxBuybackValue bank minPrice vaults buybackFactor = .ok value)
    (mintingCost buybackAmount : ℕ) :
    ∃ after treasury reserved,
      updateBalances bank minPrice vaults buybackFactor mintingCost buybackAmount =
        .ok after ∧
      (∀ token, after.balance token ≤ bank.balance token) ∧
      bank.totalValue minPrice = .ok value.gtBankValue ∧
      treasuryValue minPrice vaults = .ok treasury ∧
      after.totalValue minPrice = .ok reserved ∧
      reserved ≤ value.gtBankValue ∧
      reserved * unit ≤ buybackFactor * (value.gtBankValue + treasury) ∧
      reserved ≤ buybackAmount * mintingCost ∧
      (buybackAmount = 0 ∨ min (value.maxBuybackValue / buybackAmount) mintingCost = 0 →
        reserved = 0) := by
  obtain ⟨model, hholds⟩ := hbank
  obtain ⟨treasury, htotal, htreasury, hmost, hfactor⟩ := getMaxBuybackValue_eq_ok hvalue
  let buybackPrice := min (value.maxBuybackValue / buybackAmount) mintingCost
  have hcap : buybackAmount * buybackPrice ≤ value.maxBuybackValue :=
    (Nat.mul_le_mul_left _ (min_le_left _ _)).trans (Nat.mul_div_le _ _)
  have hcost : buybackAmount * buybackPrice ≤ buybackAmount * mintingCost :=
    Nat.mul_le_mul_left _ (min_le_right _ _)
  have hupdate : ∃ after,
      updateBalances bank minPrice vaults buybackFactor mintingCost buybackAmount =
        .ok after ∧ Capped bank minPrice after (buybackAmount * buybackPrice) := by
    by_cases hamount : buybackAmount = 0
    · obtain ⟨after, hafter, hcapped⟩ :=
        @GtBank.Holds.recordAllTransferredOut_capped _ _ _ _ minPrice _ _ hholds
      rw [updateBalances, if_pos hamount, hamount, Nat.zero_mul]
      exact ⟨after, hafter, hcapped⟩
    · have hfits : buybackAmount * buybackPrice ≤ maxUnsigned := by
        have hbank := (totalValue_eq_ok.mp htotal).2
        omega
      have hmul : checkedMul buybackAmount buybackPrice =
          some (buybackAmount * buybackPrice) :=
        checkedMul_eq_some.mpr ⟨hfits, rfl⟩
      rw [updateBalances_eq hamount hvalue hmul]
      by_cases hzero : buybackAmount * buybackPrice = 0
      · obtain ⟨after, hafter, hcapped⟩ :=
          @GtBank.Holds.recordAllTransferredOut_capped _ _ _ _ minPrice _ _ hholds
        rw [if_pos hzero, hzero]
        exact ⟨after, hafter, hcapped⟩
      · rw [if_neg hzero]
        exact hholds.reserveBalances_capped (hcap.trans hmost)
          ((Nat.pos_of_ne_zero hzero).trans_le (hcap.trans hmost)) htotal
  obtain ⟨after, hafter, hbalance, reserved, hreserved, hle⟩ := hupdate
  refine ⟨after, treasury, reserved, hafter, hbalance, htotal, htreasury, hreserved,
    hle.trans (hcap.trans hmost), ?_, hle.trans hcost, ?_⟩
  · exact (Nat.mul_le_mul_right _ (hle.trans hcap)).trans hfactor
  · rintro (hzero | hzero)
    · rw [hzero, Nat.zero_mul] at hle
      exact Nat.le_zero.mp hle
    · have hprice : buybackPrice = 0 := hzero
      rw [hprice, Nat.mul_zero] at hle
      exact Nat.le_zero.mp hle

end Cap

section Store

attribute [local instance] storeNumbers

/-- The prices of two tokens. -/
def samplePrice : MinPrice ℕ := fun token =>
  if token = 7 then .ok 3
  else if token = 5 then .ok 10
  else .error (.core .notFound)

/-- Three GT are bought back for a tenth of the bank and the treasury. -/
theorem updateBalances_capped_sample :
    ∃ bank after reserved, GtBank.sampleBank = .ok bank ∧
      updateBalances bank samplePrice [⟨7, 50⟩] (10 ^ 19) 20 3 = .ok after ∧
      after.totalValue samplePrice = .ok reserved ∧ reserved * 10 ≤ 310 + 150 := by
  obtain ⟨bank, hbank, hsome⟩ : ∃ bank, GtBank.sampleBank = .ok bank ∧
      (getMaxBuybackValue bank samplePrice [⟨7, 50⟩] (10 ^ 19)).toOption.any
        (fun value => decide (value.gtBankValue = 310)) ∧
      (treasuryValue samplePrice [(⟨7, 50⟩ : TreasuryVault ℕ)]).toOption.any
        (fun treasury => decide (treasury = 150)) :=
    exists_ok_iff_any.mpr (by decide +kernel)
  obtain ⟨value, hvalue, hworth⟩ := exists_ok_iff_any.mpr hsome.1
  obtain ⟨held, hheld, hheldWorth⟩ := exists_ok_iff_any.mpr hsome.2
  obtain ⟨after, treasury, reserved, hafter, _, _, htreasury, hreserved, _, hfactor, _⟩ :=
    updateBalances_capped (GtBank.sampleBank_reached hbank).holds hvalue 20 3
  obtain rfl := Except.ok.inj (hheld.symm.trans htreasury)
  have hunit : unit = 10 * 10 ^ 19 := rfl
  rw [hunit, hworth, hheldWorth] at hfactor
  exact ⟨bank, after, reserved, hbank, hafter, hreserved, by omega⟩

end Store

end Gmsol.Treasury
