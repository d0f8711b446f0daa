import Gmsol.Library.ProRata
import Gmsol.Treasury.GtBank

/-!
# Sharing the GT bank

Each completed exchange takes a floored share of what is left in the bank over
the GT that is left.  The balances are followed through the finite map that the
container represents; the shares themselves are those of a shrinking balance.
-/

namespace Gmsol.Treasury

open Gmsol.Container Gmsol.Fallible Gmsol.FixedArray Gmsol.Model Gmsol.ProRata
  Gmsol.Store

variable {Token : Type} [LinearOrder Token]

/-! ## Payments -/

@[simp]
theorem paidIn_nil (token : Token) : paidIn [] token = 0 := rfl

theorem paidIn_append (left right : Payments Token) (token : Token) :
    paidIn (left ++ right) token = paidIn left token + paidIn right token := by
  simp [paidIn]

theorem paidIn_singleton (payee token : Token) (amount : ℕ) :
    paidIn [(payee, amount)] token = if payee = token then amount else 0 := by
  simp [paidIn]

/-- Payments of the first claims are part of all payments. -/
theorem paidIn_take_le (payments : List (Payments Token)) (count : ℕ)
    (token : Token) :
    paidIn (payments.take count).flatten token ≤ paidIn payments.flatten token := by
  conv_rhs => rw [← List.take_append_drop count payments, List.flatten_append,
    paidIn_append]
  exact Nat.le_add_right _ _

namespace GtBank

variable [Inhabited Token]

/-! ## The balances of a bank -/

/-- The bank's container represents the map, whose amounts fit their type. -/
structure Holds (bank : GtBank Token) (model : FiniteMap Token TokenBalance) :
    Prop where
  represents : Represents bank.balances model
  amount_le : ∀ {token : Token} {found : TokenBalance},
    model.lookup token = some found → found.amount ≤ maxU64

variable {bank after : GtBank Token} {model : FiniteMap Token TokenBalance}
  {token : Token} {found : TokenBalance}

theorem Holds.getBalance_eq (hholds : Holds bank model) (token : Token) :
    bank.getBalance token = .ok ((model.lookup token).map TokenBalance.amount) := by
  rw [getBalance, hholds.represents.get token]
  rfl

theorem Holds.balance_eq (hholds : Holds bank model) (token : Token) :
    bank.balance token =
      ((model.lookup token).map TokenBalance.amount).getD 0 := by
  rw [balance, hholds.getBalance_eq token]
  cases model.lookup token <;> rfl

theorem Holds.setBalance_eq (hholds : Holds bank model)
    (hlookup : model.lookup token = some found) {amount : ℕ}
    (hamount : amount ≤ maxU64) :
    ∃ after, bank.setBalance token amount = .ok after ∧
      Holds after (model.insert token ⟨amount⟩) ∧
      after.remainingConfirmedGtAmount = bank.remainingConfirmedGtAmount := by
  obtain ⟨balances, hget, hrep⟩ :
      Represents.Returns (bank.balances.getMut id token fun _ => ⟨amount⟩) _ :=
    hholds.represents.getMut token _
  simp only [FiniteMap.updateValue, id_eq, hlookup] at hrep
  refine ⟨{ bank with balances }, ?_, ⟨hrep, ?_⟩, rfl⟩
  · rw [setBalance, hget]
    rfl
  · intro other value hvalue
    rcases (model.lookup_insert_iff token other _ value).mp hvalue with
      ⟨-, rfl⟩ | ⟨-, hkept⟩
    · exact hamount
    · exact hholds.amount_le hkept

theorem Holds.mem_tokens (hholds : Holds bank model) :
    token ∈ bank.tokens ↔ ∃ found, model.lookup token = some found :=
  hholds.represents.mem_keys_iff token

theorem Holds.nodup_tokens (hholds : Holds bank model) : bank.tokens.Nodup :=
  hholds.represents.nodup_keys

/-! ## One claim -/

/-- The map after `amount` is taken from the balance of a token. -/
def Taken (model next : FiniteMap Token TokenBalance) (token : Token)
    (amount : ℕ) : Prop :=
  ∀ other, next.lookup other =
    if other = token then (model.lookup token).map fun found => ⟨found.amount - amount⟩
    else model.lookup other

omit [Inhabited Token] in
theorem taken_zero (model : FiniteMap Token TokenBalance) (token : Token) :
    Taken model model token 0 := by
  intro other
  split
  · rename_i hsame
    subst hsame
    cases model.lookup other <;> rfl
  · rfl

theorem checkedMulDivU64_share {balance gtAmount total : ℕ} (hpos : 0 < total)
    (hclaim : gtAmount ≤ total) (hbalance : balance ≤ maxU64) :
    checkedMulDivU64 balance gtAmount total = some (share balance gtAmount total) := by
  have hfits : balance * gtAmount / total ≤ maxU64 :=
    (share_le hclaim).trans hbalance
  rw [checkedMulDivU64, if_neg hpos.ne', if_pos hfits, share]

theorem Holds.recordTransferredOut_eq (hholds : Holds bank model)
    (hlookup : model.lookup token = some found) {amount : ℕ}
    (hcovered : amount ≤ found.amount) :
    ∃ after next, bank.recordTransferredOut token amount = .ok after ∧
      Holds after next ∧ Taken model next token amount ∧
      after.remainingConfirmedGtAmount = bank.remainingConfirmedGtAmount := by
  rcases Nat.eq_zero_or_pos amount with rfl | hpos
  · exact ⟨bank, model, rfl, hholds, taken_zero model token, rfl⟩
  · have hfits := hholds.amount_le hlookup
    obtain ⟨after, hset, hafter, hremaining⟩ := hholds.setBalance_eq hlookup
      (show found.amount - amount ≤ maxU64 by omega)
    refine ⟨after, _, ?_, hafter, ?_, hremaining⟩
    · rw [recordTransferredOut, if_neg hpos.ne', hholds.getBalance_eq, hlookup]
      simp only [Option.map_some, okOr, checkedSubU64, if_pos hcovered, bind,
        Except.bind, Except.mapError]
      exact hset
    · intro other
      split
      · rename_i hsame
        rw [hsame, Finmap.lookup_insert, hlookup]
        rfl
      · rename_i hdifferent
        exact Finmap.lookup_insert_of_ne _ hdifferent

/-- Paying one token takes its share and records the payment. -/
theorem Holds.payToken_eq (hholds : Holds bank model) {gtAmount total : ℕ}
    (hlookup : model.lookup token = some found) (hpos : 0 < total)
    (hclaim : gtAmount ≤ total) (payments : Payments Token) :
    ∃ after next paid,
      payToken gtAmount total (bank, payments) token =
        .ok (after, payments ++ paid) ∧
      Holds after next ∧
      Taken model next token (share found.amount gtAmount total) ∧
      after.remainingConfirmedGtAmount = bank.remainingConfirmedGtAmount ∧
      ∀ other, paidIn paid other =
        if token = other then share found.amount gtAmount total else 0 := by
  by_cases hzero : found.amount = 0
  · refine ⟨bank, model, [], ?_, hholds, ?_, rfl, ?_⟩
    · simp [payToken, hholds.getBalance_eq, hlookup, okOr, hzero, bind, Except.bind]
    · rw [hzero, share_zero_balance]
      exact taken_zero model token
    · intro other
      rw [hzero, share_zero_balance, ite_self, paidIn_nil]
  · obtain ⟨after, next, hout, hafter, htaken, hremaining⟩ :=
      hholds.recordTransferredOut_eq hlookup (share_le hclaim)
    refine ⟨after, next, [(token, share found.amount gtAmount total)], ?_, hafter,
      htaken, hremaining, fun other => paidIn_singleton token other _⟩
    rw [payToken, hholds.getBalance_eq, hlookup]
    simp only [Option.map_some, okOr, bind, Except.bind, if_neg hzero,
      checkedMulDivU64_share hpos hclaim (hholds.amount_le hlookup), hout]

/-- Paying a list of different tokens takes the share of each. -/
theorem Holds.payTokens_eq {gtAmount total : ℕ} (hpos : 0 < total)
    (hclaim : gtAmount ≤ total) {tokens : List Token} (hnodup : tokens.Nodup)
    {bank : GtBank Token} {model : FiniteMap Token TokenBalance}
    (hholds : Holds bank model)
    (hknown : ∀ token ∈ tokens, ∃ found, model.lookup token = some found)
    (payments : Payments Token) :
    ∃ after next paid,
      tokens.foldlM (payToken gtAmount total) (bank, payments) =
        .ok (after, payments ++ paid) ∧
      Holds after next ∧
      after.remainingConfirmedGtAmount = bank.remainingConfirmedGtAmount ∧
      (∀ token, token ∈ tokens →
        after.balance token = bank.balance token -
          share (bank.balance token) gtAmount total ∧
        paidIn paid token = share (bank.balance token) gtAmount total) ∧
      ∀ token, token ∉ tokens →
        after.balance token = bank.balance token ∧ paidIn paid token = 0 := by
  induction tokens generalizing bank model payments with
  | nil =>
      exact ⟨bank, model, [], by rw [List.append_nil]; rfl, hholds, rfl,
        fun token hmem => absurd hmem (by simp), fun token _ => ⟨rfl, rfl⟩⟩
  | cons token tokens ih =>
      obtain ⟨hfresh, hnodup⟩ := List.nodup_cons.mp hnodup
      obtain ⟨found, hlookup⟩ := hknown token List.mem_cons_self
      obtain ⟨middle, between, paid, hpay, hmiddle, htaken, hremaining, hpaid⟩ :=
        hholds.payToken_eq hlookup hpos hclaim payments
      have hother : ∀ other, other ≠ token →
          between.lookup other = model.lookup other := by
        intro other hdifferent
        rw [htaken other, if_neg hdifferent]
      have hbalance : ∀ other, other ≠ token →
          middle.balance other = bank.balance other := by
        intro other hdifferent
        rw [hmiddle.balance_eq, hholds.balance_eq, hother other hdifferent]
      have hfound : bank.balance token = found.amount := by
        rw [hholds.balance_eq, hlookup]
        rfl
      have hleft : middle.balance token =
          found.amount - share found.amount gtAmount total := by
        rw [hmiddle.balance_eq, htaken token, if_pos rfl, hlookup]
        rfl
      obtain ⟨after, next, rest, hfold, hafter, hkept, hinside, houtside⟩ :=
        ih hnodup hmiddle (fun other hmem => by
          rw [hother other (fun h => hfresh (h ▸ hmem))]
          exact hknown other (List.mem_cons_of_mem token hmem)) (payments ++ paid)
      refine ⟨after, next, paid ++ rest, ?_, hafter, hkept.trans hremaining, ?_, ?_⟩
      · rw [List.foldlM_cons, hpay, ← List.append_assoc]
        exact hfold
      · intro other hmem
        rw [paidIn_append, hpaid]
        rcases List.mem_cons.mp hmem with rfl | htail
        · obtain ⟨hsame, hnone⟩ := houtside other hfresh
          rw [hsame, hnone, hleft, hfound, if_pos rfl, Nat.add_zero]
          exact ⟨rfl, rfl⟩
        · have hdifferent : other ≠ token := fun h => hfresh (h ▸ htail)
          obtain ⟨hbal, hrest⟩ := hinside other htail
          rw [hbal, hrest, hbalance other hdifferent, if_neg hdifferent.symm,
            Nat.zero_add]
          exact ⟨rfl, rfl⟩
      · intro other hmem
        obtain ⟨hdifferent, htail⟩ := not_or.mp (List.mem_cons.not.mp hmem)
        obtain ⟨hbal, hrest⟩ := houtside other htail
        rw [paidIn_append, hpaid, hbal, hrest, hbalance other hdifferent,
          if_neg (Ne.symm hdifferent)]
        exact ⟨rfl, rfl⟩

/-- Completing an exchange takes the share of every token, and the exchange
itself from the GT that is left. -/
theorem Holds.completeGtExchange_eq (hholds : Holds bank model) {gtAmount : ℕ}
    (hclaim : gtAmount ≤ bank.remainingConfirmedGtAmount) :
    ∃ after next payments,
      bank.completeGtExchange gtAmount = .ok (after, payments) ∧
      Holds after next ∧
      after.remainingConfirmedGtAmount =
        bank.remainingConfirmedGtAmount - gtAmount ∧
      ∀ token,
        after.balance token = bank.balance token -
          share (bank.balance token) gtAmount bank.remainingConfirmedGtAmount ∧
        paidIn payments token =
          share (bank.balance token) gtAmount bank.remainingConfirmedGtAmount := by
  rcases Nat.eq_zero_or_pos gtAmount with rfl | hpos
  · refine ⟨bank, model, [], rfl, hholds, rfl, fun token => ?_⟩
    simp [share]
  · obtain ⟨middle, next, paid, hfold, hmiddle, hremaining, hinside, houtside⟩ :=
      hholds.payTokens_eq (hpos.trans_le hclaim) hclaim hholds.nodup_tokens
        (fun token hmem => hholds.mem_tokens.mp hmem) []
    refine ⟨{ middle with remainingConfirmedGtAmount :=
      bank.remainingConfirmedGtAmount - gtAmount }, next, paid, ?_,
      ⟨hmiddle.represents, hmiddle.amount_le⟩, rfl, fun token => ?_⟩
    · rw [completeGtExchange, if_neg hpos.ne']
      simp only [ensure_of hclaim, hfold, bind, Except.bind, List.nil_append,
        recordClaimed, hremaining, checkedSubU64, if_pos hclaim, Except.mapError]
    · by_cases hmem : token ∈ bank.tokens
      · exact hinside token hmem
      · have hempty : bank.balance token = 0 := by
          rw [hholds.balance_eq]
          cases hlookup : model.lookup token with
          | none => rfl
          | some found => exact absurd (hholds.mem_tokens.mpr ⟨found, hlookup⟩) hmem
        obtain ⟨hbal, hnone⟩ := houtside token hmem
        rw [hempty, share_zero_balance]
        exact ⟨hbal.trans hempty, hnone⟩

/-! ## Every reached bank holds its balances -/

theorem holds_zeroed : Holds (zeroed : GtBank Token) ∅ where
  represents := represents_zeroed
  amount_le := by
    intro token found hlookup
    exact absurd hlookup (by simp)

theorem Holds.insertBalance (hholds : Holds bank model)
    (hinsert : bank.insertBalance token = .ok after) :
    ∃ next, Holds after next := by
  simp only [GtBank.insertBalance, bind_eq_ok, mapError_eq_ok] at hinsert
  obtain ⟨⟨balances, outcome⟩, hstep, -, hcontainer, hdone⟩ := hinsert
  obtain rfl := Except.ok.inj hdone
  have hsafe : model.Safe maxTokens id (.insertWithOptions token ⟨0⟩ true :
      Container.Operation Token Token TokenBalance) := by
    by_contra hrefused
    rw [hholds.represents.insertWithOptions_panics token ⟨0⟩ true hrefused] at hstep
    exact absurd hstep (by simp)
  obtain ⟨reached, hreached, hrep⟩ :=
    hholds.represents.insertWithOptions token ⟨0⟩ true hsafe
  rw [hstep] at hreached
  obtain ⟨rfl, houtcome⟩ := Prod.mk.inj (Except.ok.inj hreached)
  refine ⟨_, hrep, ?_⟩
  cases hlookup : model.lookup token with
  | some found =>
      simp only [FiniteMap.insertBounded, id_eq, hlookup, if_true]
      exact hholds.amount_le
  | none =>
      simp only [FiniteMap.insertBounded, id_eq, hlookup]
      split
      · exact hholds.amount_le
      · intro other value hvalue
        rcases (model.lookup_insert_iff token other _ value).mp hvalue with
          ⟨-, rfl⟩ | ⟨-, hkept⟩
        · exact Nat.zero_le _
        · exact hholds.amount_le hkept

theorem Holds.assigned (hholds : Holds bank model)
    (hlookup : (model.lookup token).map TokenBalance.amount = some found.amount)
    {amount : ℕ} (hamount : amount ≤ maxU64)
    (hset : bank.setBalance token amount = .ok after) :
    ∃ next, Holds after next := by
  obtain ⟨previous, hprevious, -⟩ := Option.map_eq_some_iff.mp hlookup
  obtain ⟨reached, hreached, hnext, -⟩ := hholds.setBalance_eq hprevious hamount
  obtain rfl := Except.ok.inj (hset.symm.trans hreached)
  exact ⟨_, hnext⟩

theorem Holds.recordTransferredIn (hholds : Holds bank model) {amount : ℕ}
    (hrecord : bank.recordTransferredIn token amount = .ok after) :
    ∃ next, Holds after next := by
  simp only [GtBank.recordTransferredIn, balanceOrInsert, bind_eq_ok, okOr_eq_ok,
    mapError_eq_ok] at hrecord
  obtain ⟨middle, hmiddle, balance, hget, amountBefore, rfl, nextBalance, hadd,
    hset⟩ := hrecord
  obtain ⟨between, hbetween⟩ : ∃ between, Holds middle between := by
    obtain ⟨existing, -, hinsert⟩ := hmiddle
    split at hinsert
    · exact hholds.insertBalance hinsert
    · exact ⟨model, Except.ok.inj hinsert ▸ hholds⟩
  rw [hbetween.getBalance_eq, Except.ok.injEq] at hget
  have hfits : nextBalance ≤ maxU64 := by
    unfold checkedAddU64 at hadd
    split at hadd
    · rename_i hle
      exact Except.ok.inj hadd ▸ hle
    · exact absurd hadd (by simp)
  exact hbetween.assigned
    (show _ = some (TokenBalance.mk amountBefore).amount from hget) hfits hset

theorem Holds.recordTransferredOut (hholds : Holds bank model) {amount : ℕ}
    (hrecord : bank.recordTransferredOut token amount = .ok after) :
    ∃ next, Holds after next := by
  unfold GtBank.recordTransferredOut at hrecord
  split at hrecord
  · exact ⟨model, Except.ok.inj hrecord ▸ hholds⟩
  · simp only [bind_eq_ok, okOr_eq_ok, mapError_eq_ok] at hrecord
    obtain ⟨balance, hget, amountBefore, rfl, nextBalance, hsub, hset⟩ := hrecord
    rw [hholds.getBalance_eq, Except.ok.injEq] at hget
    obtain ⟨previous, hprevious, rfl⟩ := Option.map_eq_some_iff.mp hget
    have hbefore := hholds.amount_le hprevious
    have hfits : nextBalance ≤ maxU64 := by
      unfold checkedSubU64 at hsub
      split at hsub
      · have hnext := Except.ok.inj hsub
        omega
      · exact absurd hsub (by simp)
    exact hholds.assigned hget hfits hset

section Reserving

variable [MarketNum] {numerator denominator : ℕ}

omit [LinearOrder Token] [Inhabited Token] in
theorem reservedOr_le (token : Token) (balance : TokenBalance) :
    (reservedOr numerator denominator token balance).amount ≤ balance.amount := by
  unfold reservedOr
  cases hreserve : reserveBalance numerator denominator balance with
  | error failure => exact le_rfl
  | ok reserved =>
      unfold reserveBalance at hreserve
      split_ifs at hreserve
      · obtain rfl := Except.ok.inj hreserve
        exact le_rfl
      · simp only [bind_eq_ok, ensure_eq_ok, pure_eq_ok] at hreserve
        obtain ⟨amount, -, _, hle, rfl⟩ := hreserve
        exact hle

omit [Inhabited Token] in
/-- No balance grows when the balances are reserved. -/
theorem reserved_le {token : Token} {found : TokenBalance}
    (hfound : (model.mapValues (reservedOr numerator denominator)).lookup token =
      some found) :
    ∃ before, model.lookup token = some before ∧ found.amount ≤ before.amount := by
  obtain ⟨before, hbefore, rfl⟩ := (model.lookup_mapValues_iff _ token found).mp hfound
  exact ⟨before, hbefore, reservedOr_le token before⟩

theorem Holds.reserved (hholds : Holds bank model) :
    Holds { bank with
        balances := bank.balances.entriesMut (reservedOr numerator denominator) }
      (model.mapValues (reservedOr numerator denominator)) := by
  refine ⟨hholds.represents.entriesMut _, fun hfound => ?_⟩
  obtain ⟨before, hbefore, hle⟩ := reserved_le hfound
  exact hle.trans (hholds.amount_le hbefore)

theorem Holds.reserveBalances (hholds : Holds bank model)
    (hreserve : bank.reserveBalances numerator denominator = .ok after) :
    ∃ next, Holds after next := by
  simp only [GtBank.reserveBalances, bind_eq_ok, pure_eq_ok] at hreserve
  obtain ⟨_, -, _, -, rfl⟩ := hreserve
  exact ⟨_, hholds.reserved⟩

end Reserving

theorem Reached.holds [MarketNum] (hreached : Reached bank) :
    ∃ model, Holds bank model := by
  induction hreached with
  | zeroed => exact ⟨∅, holds_zeroed⟩
  | @perform bank after operation _ hperform ih =>
      obtain ⟨model, hholds⟩ := ih
      cases operation with
      | transferredIn token amount => exact hholds.recordTransferredIn hperform
      | transferredOut token amount => exact hholds.recordTransferredOut hperform
      | allTransferredOut =>
          simp only [GtBank.perform, recordAllTransferredOut, bind_eq_ok,
            mapError_eq_ok] at hperform
          obtain ⟨balances, hclear, hdone⟩ := hperform
          obtain rfl := Except.ok.inj hdone
          obtain ⟨cleared, hcleared, hrep⟩ := hholds.represents.clear
          obtain rfl := Except.ok.inj (hclear.symm.trans hcleared)
          exact ⟨∅, hrep, holds_zeroed.amount_le⟩
      | reserve numerator denominator => exact hholds.reserveBalances hperform
      | confirm gtAmount =>
          obtain rfl := Except.ok.inj hperform
          exact ⟨model, hholds.represents, hholds.amount_le⟩
      | complete gtAmount =>
          simp only [GtBank.perform, map_eq_ok] at hperform
          obtain ⟨⟨next, payments⟩, hcomplete, rfl⟩ := hperform
          by_cases hclaim : gtAmount ≤ bank.remainingConfirmedGtAmount
          · obtain ⟨reached, nextModel, paid, hreached, hnext, -, -⟩ :=
              hholds.completeGtExchange_eq hclaim
            rw [hcomplete] at hreached
            obtain ⟨rfl, -⟩ := Prod.mk.inj (Except.ok.inj hreached)
            exact ⟨nextModel, hnext⟩
          · have hnonzero : gtAmount ≠ 0 := fun h => hclaim (h ▸ Nat.zero_le _)
            simp [completeGtExchange, hnonzero, ensure, hclaim, bind,
              Except.bind] at hcomplete

/-! ## All claims -/

/-- Claims that together are what is left are all paid, each at least at the
initial rate, and leave nothing behind. -/
theorem Holds.completeGtExchanges_eq {initial : Token → ℕ} {total : ℕ}
    {gtAmounts : List ℕ} {bank : GtBank Token}
    {model : FiniteMap Token TokenBalance} (hholds : Holds bank model)
    (hsum : gtAmounts.sum = bank.remainingConfirmedGtAmount)
    (hcovers : ∀ token, Covers (initial token) total (bank.balance token)
      bank.remainingConfirmedGtAmount)
    (hempty : bank.remainingConfirmedGtAmount = 0 →
      ∀ token, bank.balance token = 0) :
    ∃ after payments,
      bank.completeGtExchanges gtAmounts = .ok (after, payments) ∧
      List.Forall₂ (fun gtAmount paid => ∀ token,
        share (initial token) gtAmount total ≤ paidIn paid token)
        gtAmounts payments ∧
      (∀ token, paidIn payments.flatten token = bank.balance token) ∧
      after.remainingConfirmedGtAmount = 0 ∧ ∀ token, after.balance token = 0 := by
  induction gtAmounts generalizing bank model with
  | nil =>
      have hzero : bank.remainingConfirmedGtAmount = 0 := hsum.symm
      exact ⟨bank, [], rfl, .nil, fun token => (hempty hzero token).symm, hzero,
        hempty hzero⟩
  | cons gtAmount gtAmounts ih =>
      rw [List.sum_cons] at hsum
      have hclaim : gtAmount ≤ bank.remainingConfirmedGtAmount := by omega
      obtain ⟨middle, next, paid, hcomplete, hmiddle, hremaining, heffect⟩ :=
        hholds.completeGtExchange_eq hclaim
      rcases Nat.eq_zero_or_pos bank.remainingConfirmedGtAmount with hnone | hpos
      · -- nothing is left, so this claim and the following ones are empty
        have hbalance := hempty hnone
        have hmiddleBalance : ∀ token, middle.balance token = 0 := by
          intro token
          rw [(heffect token).1, hbalance token, Nat.zero_sub]
        obtain ⟨after, payments, hrun, hpaid, htotal, hafter, hzero⟩ :=
          ih hmiddle (by omega) (fun token => by
            rw [Covers, hremaining, hnone, Nat.zero_sub, Nat.mul_zero]
            exact Nat.zero_le _) (fun _ => hmiddleBalance)
        refine ⟨after, paid :: payments, ?_, .cons ?_ hpaid, ?_, hafter, hzero⟩
        · simp only [completeGtExchanges, hcomplete, hrun, bind, Except.bind]
        · intro token
          have hg : gtAmount = 0 := by omega
          rw [hg, share, Nat.mul_zero, Nat.zero_div]
          exact Nat.zero_le _
        · intro token
          rw [List.flatten_cons, paidIn_append, (heffect token).2, htotal,
            hmiddleBalance, hbalance, share_zero_balance]
      · obtain ⟨after, payments, hrun, hpaid, htotal, hafter, hzero⟩ :=
          ih hmiddle (by omega)
            (fun token => by
              rw [hremaining, (heffect token).1]
              exact (hcovers token).step hpos)
            (fun hdone token => by
              have hlast : gtAmount = bank.remainingConfirmedGtAmount := by omega
              rw [(heffect token).1, hlast, share_self hpos, Nat.sub_self])
        refine ⟨after, paid :: payments, ?_, .cons ?_ hpaid, ?_, hafter, hzero⟩
        · simp only [completeGtExchanges, hcomplete, hrun, bind, Except.bind]
        · intro token
          rw [(heffect token).2]
          exact (hcovers token).share_le hpos
        · intro token
          rw [List.flatten_cons, paidIn_append, (heffect token).2, htotal,
            (heffect token).1]
          exact Nat.add_sub_of_le (share_le hclaim)

/-- The exchanges of a confirmed vault share its bank fairly and empty it. -/
theorem gt_buyback_shared [MarketNum] (hreached : Reached bank)
    (hpos : 0 < bank.remainingConfirmedGtAmount) (gtAmounts : List ℕ)
    (hsum : gtAmounts.sum = bank.remainingConfirmedGtAmount) :
    ∃ after payments,
      bank.completeGtExchanges gtAmounts = .ok (after, payments) ∧
      List.Forall₂ (fun gtAmount paid => ∀ token,
        bank.balance token * gtAmount / bank.remainingConfirmedGtAmount ≤
          paidIn paid token) gtAmounts payments ∧
      (∀ count token,
        paidIn (payments.take count).flatten token ≤ bank.balance token) ∧
      after.remainingConfirmedGtAmount = 0 ∧ ∀ token, after.balance token = 0 := by
  obtain ⟨model, hholds⟩ := hreached.holds
  obtain ⟨after, payments, hrun, hpaid, htotal, hafter, hzero⟩ :=
    hholds.completeGtExchanges_eq hsum (fun _ => Covers.start)
      (fun hnone => absurd hnone hpos.ne')
  exact ⟨after, payments, hrun, hpaid, fun count token =>
    htotal token ▸ paidIn_take_le payments count token, hafter, hzero⟩

section Store

attribute [local instance] storeNumbers

/-- A bank of two tokens for a vault of three GT. -/
def sampleBank : Except BankError (GtBank ℕ) := do
  let bank ← zeroed.recordTransferredIn 7 100
  let bank ← bank.recordTransferredIn 5 1
  return bank.uncheckedConfirm 3

theorem sampleBank_reached {bank : GtBank ℕ} (hbank : sampleBank = .ok bank) :
    Reached bank := by
  simp only [sampleBank, bind_eq_ok, pure_eq_ok] at hbank
  obtain ⟨first, hfirst, second, hsecond, rfl⟩ := hbank
  have hreachedFirst : Reached first :=
    @Reached.perform ℕ _ _ _ _ _ (.transferredIn 7 100) .zeroed hfirst
  have hreachedSecond : Reached second :=
    @Reached.perform ℕ _ _ _ _ _ (.transferredIn 5 1) hreachedFirst hsecond
  exact @Reached.perform ℕ _ _ _ _ _ (.confirm 3) hreachedSecond rfl

theorem gt_buyback_shared_by_two :
    ∃ bank after payments, sampleBank = .ok bank ∧
      bank.completeGtExchanges [1, 0, 2] = .ok (after, payments) ∧
      payments.map (fun paid => paidIn paid 7) = [33, 0, 67] ∧
      after.balance 7 = 0 ∧ after.remainingConfirmedGtAmount = 0 := by
  obtain ⟨bank, hbank, hremaining, hpaid⟩ :
      ∃ bank, sampleBank = .ok bank ∧ bank.remainingConfirmedGtAmount = 3 ∧
        (bank.completeGtExchanges [1, 0, 2]).toOption.any (fun result =>
          decide (result.2.map (fun paid => paidIn paid 7) = [33, 0, 67])) :=
    exists_ok_iff_any.mpr (by decide +kernel)
  obtain ⟨after, payments, hrun, -, -, hzero, hempty⟩ :=
    gt_buyback_shared (sampleBank_reached hbank)
      (hremaining ▸ (by norm_num : 0 < 3)) [1, 0, 2] (by simp [hremaining])
  rw [hrun] at hpaid
  exact ⟨bank, after, payments, hbank, hrun, of_decide_eq_true hpaid, hempty 7, hzero⟩

end Store

end GtBank

end Gmsol.Treasury
