import Gmsol.Container.Runs
import Gmsol.Store.Gt

/-!
# The GT bank

The bank of a GT exchange vault records the balances of its tokens.  Once the
vault is confirmed, every exchange is completed by paying its owner a share of
the recorded balances.
-/

namespace Gmsol.Treasury

open Gmsol.Container Gmsol.Fallible Gmsol.FixedArray Gmsol.Model Gmsol.Store

/-- Why a call to the bank fails. -/
inductive BankError
  | core (error : CoreError)
  | container (error : GeneralError)
  | stopped (panic : Panic)
  deriving DecidableEq

def maxTokens : ℕ := 16

structure TokenBalance where
  amount : ℕ
  deriving DecidableEq, Repr

instance : Inhabited TokenBalance := ⟨⟨0⟩⟩

structure GtBank (Token : Type) where
  remainingConfirmedGtAmount : ℕ
  balances : FixedMap maxTokens Token TokenBalance

/-- What a claim pays out, token by token. -/
abbrev Payments (Token : Type) : Type := List (Token × ℕ)

/-- `u64::checked_mul_div`. -/
def checkedMulDivU64 (value numerator denominator : ℕ) : Option ℕ :=
  if denominator = 0 then none
  else if value * numerator / denominator ≤ maxU64 then
    some (value * numerator / denominator)
  else none

/-- `u64::try_from`. -/
def tryIntoU64 (value : ℕ) : Option ℕ := if value ≤ maxU64 then some value else none

namespace GtBank

variable {Token : Type} [LinearOrder Token] [Inhabited Token]

def zeroed : GtBank Token where
  remainingConfirmedGtAmount := 0
  balances := FixedMap.zeroed

def getBalance (bank : GtBank Token) (token : Token) :
    Except BankError (Option ℕ) := do
  let found ← (bank.balances.get id token).mapError .stopped
  .ok (found.map TokenBalance.amount)

/-- Writes through the mutable reference to a balance. -/
def setBalance (bank : GtBank Token) (token : Token) (amount : ℕ) :
    Except BankError (GtBank Token) := do
  let (balances, _) ←
    (bank.balances.getMut id token fun _ => ⟨amount⟩).mapError .stopped
  .ok { bank with balances }

def insertBalance (bank : GtBank Token) (token : Token) :
    Except BankError (GtBank Token) := do
  let (balances, outcome) ← (bank.balances.insertWithOptions id token
    ⟨0⟩ true).mapError .stopped
  let _ ← outcome.mapError .container
  .ok { bank with balances }

def balanceOrInsert (bank : GtBank Token) (token : Token) :
    Except BankError (GtBank Token) := do
  let found ← bank.getBalance token
  if found.isNone then bank.insertBalance token else .ok bank

def recordTransferredIn (bank : GtBank Token) (token : Token) (amount : ℕ) :
    Except BankError (GtBank Token) := do
  let bank ← bank.balanceOrInsert token
  let found ← bank.getBalance token
  let balance ← okOr found (.core .notFound)
  let nextBalance ← (checkedAddU64 balance amount).mapError .core
  bank.setBalance token nextBalance

def recordTransferredOut (bank : GtBank Token) (token : Token) (amount : ℕ) :
    Except BankError (GtBank Token) :=
  if amount = 0 then .ok bank
  else do
    let found ← bank.getBalance token
    let balance ← okOr found (.core .notFound)
    let nextBalance ←
      (checkedSubU64 balance amount .notEnoughTokenAmount).mapError .core
    bank.setBalance token nextBalance

def recordAllTransferredOut (bank : GtBank Token) :
    Except BankError (GtBank Token) := do
  let balances ← bank.balances.clear.mapError .stopped
  .ok { bank with balances }

/-- One turn of the loop that reserves the balances. -/
def reserveBalance [MarketNum] (numerator denominator : ℕ) (balance : TokenBalance) :
    Except BankError TokenBalance :=
  if balance.amount = 0 then .ok balance
  else do
    let reserved ← okOr ((checkedMulDiv balance.amount numerator denominator).bind
      tryIntoU64) (.core .tokenAmountOverflow)
    ensure (reserved ≤ balance.amount) (.core .internal)
    return ⟨reserved⟩

/-- What a turn of the loop leaves in the place of a balance. -/
def reservedOr [MarketNum] (numerator denominator : ℕ) (_ : Token) (balance : TokenBalance) :
    TokenBalance :=
  ((reserveBalance numerator denominator balance).toOption).getD balance

/-- Reserves every balance in turn.  A failure aborts the call. -/
def reserveBalances [MarketNum] (bank : GtBank Token)
    (numerator denominator : ℕ) : Except BankError (GtBank Token) := do
  ensure (numerator ≤ denominator) (.core .invalidArgument)
  let _ ← bank.balances.entries.mapM fun entry =>
    reserveBalance numerator denominator entry.2
  return { bank with
    balances := bank.balances.entriesMut (reservedOr numerator denominator) }

def uncheckedConfirm (bank : GtBank Token) (gtAmount : ℕ) : GtBank Token :=
  { bank with remainingConfirmedGtAmount := gtAmount }

def recordClaimed (bank : GtBank Token) (gtAmount : ℕ) :
    Except BankError (GtBank Token) := do
  let nextAmount ← (checkedSubU64 bank.remainingConfirmedGtAmount gtAmount
    .invalidArgument).mapError .core
  .ok { bank with remainingConfirmedGtAmount := nextAmount }

def tokens (bank : GtBank Token) : List Token :=
  bank.balances.entries.map Prod.fst

/-! ## Completing an exchange -/

/-- One turn of the loop over the tokens of the bank. -/
def payToken (gtAmount totalGtAmount : ℕ)
    (state : GtBank Token × Payments Token) (token : Token) :
    Except BankError (GtBank Token × Payments Token) := do
  let found ← state.1.getBalance token
  let balance ← okOr found (.stopped .expectFailed)
  if balance = 0 then .ok state
  else do
    let amount ← okOr (checkedMulDivU64 balance gtAmount totalGtAmount)
      (.core .tokenAmountOverflow)
    let bank ← state.1.recordTransferredOut token amount
    .ok (bank, state.2 ++ [(token, amount)])

/-- Pays the owner of an exchange of `gtAmount`, whose account is closed. -/
def completeGtExchange (bank : GtBank Token) (gtAmount : ℕ) :
    Except BankError (GtBank Token × Payments Token) :=
  if gtAmount = 0 then .ok (bank, [])
  else do
    let totalGtAmount := bank.remainingConfirmedGtAmount
    ensure (gtAmount ≤ totalGtAmount) (.core .internal)
    let (bank, payments) ←
      bank.tokens.foldlM (payToken gtAmount totalGtAmount) (bank, [])
    let bank ← bank.recordClaimed gtAmount
    .ok (bank, payments)

/-- Completes exchanges one after the other and lists what each was paid. -/
def completeGtExchanges (bank : GtBank Token) :
    List ℕ → Except BankError (GtBank Token × List (Payments Token))
  | [] => .ok (bank, [])
  | gtAmount :: gtAmounts => do
      let (bank, payments) ← bank.completeGtExchange gtAmount
      let (bank, rest) ← completeGtExchanges bank gtAmounts
      .ok (bank, payments :: rest)

/-! ## The states of a bank -/

/-- The calls that change a bank. -/
inductive Operation (Token : Type)
  | transferredIn (token : Token) (amount : ℕ)
  | transferredOut (token : Token) (amount : ℕ)
  | allTransferredOut
  | reserve (numerator denominator : ℕ)
  | confirm (gtAmount : ℕ)
  | complete (gtAmount : ℕ)

def perform [MarketNum] (bank : GtBank Token) :
    Operation Token → Except BankError (GtBank Token)
  | .transferredIn token amount => bank.recordTransferredIn token amount
  | .transferredOut token amount => bank.recordTransferredOut token amount
  | .allTransferredOut => bank.recordAllTransferredOut
  | .reserve numerator denominator => bank.reserveBalances numerator denominator
  | .confirm gtAmount => .ok (bank.uncheckedConfirm gtAmount)
  | .complete gtAmount => (bank.completeGtExchange gtAmount).map Prod.fst

/-- A bank that calls have led to from a new one. -/
inductive Reached [MarketNum] : GtBank Token → Prop
  | zeroed : Reached zeroed
  | perform {bank after : GtBank Token} {operation : Operation Token}
      (hreached : Reached bank) (hperform : bank.perform operation = .ok after) :
      Reached after

/-- The recorded balance of a token, none when the bank has no such token. -/
def balance (bank : GtBank Token) (token : Token) : ℕ :=
  match bank.getBalance token with
  | .ok (some amount) => amount
  | _ => 0

end GtBank

/-- What the payments amount to in one token. -/
def paidIn {Token : Type} [DecidableEq Token] (payments : Payments Token)
    (token : Token) : ℕ :=
  (payments.map fun payment => if payment.1 = token then payment.2 else 0).sum

end Gmsol.Treasury
