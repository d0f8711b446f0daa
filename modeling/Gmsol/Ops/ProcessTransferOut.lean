import Gmsol.Ops.TransferOut
import Gmsol.SwapPath.Holdings

/-!
# Processing the transfers

The recorded amounts are sent out of the vaults one after the other.  Each transfer
is recorded in the market it is made for: the final output in the market where the
swap has left it, everything else in the market of the order.
-/

namespace Gmsol.Ops

open Fallible Container Store SwapPath

/-- The market accounts by their market tokens. -/
abbrev MarketAccounts : Type := IndexMap Pubkey RevertibleMarket

inductive Receiver
  | finalOutput
  | long
  | short
  | claimableLongForUser
  | claimableShortForUser
  | claimableForHolding
  deriving DecidableEq, Repr

/-- A transfer out of the vault of a token, made for a market. -/
structure Transfer where
  receiver : Receiver
  market : Pubkey
  token : Pubkey
  vault : Pubkey
  account : Pubkey
  amount : ℕ
  deriving DecidableEq, Repr

/-- The accounts after the transfers so far, and these transfers. -/
structure Sending where
  accounts : MarketAccounts
  sent : List Transfer

/-- Transfers an amount that is not zero, and records it in the market. -/
def marketTransferOut (store : Pubkey) (sending : Sending) (transfer : Transfer) :
    Store.Result Sending := do
  let market ← okOr (sending.accounts.get transfer.market) .accountDiscriminatorMismatch
  let marketMeta ← market.validatedMeta store
  ensure (marketMeta.isCollateralToken transfer.token = true) .invalidCollateralToken
  if transfer.amount = 0 then return sending
  else do
    let recorded ← market.recordTransferredOutByToken transfer.token transfer.amount
    return {
      accounts := sending.accounts.set transfer.market recorded
      sent := sending.sent ++ [transfer] }

/-- A receiver with the accounts that are needed to send something to it. -/
structure Payee where
  receiver : Receiver
  market : Option Pubkey
  token : Option Pubkey
  vault : Option Pubkey
  account : Option Pubkey

namespace Payee

/-- The accounts are only looked at when there is something to send. -/
def send (payee : Payee) (store : Pubkey) (amount : ℕ) (sending : Sending) :
    Store.Result Sending :=
  if amount = 0 then .ok sending
  else do
    let token ← okOr payee.token .tokenMintNotProvided
    let market ← okOr payee.market .marketMismatched
    let vault ← okOr payee.vault .tokenAccountNotProvided
    let account ← okOr payee.account .tokenAccountNotProvided
    marketTransferOut store sending ⟨payee.receiver, market, token, vault, account, amount⟩

end Payee

structure ProcessTransferOutOperation where
  store : Pubkey
  market : Pubkey
  isPnlTokenLongToken : Bool
  finalOutputMarket : Option Pubkey
  finalOutputToken : Option Pubkey
  finalOutputTokenVault : Option Pubkey
  finalOutputTokenAccount : Option Pubkey
  longToken : Option Pubkey
  longTokenVault : Option Pubkey
  longTokenAccount : Option Pubkey
  shortToken : Option Pubkey
  shortTokenVault : Option Pubkey
  shortTokenAccount : Option Pubkey
  claimableLongTokenAccountForUser : Option Pubkey
  claimableShortTokenAccountForUser : Option Pubkey
  claimablePnlTokenAccountForHolding : Option Pubkey
  transferOut : TransferOut

namespace ProcessTransferOutOperation

variable (self : ProcessTransferOutOperation)

def finalOutput : Payee :=
  ⟨.finalOutput, self.finalOutputMarket, self.finalOutputToken,
    self.finalOutputTokenVault, self.finalOutputTokenAccount⟩

/-- A payee in the long token of the market. -/
def inLongToken (receiver : Receiver) (account : Option Pubkey) : Payee :=
  ⟨receiver, some self.market, self.longToken, self.longTokenVault, account⟩

/-- A payee in the short token of the market. -/
def inShortToken (receiver : Receiver) (account : Option Pubkey) : Payee :=
  ⟨receiver, some self.market, self.shortToken, self.shortTokenVault, account⟩

/-- The secondary output is in the pnl token and is sent together with it. -/
def poolTokenAmounts : Store.Result (ℕ × ℕ) :=
  if self.isPnlTokenLongToken then do
    let long ← addAmount self.transferOut.secondaryOutputToken self.transferOut.longToken
    return (long, self.transferOut.shortToken)
  else do
    let short ←
      addAmount self.transferOut.secondaryOutputToken self.transferOut.shortToken
    return (self.transferOut.longToken, short)

def execute (accounts : MarketAccounts) : Store.Result Sending := do
  let afterFinal ← self.finalOutput.send self.store self.transferOut.finalOutputToken
    ⟨accounts, []⟩
  let amounts ← self.poolTokenAmounts
  let afterLong ← (self.inLongToken .long self.longTokenAccount).send self.store amounts.1
    afterFinal
  let afterShort ← (self.inShortToken .short self.shortTokenAccount).send self.store
    amounts.2 afterLong
  let afterLongUser ← (self.inLongToken .claimableLongForUser
    self.claimableLongTokenAccountForUser).send self.store
    self.transferOut.longTokenForClaimableAccountOfUser afterShort
  let afterShortUser ← (self.inShortToken .claimableShortForUser
    self.claimableShortTokenAccountForUser).send self.store
    self.transferOut.shortTokenForClaimableAccountOfUser afterLongUser
  let afterLongHolding ← (self.inLongToken .claimableForHolding
    self.claimablePnlTokenAccountForHolding).send self.store
    self.transferOut.longTokenForClaimableAccountOfHolding afterShortUser
  (self.inShortToken .claimableForHolding
    self.claimablePnlTokenAccountForHolding).send self.store
    self.transferOut.shortTokenForClaimableAccountOfHolding afterLongHolding

end ProcessTransferOutOperation

end Gmsol.Ops
