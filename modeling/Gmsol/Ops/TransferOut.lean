import Gmsol.Action.Decrease
import Gmsol.SwapPath.Execute

/-!
# Amounts to transfer out

The execution of an order gathers the amounts that leave the markets in a record
with a field for each receiver.  The transfers themselves are made later, and they
read nothing but this record.
-/

namespace Gmsol.Ops

open Fallible Store

inductive CollateralReceiver
  | collateral
  | claimableForHolding
  | claimableForUser
  deriving DecidableEq, Repr

structure TransferOut where
  executed : Bool := false
  finalOutputToken : ℕ := 0
  secondaryOutputToken : ℕ := 0
  longToken : ℕ := 0
  shortToken : ℕ := 0
  longTokenForClaimableAccountOfUser : ℕ := 0
  shortTokenForClaimableAccountOfUser : ℕ := 0
  longTokenForClaimableAccountOfHolding : ℕ := 0
  shortTokenForClaimableAccountOfHolding : ℕ := 0
  deriving DecidableEq, Repr

/-- A 64-bit amount of a wider number. -/
def toAmount (amount : ℕ) : Store.Result ℕ := do
  ensure (amount ≤ Model.maxU64) .tokenAmountOverflow
  return amount

/-- The checked sum of two amounts. -/
def addAmount (amount added : ℕ) : Store.Result ℕ := do
  ensure (amount + added ≤ Model.maxU64) .tokenAmountOverflow
  return amount + added

namespace TransferOut

def totalLongTokenAmount (self : TransferOut) : Store.Result ℕ := do
  let amount ← addAmount self.longToken self.longTokenForClaimableAccountOfUser
  addAmount amount self.longTokenForClaimableAccountOfHolding

def totalShortTokenAmount (self : TransferOut) : Store.Result ℕ := do
  let amount ← addAmount self.shortToken self.shortTokenForClaimableAccountOfUser
  addAmount amount self.shortTokenForClaimableAccountOfHolding

def transferOut (self : TransferOut) (isSecondary : Bool) (amount : ℕ) :
    Store.Result TransferOut :=
  if amount = 0 then .ok self
  else if isSecondary then do
    let secondaryOutputToken ← addAmount self.secondaryOutputToken amount
    return { self with secondaryOutputToken }
  else do
    let finalOutputToken ← addAmount self.finalOutputToken amount
    return { self with finalOutputToken }

def transferOutCollateral (self : TransferOut) (isLong : Bool)
    (receiver : CollateralReceiver) (amount : ℕ) : Store.Result TransferOut :=
  if amount = 0 then .ok self
  else match receiver, isLong with
    | .collateral, true => do
      let longToken ← addAmount self.longToken amount
      return { self with longToken }
    | .collateral, false => do
      let shortToken ← addAmount self.shortToken amount
      return { self with shortToken }
    | .claimableForHolding, true => do
      let longTokenForClaimableAccountOfHolding ←
        addAmount self.longTokenForClaimableAccountOfHolding amount
      return { self with longTokenForClaimableAccountOfHolding }
    | .claimableForHolding, false => do
      let shortTokenForClaimableAccountOfHolding ←
        addAmount self.shortTokenForClaimableAccountOfHolding amount
      return { self with shortTokenForClaimableAccountOfHolding }
    | .claimableForUser, true => do
      let longTokenForClaimableAccountOfUser ←
        addAmount self.longTokenForClaimableAccountOfUser amount
      return { self with longTokenForClaimableAccountOfUser }
    | .claimableForUser, false => do
      let shortTokenForClaimableAccountOfUser ←
        addAmount self.shortTokenForClaimableAccountOfUser amount
      return { self with shortTokenForClaimableAccountOfUser }

def transferOutFundingAmounts (self : TransferOut) (longAmount shortAmount : ℕ) :
    Store.Result TransferOut := do
  let longAmount ← toAmount longAmount
  let afterLong ← self.transferOutCollateral true .collateral longAmount
  let shortAmount ← toAmount shortAmount
  afterLong.transferOutCollateral false .collateral shortAmount

def processClaimableCollateralForDecrease (self : TransferOut)
    (report : Model.DecreasePositionReport) : Store.Result TransferOut := do
  ensure (report.forHolding.outputTokenAmount = 0)
    .claimableCollateralForHoldingCannotBeInOutputTokens
  let holdingAmount ← toAmount report.forHolding.secondaryOutputTokenAmount
  let afterHolding ← self.transferOutCollateral report.isSecondaryOutputTokenLong
    .claimableForHolding holdingAmount
  let userAmount ← toAmount report.forUser.outputTokenAmount
  let afterUser ← afterHolding.transferOutCollateral report.isOutputTokenLong
    .claimableForUser userAmount
  let secondaryUserAmount ← toAmount report.forUser.secondaryOutputTokenAmount
  afterUser.transferOutCollateral report.isSecondaryOutputTokenLong
    .claimableForUser secondaryUserAmount

/-! ## Fields -/

/-- The amount of one side, if the side is meant. -/
def onSide (isMeant : Bool) (amount : ℕ) : ℕ := if isMeant then amount else 0

theorem addAmount_eq_ok {amount added sum : ℕ} (hadd : addAmount amount added = .ok sum) :
    sum = amount + added := by
  simp only [addAmount, bind_eq_ok, ensure_eq_ok, pure_eq_ok] at hadd
  obtain ⟨_, _, rfl⟩ := hadd
  rfl

theorem toAmount_eq_ok {amount narrow : ℕ} (hnarrow : toAmount amount = .ok narrow) :
    narrow = amount := by
  simp only [toAmount, bind_eq_ok, ensure_eq_ok, pure_eq_ok] at hnarrow
  obtain ⟨_, _, rfl⟩ := hnarrow
  rfl

variable {self after : TransferOut} {amount : ℕ}

theorem transferOut_eq_ok {isSecondary : Bool}
    (hout : self.transferOut isSecondary amount = .ok after) :
    after = { self with
      finalOutputToken := self.finalOutputToken + onSide (!isSecondary) amount
      secondaryOutputToken :=
        self.secondaryOutputToken + onSide isSecondary amount } := by
  by_cases hzero : amount = 0
  · rw [transferOut, if_pos hzero] at hout
    cases hout
    simp [onSide, hzero]
  · rw [transferOut, if_neg hzero] at hout
    cases isSecondary with
    | true =>
        rw [if_pos rfl, bind_eq_ok] at hout
        obtain ⟨sum, hsum, hafter⟩ := hout
        rw [← pure_eq_ok.mp hafter, addAmount_eq_ok hsum]
        rfl
    | false =>
        rw [if_neg Bool.false_ne_true, bind_eq_ok] at hout
        obtain ⟨sum, hsum, hafter⟩ := hout
        rw [← pure_eq_ok.mp hafter, addAmount_eq_ok hsum]
        rfl

theorem transferOutCollateral_eq_ok {isLong : Bool} {receiver : CollateralReceiver}
    (hout : self.transferOutCollateral isLong receiver amount = .ok after) :
    after = { self with
      longToken := self.longToken + onSide (isLong && receiver = .collateral) amount
      shortToken := self.shortToken + onSide (!isLong && receiver = .collateral) amount
      longTokenForClaimableAccountOfUser := self.longTokenForClaimableAccountOfUser +
        onSide (isLong && receiver = .claimableForUser) amount
      shortTokenForClaimableAccountOfUser := self.shortTokenForClaimableAccountOfUser +
        onSide (!isLong && receiver = .claimableForUser) amount
      longTokenForClaimableAccountOfHolding :=
        self.longTokenForClaimableAccountOfHolding +
          onSide (isLong && receiver = .claimableForHolding) amount
      shortTokenForClaimableAccountOfHolding :=
        self.shortTokenForClaimableAccountOfHolding +
          onSide (!isLong && receiver = .claimableForHolding) amount } := by
  unfold transferOutCollateral at hout
  by_cases hzero : amount = 0
  · rw [if_pos hzero] at hout
    cases hout
    simp [onSide, hzero]
  · rw [if_neg hzero] at hout
    cases receiver <;> cases isLong <;>
      (rw [bind_eq_ok] at hout
       obtain ⟨sum, hsum, hafter⟩ := hout
       rw [← pure_eq_ok.mp hafter, addAmount_eq_ok hsum]
       simp [onSide])

theorem transferOutFundingAmounts_eq_ok {longAmount shortAmount : ℕ}
    (hout : self.transferOutFundingAmounts longAmount shortAmount = .ok after) :
    after = { self with
      longToken := self.longToken + longAmount
      shortToken := self.shortToken + shortAmount } := by
  simp only [transferOutFundingAmounts, bind_eq_ok] at hout
  obtain ⟨long, hlong, afterLong, hafterLong, short, hshort, hafter⟩ := hout
  rw [transferOutCollateral_eq_ok hafter, transferOutCollateral_eq_ok hafterLong,
    toAmount_eq_ok hlong, toAmount_eq_ok hshort]
  simp [onSide]

/-- The claimable collateral goes to the user, and the holding's part of it, which is
never in the output token, to the holding. -/
theorem processClaimableCollateralForDecrease_eq_ok
    {report : Model.DecreasePositionReport}
    (hout : self.processClaimableCollateralForDecrease report = .ok after) :
    report.forHolding.outputTokenAmount = 0 ∧ after = { self with
      longTokenForClaimableAccountOfUser := self.longTokenForClaimableAccountOfUser +
        onSide report.isOutputTokenLong report.forUser.outputTokenAmount +
        onSide report.isSecondaryOutputTokenLong
          report.forUser.secondaryOutputTokenAmount
      shortTokenForClaimableAccountOfUser := self.shortTokenForClaimableAccountOfUser +
        onSide (!report.isOutputTokenLong) report.forUser.outputTokenAmount +
        onSide (!report.isSecondaryOutputTokenLong)
          report.forUser.secondaryOutputTokenAmount
      longTokenForClaimableAccountOfHolding :=
        self.longTokenForClaimableAccountOfHolding +
          onSide report.isSecondaryOutputTokenLong
            report.forHolding.secondaryOutputTokenAmount
      shortTokenForClaimableAccountOfHolding :=
        self.shortTokenForClaimableAccountOfHolding +
          onSide (!report.isSecondaryOutputTokenLong)
            report.forHolding.secondaryOutputTokenAmount } := by
  simp only [processClaimableCollateralForDecrease, bind_eq_ok, ensure_eq_ok] at hout
  obtain ⟨_, hnone, holding, hholding, afterHolding, hafterHolding, user, huser,
    afterUser, hafterUser, secondaryUser, hsecondaryUser, hafter⟩ := hout
  refine ⟨hnone, ?_⟩
  rw [transferOutCollateral_eq_ok hafter, transferOutCollateral_eq_ok hafterUser,
    transferOutCollateral_eq_ok hafterHolding, toAmount_eq_ok hholding,
    toAmount_eq_ok huser, toAmount_eq_ok hsecondaryUser]
  simp [onSide]

theorem totalLongTokenAmount_eq_ok {total : ℕ}
    (htotal : self.totalLongTokenAmount = .ok total) :
    total = self.longToken + self.longTokenForClaimableAccountOfUser +
      self.longTokenForClaimableAccountOfHolding := by
  simp only [totalLongTokenAmount, bind_eq_ok] at htotal
  obtain ⟨sum, hsum, htotal⟩ := htotal
  rw [addAmount_eq_ok htotal, addAmount_eq_ok hsum]

theorem totalShortTokenAmount_eq_ok {total : ℕ}
    (htotal : self.totalShortTokenAmount = .ok total) :
    total = self.shortToken + self.shortTokenForClaimableAccountOfUser +
      self.shortTokenForClaimableAccountOfHolding := by
  simp only [totalShortTokenAmount, bind_eq_ok] at htotal
  obtain ⟨sum, hsum, htotal⟩ := htotal
  rw [addAmount_eq_ok htotal, addAmount_eq_ok hsum]

end TransferOut

end Gmsol.Ops
