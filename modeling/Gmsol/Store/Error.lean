import Gmsol.Model.Num

/-!
# Errors of the store program
-/

namespace Gmsol.Store

inductive CoreError
  | internal
  | invalidArgument
  | preconditionsAreNotMet
  | notFound
  | permissionDenied
  | exceedMaxLengthLimit
  | alreadyExist
  | notEnoughTokenAmount
  | tokenAmountOverflow
  | valueOverflow
  | invalidGTConfig
  | gtStateHasBeenInitialized
  | invalidUserAccount
  | userAccountHasBeenInitialized
  | invalidSwapPath
  | invalidSwapPathLength
  | notEnoughSwapMarkets
  | marketAccountIsNotProvided
  | storeMismatched
  | disabledMarket
  | emptyOrder
  | invalidTriggerPrice
  | insufficientOutputAmount
  | missingOraclePrice
  | syntheticTokenPriceIsNotAllowed
  | tokenMintMismatched
  | accountDiscriminatorMismatch
  | sameOutputTokensNotMerged
  | missingFinalOutputToken
  | missingPoolTokens
  | claimableCollateralForHoldingCannotBeInOutputTokens
  | adlNotRequired
  | invalidAdl
  | invalidCollateralToken
  | marketMismatched
  | tokenMintNotProvided
  | tokenAccountNotProvided
  | invalidPosition
  | marketTokenMintMismatched
  | missingInitialCollateralToken
  | positionIsRequired
  | eventBufferNotProvided
  | oracleNotUpdated
  | invalidOracleSlot
  | invalidOracleTimestampsRange
  | oracleTimestampsAreSmallerThanRequired
  | oracleTimestampsAreLargerThanRequired
  | adlNotEnabled
  | accountNotEnoughKeys
  | requireGteViolated
  | invalidReceiverForFirstDeposit
  | notEnoughMarketTokenAmountForFirstDeposit
  | notEnoughGlvTokenAmountForFirstDeposit
  | glvNegativeMarketPoolValue
  | failedToCalculateGlvValueForMarket
  | failedToCalculateGlvAmountToMint
  | failedToCalculateMarketTokenAmountToBurn
  | exceedMaxGlvMarketTokenBalanceAmount
  | exceedMaxGlvMarketTokenBalanceValue
  | glvShiftIntervalNotYetPassed
  | glvShiftValueNotLargeEnough
  | glvShiftMaxPriceImpactExceeded
  | invalidTradeId
  | invalidTradeDeltaSize
  | invalidTradeDeltaTokens
  | invalidBorrowingFactor
  | invalidFundingFactors
  | model (error : Model.Error)
  | panic
deriving DecidableEq, Repr

abbrev Result (α : Type) := Except CoreError α

end Gmsol.Store
