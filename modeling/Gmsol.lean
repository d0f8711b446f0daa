import Gmsol.Library.Fallible
import Gmsol.Model.Num
import Gmsol.Model.Price
import Gmsol.Model.Pool
import Gmsol.Model.Params
import Gmsol.Model.Market
import Gmsol.Model.LiquidityMarket
import Gmsol.Model.Position
import Gmsol.Action.Swap
import Gmsol.Action.Liquidity
import Gmsol.Action.Increase
import Gmsol.Action.CollateralProcessor
import Gmsol.Action.Decrease
import Gmsol.Action.FeeState
import Gmsol.System.World
import Gmsol.Library.Run
import Gmsol.Accounting.Pools
import Gmsol.Accounting.Conservation
import Gmsol.Accounting.Positions
import Gmsol.Accounting.Processor
import Gmsol.Accounting.SwapValue
import Gmsol.Accounting.Decrease
import Gmsol.Accounting.ReportedFees
import Gmsol.Accounting.SplitClose
import Gmsol.Accounting.PositionImpact
import Gmsol.Accounting.ImpactCycle
import Gmsol.Accounting.CostPayment
import Gmsol.Accounting.ExecutionPrice
import Gmsol.Accounting.ProviderShares
import Gmsol.System.Steps
import Gmsol.Library.Aggregate
import Gmsol.System.Aggregates
import Gmsol.System.OpenInterest
import Gmsol.System.Borrowing
import Gmsol.System.Funding
import Gmsol.System.FundingRate
import Gmsol.System.Solvency
import Gmsol.Container.Runs
import Gmsol.Store.Transaction
import Gmsol.SwapPath.Acceptance
import Gmsol.Store.GtFees
import Gmsol.Store.RoleTable
import Gmsol.Store.FixedStr
import Gmsol.Timelock.RoundTrip
import Gmsol.Timelock.Safety
import Gmsol.Oracle.Decimal
import Gmsol.Oracle.Report
import Gmsol.Oracle.Narrowing
import Gmsol.Oracle.PriceLaws
import Gmsol.Oracle.TokenMap
import Gmsol.Treasury.BuybackCap
import Gmsol.User.Laws
import Gmsol.Bundle.Sizes
import Gmsol.MarketGraph.Optimality
import Gmsol.Ops.Settlement
import Gmsol.Ops.GlvRuns
import Gmsol.Sdk.Fixed
import Gmsol.Traits.Program
import Gmsol.Ops.SoftFailure
import Gmsol.Ops.CutLimits
import Gmsol.Ops.VaultBacking
import Gmsol.Oracle.FeedPrices
