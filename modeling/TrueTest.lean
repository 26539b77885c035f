import TrueTest.Execution.Remaining
import TrueTest.Engine.Halt
import TrueTest.Providers.KillSwitches
import TrueTest.Providers.KlineFeed
import TrueTest.Engine.Resync
import TrueTest.Engine.Unwind
import TrueTest.Engine.Lots
import TrueTest.Core.EventSeek
import TrueTest.Execution.BridgeShutdown
import TrueTest.Execution.BridgeReports
import TrueTest.Providers.BitgetUserData
import TrueTest.Analytics.Ledgers
import TrueTest.Exits.VenueBrackets
import TrueTest.Engine.Deferred
import TrueTest.Risk.OrderRate
import TrueTest.Risk.FuturesRiskCheck
import TrueTest.Risk.SpreadBreaker
import TrueTest.Providers.HybridExecutors
import TrueTest.Engine.Statuses
import TrueTest.Providers.DepthMap
import TrueTest.Backtest.LookAhead
import TrueTest.MarketMaker.Ladder
import TrueTest.Data.IlpWriter
import TrueTest.Simulation.GBMGenerator
import TrueTest.Analytics.ShadowTracker
import TrueTest.Analytics.EquityCurve
import TrueTest.Strategy.MeanReversion
