import ExchangeCore.Model.Differential
import ExchangeCore.Risk.ExposureTracking
import ExchangeCore.Risk.PositionLimit
import ExchangeCore.Risk.Positions
import ExchangeCore.Risk.Rejections
import ExchangeCore.Risk.Halts
import ExchangeCore.Risk.OrderLimits
import ExchangeCore.Core.FillLedger
import ExchangeCore.Core.SelfTrades
import ExchangeCore.Core.Listeners
import ExchangeCore.Core.Reservation
import ExchangeCore.Core.DigestedState
import ExchangeCore.Net.TcpGateway
import ExchangeCore.Journal.UsableRecovery
import ExchangeCore.Journal.DurableRecords
import ExchangeCore.MarketFeed
import ExchangeCore.Risk.RateLimit
import ExchangeCore.Journal.ListedInstruments
import ExchangeCore.Core.LadderMap
import ExchangeCore.Risk.ExactChecks
import ExchangeCore.Core.LevelTotals
import ExchangeCore.Net.Outbound
import ExchangeCore.Risk.KillSwitchRuns
import ExchangeCore.Core.WholeLots
import ExchangeCore.Core.SafeInstruments
import ExchangeCore.Util.Histogram
