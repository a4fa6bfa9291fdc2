import Backtester.Library.MachineInt
import Backtester.Library.StableSort
import Backtester.Library.KWayMerge
import Backtester.Library.MinQueue
import Backtester.Library.History
import Backtester.Library.Run
import Backtester.Library.TreeMap
import Backtester.OrderBook
import Backtester.Account
import Backtester.ExchangeSimulator
import Backtester.TradeLog
import Backtester.Stats
import Backtester.Clock
import Backtester.Delivery
import Backtester.MarketTruth
import Backtester.Lifecycle
import Backtester.Tracking
import Backtester.ExchangeOps
import Backtester.BucketIndex
import Backtester.StateMachine
import Backtester.CancelInFlight
import Backtester.Quantities
import Backtester.TradeVolume
import Backtester.Ledger
import Backtester.Posting
import Backtester.Books
import Backtester.Retention
import Backtester.KillSwitch
import Backtester.TimeOrder
import Backtester.Isolation
import Backtester.Turns
import Backtester.DepthModes
import Backtester.OpenOrders
import Backtester.Wakeups
import Backtester.Reaction
import Backtester.QueueFills
import Backtester.VenueQueue
import Backtester.QueueEntry
import Backtester.QueueTracking
import Backtester.RejectedUpdates
import Backtester.PricePriority
import Backtester.Library.Fold
import Backtester.CashConservation
import Backtester.Mirror
import Backtester.Extremes
import Backtester.Drawdown
import Backtester.ClosedTrades
import Backtester.Sessions
import Backtester.CancelAcks
import Backtester.ReportProtocol
import Backtester.FastPaths
import Backtester.RingBuffer
import Backtester.BookLevels
import Backtester.QueueCoherence
import Backtester.Library.ReadAhead
import Backtester.Library.Series
import Backtester.ArrowTicks
import Backtester.ArrowUpdates
import Backtester.Library.SyncChannel
import Backtester.Prefetch
import Backtester.LookAhead
import Backtester.Exposure
import Backtester.PositionLimit
import Backtester.Library.LazyQueue
import Backtester.Streaming
import Backtester.Materialized
import Backtester.Library.Descent
import Backtester.Tuner
import Backtester.BatchDelay
import Backtester.Termination
import Backtester.Calendar
import Backtester.VenueReplay
import Backtester.FillReports
import Backtester.FillOrigin
import Backtester.Library.Replay
import Backtester.Bookkeeping
import Backtester.Settlement
import Backtester.Dialogue
import Backtester.Commands
import Backtester.Library.Bisim
import Backtester.Twins
import Backtester.SymbolIds
import Backtester.PyStrategy
import Backtester.Runner
