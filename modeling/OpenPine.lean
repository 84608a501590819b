import OpenPine.Jobs.Leases
import OpenPine.Jobs.Idempotency
import OpenPine.Jobs.EventStream
import OpenPine.Jobs.ListJobs
import OpenPine.Jobs.Serialization
import OpenPine.Jobs.SchedulerLocks
import OpenPine.Data.ChunkedFetch
import OpenPine.Jobs.Terminal
import OpenPine.Recovery.LatestValid
import OpenPine.State.NoLostUpdates
import OpenPine.State.IntervalPolicy
import OpenPine.Gateway.Supervision
import OpenPine.Gateway.RestartBudget
import OpenPine.Gateway.TerminalFailSafe
import OpenPine.Gateway.LivePreview
import OpenPine.Orchestrator.CacheTransparency
import OpenPine.Orchestrator.SingleFlight
import OpenPine.Runtime.ProtocolAgreement
import OpenPine.Strategies.FailedCreation
import OpenPine.Strategies.Starts
import OpenPine.Identity.WriteOnce
import OpenPine.Backtests.LiveConsistency
import OpenPine.Backtests.PermitLeases
import OpenPine.Backtests.TerminalStatus
import OpenPine.Backtests.IdempotentRuns
import OpenPine.Backtests.FailedRequest
import OpenPine.Storage.SharedConnection
import OpenPine.Storage.Migrations
import OpenPine.Storage.Backup
import OpenPine.Storage.Redaction
import OpenPine.Orders.OrderManager
import OpenPine.Workers.StrategyFanout
import OpenPine.Execution.AcceptedOrders
import OpenPine.Workers.DefaultPath
import OpenPine.Compare.EqualCurves
import OpenPine.Compare.EqualTrades
import OpenPine.Streams.Subscriptions
import OpenPine.Execution.LiveGate
import OpenPine.Risk.MaxOrdersPerMinute
import OpenPine.Jobs.DataBackfill
import OpenPine.Jobs.OptimizerSearch
import OpenPine.Runtime.Mtf
import OpenPine.Runtime.ImportGuard
