import HftExchange.Auxiliary.AuditLog
import HftExchange.Auxiliary.AuditReaders
import HftExchange.Auxiliary.BookBalance
import HftExchange.Auxiliary.Counters
import HftExchange.Auxiliary.OrderManager
import HftExchange.Base.AppendLog
import HftExchange.Base.AppendLogRun
import HftExchange.Base.Binary64
import HftExchange.Base.Blocks
import HftExchange.Base.Checked
import HftExchange.Base.Dict
import HftExchange.Base.Framing
import HftExchange.Base.Linked
import HftExchange.Base.Packed
import HftExchange.Base.Progress
import HftExchange.Base.Ring
import HftExchange.Base.Runs
import HftExchange.Base.Seqlock
import HftExchange.Base.SeqlockCalls
import HftExchange.Base.SeqlockRun
import HftExchange.Base.Sums
import HftExchange.Base.Words
import HftExchange.Book.Cancel
import HftExchange.Book.Ladder
import HftExchange.Book.LadderExact
import HftExchange.Book.LadderSearch
import HftExchange.Book.LimitOps
import HftExchange.Book.Locality
import HftExchange.Book.MatchRefine
import HftExchange.Book.MatchTrade
import HftExchange.Book.OrderBook
import HftExchange.Book.Priority
import HftExchange.Book.Reference
import HftExchange.Book.Rep
import HftExchange.Book.RepUpdate
import HftExchange.Book.Run
import HftExchange.Book.Safety
import HftExchange.Book.Sweep
import HftExchange.Core.LockFreeQueue
import HftExchange.Core.MemoryPool
import HftExchange.Core.PoolContract
import HftExchange.Core.RingPool
import HftExchange.Engine.Audit
import HftExchange.Engine.DropCopy
import HftExchange.Engine.Executions
import HftExchange.Engine.FieldRanges
import HftExchange.Engine.Invariant
import HftExchange.Engine.Lifecycle
import HftExchange.Engine.MarketData
import HftExchange.Engine.Progress
import HftExchange.Engine.RunEvents
import HftExchange.Engine.Sequential
import HftExchange.Engine.Shard
import HftExchange.Engine.ShardRun
import HftExchange.Engine.StepEffect
import HftExchange.Engine.Stepwise
import HftExchange.Engine.Streams
import HftExchange.Engine.TaskEffect
import HftExchange.Engine.TaskOrder
import HftExchange.Firm.Accounting
import HftExchange.Firm.AccountingExact
import HftExchange.Firm.AccountingRun
import HftExchange.Firm.AckDrain
import HftExchange.Firm.AckReceiver
import HftExchange.Firm.AckReception
import HftExchange.Firm.AckSegments
import HftExchange.Firm.BookAgreement
import HftExchange.Firm.BookBuilder
import HftExchange.Firm.BookLadder
import HftExchange.Firm.BookSnapshots
import HftExchange.Firm.ExecutionEngine
import HftExchange.Firm.LocalBook
import HftExchange.Firm.LocalBookRun
import HftExchange.Firm.OrderQueue
import HftExchange.Firm.PipelineBounds
import HftExchange.Firm.Quotes
import HftExchange.Firm.RiskGate
import HftExchange.Firm.SendBytes
import HftExchange.Firm.SignalSoundness
import HftExchange.Firm.Signals
import HftExchange.Firm.Strategy
import HftExchange.Firm.TickPipeline
import HftExchange.Firm.TokenEcho
import HftExchange.Firm.Tokens
import HftExchange.Firm.Transmit
import HftExchange.Firm.TransmitModes
import HftExchange.Gateway.Admission
import HftExchange.Gateway.AdmissionRules
import HftExchange.Gateway.Egress
import HftExchange.Gateway.EgressAcks
import HftExchange.Gateway.EgressFaithful
import HftExchange.Gateway.EgressFlush
import HftExchange.Gateway.EgressInvariant
import HftExchange.Gateway.EgressRun
import HftExchange.Gateway.Framing
import HftExchange.Gateway.Inbound
import HftExchange.Gateway.SessionHistory
import HftExchange.Gateway.SessionManager
import HftExchange.MarketData.Feed
import HftExchange.MarketData.Publisher
import HftExchange.MarketData.PublisherDrain
import HftExchange.MarketData.PublisherRun
import HftExchange.MarketData.Readers
import HftExchange.Monitoring.Book
import HftExchange.Monitoring.BookCalls
import HftExchange.Monitoring.Consistency
import HftExchange.Monitoring.Eviction
import HftExchange.Monitoring.FirmStatsReader
import HftExchange.Monitoring.Health
import HftExchange.Monitoring.Lossy
import HftExchange.Monitoring.LossySteps
import HftExchange.Monitoring.Mirror
import HftExchange.Monitoring.PoolVisibility
import HftExchange.Monitoring.Reconstruction
import HftExchange.Monitoring.Repair
import HftExchange.Monitoring.StatsReader
import HftExchange.Protocol.Codecs
import HftExchange.Protocol.Digits
import HftExchange.Protocol.ItchWire
import HftExchange.Protocol.Messages
import HftExchange.System.AdmissionDomain
import HftExchange.System.AllOrNothing
import HftExchange.System.Answered
import HftExchange.System.AuditComplete
import HftExchange.System.Authority
import HftExchange.System.CancelEffect
import HftExchange.System.CancelSafety
import HftExchange.System.Domain
import HftExchange.System.Exchange
import HftExchange.System.FillDelivery
import HftExchange.System.Flight
import HftExchange.System.Invariant
import HftExchange.System.Lane
import HftExchange.System.LaneProgress
import HftExchange.System.LaneSteps
import HftExchange.System.Linear
import HftExchange.System.LoopInvariant
import HftExchange.System.Moves
import HftExchange.System.OrderEntry
import HftExchange.System.PositionAgreement
import HftExchange.System.Presence
import HftExchange.System.Requests
import HftExchange.System.Sequential
import HftExchange.System.Shutdown
import HftExchange.System.TaskOrder
import HftExchange.System.TokenReuse
import HftExchange.System.Trace
import HftExchange.System.TradingLoop
