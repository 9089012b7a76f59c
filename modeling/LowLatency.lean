import LowLatency.Common.LFQueueThreads
import LowLatency.Common.Logging
import LowLatency.Common.PoolRuns
import LowLatency.Common.TCPSend
import LowLatency.Exchange.Crossing
import LowLatency.Exchange.FeedAgreement
import LowLatency.Exchange.FieldSafety
import LowLatency.Exchange.MarketOrderIds
import LowLatency.Exchange.Publication
import LowLatency.Exchange.ReceiveRound
import LowLatency.Exchange.Rejection
import LowLatency.Exchange.Routing
import LowLatency.Exchange.ExchangeThreads
import LowLatency.Exchange.TickerBooks
import LowLatency.Exchange.ServerLoop
import LowLatency.Exchange.Service
import LowLatency.Exchange.SnapshotTable
import LowLatency.Exchange.SnapshotLoop
import LowLatency.Trading.Aggressor
import LowLatency.Trading.Atomicity
import LowLatency.Trading.BestQuote
import LowLatency.Trading.Connection
import LowLatency.Trading.ConsumerSockets
import LowLatency.Trading.FillArithmetic
import LowLatency.Trading.GapFree
import LowLatency.Trading.Insertion
import LowLatency.Trading.OrderIds
import LowLatency.Trading.LiveSession
import LowLatency.Trading.Pnl
import LowLatency.Trading.Quiescence
import LowLatency.Trading.RequestTrail
import LowLatency.Trading.RecoveryEntry
import LowLatency.Trading.Subscription
import LowLatency.Trading.TickerIsolation
import LowLatency.Trading.TotalPnl
import LowLatency.Trading.MarketView
import LowLatency.Common.LogFile
import LowLatency.Exchange.BookText
import LowLatency.Trading.ClientThreads
