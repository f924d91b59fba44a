import TradingEcosystem.Common.BookLadder
import TradingEcosystem.Exchange.MEOrderBook
import TradingEcosystem.Exchange.PriceTimeBook
import TradingEcosystem.Exchange.IndexedBook
import TradingEcosystem.Exchange.Refinement
import TradingEcosystem.Common.BookDecode
import TradingEcosystem.Exchange.Runs
import TradingEcosystem.Trading.MarketOrderBook
import TradingEcosystem.Trading.ClientBook
import TradingEcosystem.System.Mirror
import TradingEcosystem.Trading.Clear
import TradingEcosystem.Common.McastSocket
import TradingEcosystem.Library.OrderedMap
import TradingEcosystem.Trading.MarketDataConsumer
import TradingEcosystem.Trading.SnapshotQueue
import TradingEcosystem.Exchange.SnapshotSynthesizer
import TradingEcosystem.Library.Trace
import TradingEcosystem.System.OrderTable
import TradingEcosystem.System.FeedRecovery
import TradingEcosystem.Trading.ReceiveBuffer
import TradingEcosystem.System.Rebuild
import TradingEcosystem.Exchange.MatchingEngine
import TradingEcosystem.System.TickerBooks
import TradingEcosystem.System.LateJoiner
import TradingEcosystem.Exchange.ClientOrders
import TradingEcosystem.Trading.OrderManager
import TradingEcosystem.System.SlotProtocol
import TradingEcosystem.System.OrderSession
import TradingEcosystem.System.PositionLimit
import TradingEcosystem.System.OrderTracking
import TradingEcosystem.Exchange.OrderIndex
import TradingEcosystem.Exchange.OrderLife
import TradingEcosystem.Exchange.BookShape
import TradingEcosystem.System.IdLimits
import TradingEcosystem.Exchange.OrderServer
import TradingEcosystem.Exchange.OrderEntry
import TradingEcosystem.Exchange.FifoOrder
import TradingEcosystem.Exchange.WireSafety
import TradingEcosystem.System.SelfCross
import TradingEcosystem.Common.LFQueue
import TradingEcosystem.Exchange.MarketDataPublisher
import TradingEcosystem.Common.BookOwners
import TradingEcosystem.Exchange.ResponseOwners
import TradingEcosystem.Exchange.ResponsePath
import TradingEcosystem.Exchange.WireFormat
import TradingEcosystem.Common.TCPSocket
import TradingEcosystem.Trading.OrderGateway
import TradingEcosystem.Backtest.BacktestEngine
import TradingEcosystem.Backtest.LobsterReader
import TradingEcosystem.Backtest.LobsterReplay
import TradingEcosystem.Backtest.QueuePosition
import TradingEcosystem.Backtest.Strategy
import TradingEcosystem.System.WireRoundTrip
import TradingEcosystem.Backtest.BookReplay
import TradingEcosystem.Backtest.SynthIds
import TradingEcosystem.Common.LatencyHistogram
import TradingEcosystem.Common.QueueThreads
import TradingEcosystem.Trading.VolumeBuckets
import TradingEcosystem.Backtest.Determinism
import TradingEcosystem.Backtest.MicroPrice
import TradingEcosystem.Trading.Account
import TradingEcosystem.Trading.OpenVwap
import TradingEcosystem.Trading.PositionArith
import TradingEcosystem.Backtest.L1Replay
import TradingEcosystem.Backtest.MergedTape
import TradingEcosystem.Backtest.L3Replay
import TradingEcosystem.Backtest.LobsterTape
import TradingEcosystem.System.MarketDataFeed
import TradingEcosystem.Common.McastDatagrams
import TradingEcosystem.System.MulticastWire
import TradingEcosystem.System.Ecosystem
import TradingEcosystem.System.ZeroSum
