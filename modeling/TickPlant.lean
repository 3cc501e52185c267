import TickPlant.Lib.Run
import TickPlant.Lib.Grouping
import TickPlant.Lib.Values
import TickPlant.Lib.Decimal
import TickPlant.Lib.Float
import TickPlant.Lib.Double
import TickPlant.Lib.Json
import TickPlant.Lib.Number
import TickPlant.Lib.BigEndian
import TickPlant.Lib.Search
import TickPlant.Lib.Civil
import TickPlant.Lib.Writes
import TickPlant.Lib.Reading
import TickPlant.Lib.Commit
import TickPlant.Text
import TickPlant.JsonValue
import TickPlant.OrderBook.Levels
import TickPlant.OrderBook.Book
import TickPlant.OrderBook.Runs
import TickPlant.OrderBook.Maps
import TickPlant.OrderBook.LevelOps
import TickPlant.Engine.Store
import TickPlant.Engine.Crossing
import TickPlant.Engine.Arbitrage
import TickPlant.Engine.Books
import TickPlant.Engine.CrossExchange
import TickPlant.Engine.CalcThread
import TickPlant.Engine.Wakeup
import TickPlant.Engine.Interleaving
import TickPlant.Feed.Clients
import TickPlant.Feed.LiveMid
import TickPlant.Feed.Coinbase
import TickPlant.Feed.Symbols
import TickPlant.Feed.Sorting
import TickPlant.Feed.Parsers
import TickPlant.Feed.Atomic
import TickPlant.Fix.Parser
import TickPlant.Fix.RoundTrip
import TickPlant.Fix.Prices
import TickPlant.Fix.Simulator
import TickPlant.Fix.Tokens
import TickPlant.Fix.Groups
import TickPlant.Fix.Incremental
import TickPlant.Fix.Tags
import TickPlant.Fix.SendingTime
import TickPlant.Fix.Trailer
import TickPlant.Queue.Mpsc
import TickPlant.Queue.MpscInv
import TickPlant.Queue.MpscFifo
import TickPlant.Queue.Spsc
import TickPlant.Queue.SpscFifo
import TickPlant.Queue.Sequential
import TickPlant.Queue.SharedQueue
import TickPlant.Fix.Ticker
import TickPlant.Logger.TickLogger
import TickPlant.Logger.Delivery
import TickPlant.Logger.Shutdown
import TickPlant.Server.Protocol
import TickPlant.Logger.Prices
import TickPlant.Server.LineBuffer
import TickPlant.Server.Connection
import TickPlant.Server.Segmentation
import TickPlant.Server.Channel
import TickPlant.Server.Epoll
import TickPlant.Server.Uring
import TickPlant.Server.UringLoop
import TickPlant.Server.Simple
import TickPlant.Server.Pipelining
import TickPlant.Server.Replies
import TickPlant.Report.Pipeline
import TickPlant.Report.Sources
import TickPlant.Report.Document
import TickPlant.Report.Keys
import TickPlant.Report.Replies
import TickPlant.Report.Echoes
import TickPlant.Report.OneLine
import TickPlant.Report.WellFormed
import TickPlant.Report.Aliases
import TickPlant.Report.Reading
import TickPlant.Report.Symbols
import TickPlant.Report.Freshness
import TickPlant.Report.Fetch
import TickPlant.Report.Chunked
import TickPlant.Report.ChunkedBody
import TickPlant.Itch.Wire
import TickPlant.Itch.File
import TickPlant.Itch.Replay
import TickPlant.Itch.Messages
import TickPlant.Itch.Aggregate
import TickPlant.Itch.Feed
import TickPlant.Itch.Filter
import TickPlant.Itch.Replace
import TickPlant.Itch.Lookups
import TickPlant.Itch.Shares
import TickPlant.Queue.Occupancy
import TickPlant.Queue.MpscMoves
import TickPlant.Queue.Tickers
import TickPlant.Queue.Conservation
import TickPlant.Queue.DrainAll
import TickPlant.Queue.Progress
import TickPlant.Server.Receive
import TickPlant.Latency.Monitor
import TickPlant.Lib.Rank
import TickPlant.Latency.Producers
import TickPlant.Lib.Shared
import TickPlant.Lib.Window
import TickPlant.Latency.Histogram
import TickPlant.Latency.ExchangeStats
import TickPlant.Latency.Samples
import TickPlant.Latency.Clock
import TickPlant.Fix.Depth
import TickPlant.Fix.Schedule
import TickPlant.Server.EpollLoop
import TickPlant.Server.EpollSocket
import TickPlant.Server.EpollProtocol
import TickPlant.Server.EpollDescriptors
import TickPlant.Server.Link
import TickPlant.Server.Clients
import TickPlant.Lib.JsonPrefix
import TickPlant.Lib.Components
import TickPlant.Report.CutReplies
import TickPlant.Lib.Replica
import TickPlant.Feed.Binance
import TickPlant.Feed.Wire
import TickPlant.Feed.Market
import TickPlant.Feed.Replication
import TickPlant.Feed.Opportunities
