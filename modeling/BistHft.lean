import BistHft.Lib.Run
import BistHft.Lib.Weight
import BistHft.Core.L2Orderbook
import BistHft.Core.Theorems.Levels
import BistHft.Core.Theorems.L2Orderbook
import BistHft.Lib.Bytes
import BistHft.Wire
import BistHft.Core.OrderbookBuilder
import BistHft.Core.Theorems.OrderbookBuilder
import BistHft.Core.Theorems.Feed
import BistHft.Protocol.ItchParser
import BistHft.Protocol.Theorems.RoundTrip
import BistHft.Client.MarketDataClient
import BistHft.Client.Theorems.Recovery
import BistHft.Core.Theorems.Locality
import BistHft.Client.Theorems.Application
import BistHft.Lib.Framing
import BistHft.Network.TcpClient
import BistHft.Network.Theorems.Framing
import BistHft.Core.OrderManager
import BistHft.Core.Theorems.OrderManager
import BistHft.Client.OrderEntryClient
import BistHft.Client.Theorems.Responses
import BistHft.Client.Theorems.Lifecycle
import BistHft.Client.Theorems.Replace
import BistHft.Core.Theorems.Projection
import BistHft.Client.Theorems.Requests
import BistHft.Client.Theorems.Gaps
import BistHft.Apps.ExchangeEmulator
import BistHft.Client.Theorems.Written
import BistHft.Client.Theorems.Orders
import BistHft.Core.Theorems.Restart
import BistHft.Client.Theorems.Session
import BistHft.Core.Theorems.NextToken
import BistHft.Client.Theorems.Watermark
import BistHft.Client.Theorems.Missing
import BistHft.Core.Theorems.Removal
import BistHft.Core.Theorems.RepeatedAdd
import BistHft.Protocol.Theorems.Reads
import BistHft.Client.Theorems.Copies
import BistHft.Client.Theorems.Isolation
import BistHft.Apps.Theorems.Segmentation
import BistHft.Core.Theorems.Dump
import BistHft.Core.Theorems.Updates
import BistHft.Core.Theorems.OrderNumber
import BistHft.Core.Theorems.Tracking
import BistHft.Network.Theorems.Connections
import BistHft.Apps.Theorems.Logout
import BistHft.Network.Theorems.Progress
import BistHft.Client.Theorems.Reordering
import BistHft.Client.Theorems.RewoundPath
import BistHft.Lib.Transfer
import BistHft.Network.TcpSocket
import BistHft.Network.Theorems.Writes
import BistHft.Network.Theorems.Delivery
import BistHft.Network.ServerLoop
import BistHft.Network.Theorems.ServerLoop
import BistHft.Apps.ExchangeServer
import BistHft.Apps.Theorems.Replies
import BistHft.Apps.Connection
import BistHft.Apps.Theorems.Conformance
import BistHft.Apps.Theorems.Login
import BistHft.Core.Theorems.Histories
import BistHft.Client.Theorems.Settling
import BistHft.Core.Theorems.Prices
import BistHft.Client.Theorems.RequestLog
import BistHft.Lib.Collect
import BistHft.Utility.PartitionConfig
import BistHft.Utility.Theorems.PartitionConfig
import BistHft.Network.Descriptors
import BistHft.Network.Theorems.Descriptors
