import Pricestream.Library.Rounding
import Pricestream.Library.Significant
import Pricestream.Library.Factor
import Pricestream.Library.KeyedTable
import Pricestream.Library.Summary
import Pricestream.Library.Buckets
import Pricestream.Library.Extrema
import Pricestream.Library.RowLocks
import Pricestream.Library.LazyCell
import Pricestream.Library.Traced
import Pricestream.Library.Lockstep
import Pricestream.Library.Interleaving
import Pricestream.Library.Parties
import Pricestream.Library.Simulation
import Pricestream.Library.Ledger
import Pricestream.Python.Basic
import Pricestream.Python.Decimal
import Pricestream.Python.Precision
import Pricestream.Python.Utf8
import Pricestream.Python.DateTime
import Pricestream.Python.TimeDelta
import Pricestream.Python.Numeral
import Pricestream.Python.DecimalText
import Pricestream.Python.IsoFormat
import Pricestream.Python.Json
import Pricestream.Python.JsonText
import Pricestream.Python.JsonDump
import Pricestream.Models
import Pricestream.Aggregator
import Pricestream.KafkaProducer
import Pricestream.Publishers
import Pricestream.KafkaConsumer
import Pricestream.BarTransaction
import Pricestream.ConsumerGroup
import Pricestream.Tasks
import Pricestream.Consumers
import Pricestream.Exchanges
import Pricestream.PriceText
import Pricestream.Hub
import Pricestream.Loss
import Pricestream.Proof.Book
import Pricestream.Proof.Units
import Pricestream.Proof.Scan
import Pricestream.Proof.Crossing
import Pricestream.Proof.Arbitrage
import Pricestream.Proof.Ohlc.Buckets
import Pricestream.Proof.Ohlc.Ticks
import Pricestream.Proof.Ohlc.Refinement
import Pricestream.Proof.Ohlc.Rollup
import Pricestream.Proof.Ohlc.Concurrency
import Pricestream.Proof.Ohlc.EventTime
import Pricestream.Proof.Consumer.Hazards
import Pricestream.Proof.Consumer.Loop
import Pricestream.Proof.Consumer.Delivery
import Pricestream.Proof.Tasks.Creation
import Pricestream.Proof.Tasks.Effects
import Pricestream.Proof.Tasks.Completion
import Pricestream.Proof.Tasks.Derived
import Pricestream.Proof.Tasks.Replies
import Pricestream.Proof.Tasks.SideChannels
import Pricestream.Proof.Tasks.Conservation
import Pricestream.Proof.Tasks.Partial
import Pricestream.Proof.Tasks.Books
import Pricestream.Proof.Tasks.Published
import Pricestream.Proof.Tasks.Overlap
import Pricestream.Proof.WebSocket.Naming
import Pricestream.Proof.WebSocket.Publisher
import Pricestream.Proof.WebSocket.Stream
import Pricestream.Proof.WebSocket.Order
import Pricestream.Proof.WebSocket.Hub
import Pricestream.Proof.Exchanges
import Pricestream.Proof.WebSocket.Loss
import Pricestream.Proof.WebSocket.Overlap
import Pricestream.Proof.Tasks.Staleness
import Pricestream.Proof.Wire.JsonText
import Pricestream.Proof.Wire.JsonDump
import Pricestream.Proof.Wire.PriceText
import Pricestream.Proof.Wire.Events
import Pricestream.Proof.Wire.Producer
import Pricestream.Proof.Wire.Positive
import Pricestream.Proof.Wire.Reconcile
import Pricestream.Proof.Ohlc.Overlap
import Pricestream.Proof.Ohlc.Interrupted
import Pricestream.Proof.Ohlc.Offsets
import Pricestream.Serializers
import Pricestream.Proof.Tasks.Storing
import Pricestream.Proof.Tasks.Signals
import Pricestream.Proof.Tasks.Precision
import Pricestream.Proof.Tasks.Rounding
import Pricestream.Proof.Gate
import Pricestream.Library.Arrangement
import Pricestream.Library.Paging
import Pricestream.Stats
import Pricestream.Listing
import Pricestream.History
import Pricestream.Proof.Stats
import Pricestream.Proof.StatsPrecision
import Pricestream.Proof.Listing
import Pricestream.Proof.History
import Pricestream.Commands
import Pricestream.InstrumentWrites
import Pricestream.Proof.Tasks.Bootstrap
import Pricestream.Proof.Tasks.Activity
import Pricestream.Proof.WebSocket.Latest
import Pricestream.Proof.Tasks.StaleCounter
import Pricestream.Proof.Ohlc.Boundaries
