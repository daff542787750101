import QuoteFeed.Arithmetic
import QuoteFeed.Binary64.Arith
import QuoteFeed.Binary64.Basic
import QuoteFeed.Binary64.Round
import QuoteFeed.Bytes.Basic
import QuoteFeed.Bytes.Endian
import QuoteFeed.Clock
import QuoteFeed.Decimal
import QuoteFeed.Fifo
import QuoteFeed.Intake.Basic
import QuoteFeed.Intake.Config
import QuoteFeed.Intake.Event
import QuoteFeed.Intake.Run
import QuoteFeed.Latency.Summary
import QuoteFeed.Latency.Window
import QuoteFeed.Pool
import QuoteFeed.Proofs.Intake.Step
import QuoteFeed.Proofs.Wire.Decoding
import QuoteFeed.Quote.Basic
import QuoteFeed.Quote.Image
import QuoteFeed.Quote.Symbol
import QuoteFeed.Report
import QuoteFeed.Sink
import QuoteFeed.SlotRing
import QuoteFeed.Source
import QuoteFeed.Tally
import QuoteFeed.Text.Span
import QuoteFeed.Text.Utf8
import QuoteFeed.Wire.Check
import QuoteFeed.Wire.Layout
import QuoteFeed.Wire.Packet
import QuoteFeed.Wire.Timing
import QuoteFeed.Wire.View
import QuoteFeed.Proofs.Intake.Making
import QuoteFeed.Proofs.Intake.Worker
import QuoteFeed.Proofs.Intake.Simulation
import QuoteFeed.Proofs.Intake.Offers
import QuoteFeed.Proofs.Intake.Batching
import QuoteFeed.Proofs.Intake.Counting
import QuoteFeed.Proofs.Intake.Stopping
import QuoteFeed.Proofs.Intake.Consuming
import QuoteFeed.Proofs.Pool.Rotation
import QuoteFeed.Proofs.Pool.Turns
import QuoteFeed.Proofs.Intake.Accounting
import QuoteFeed.Proofs.Source.Replaying
import QuoteFeed.Proofs.Wire.Format
import QuoteFeed.Proofs.Wire.Judgement
import QuoteFeed.Proofs.Binary64.Rounding
import QuoteFeed.Proofs.Price.Recovery
import QuoteFeed.Proofs.Wire.Recovery
import QuoteFeed.Proofs.Pool.Frame
import QuoteFeed.Proofs.Wire.Writing
import QuoteFeed.Proofs.Binary64.Order
import QuoteFeed.Proofs.Clock.Order
import QuoteFeed.Proofs.Binary64.Error
import QuoteFeed.Proofs.Clock.Accuracy
import QuoteFeed.Proofs.Latency.Ranking
import QuoteFeed.Proofs.Latency.Sliding
import QuoteFeed.Proofs.Price.Accuracy
import QuoteFeed.Proofs.Binary64.Whole
import QuoteFeed.Proofs.Price.Nearest
import QuoteFeed.Proofs.Text.Characters
import QuoteFeed.Proofs.Text.Cutting
import QuoteFeed.Proofs.Quote.Naming
import QuoteFeed.Proofs.Binary64.Operations
import QuoteFeed.Proofs.Wire.Latencies
import QuoteFeed.Proofs.Latency.Mean
import QuoteFeed.Proofs.Tally.Growth
import QuoteFeed.Proofs.Quote.Image
import QuoteFeed.Proofs.Intake.Capacity
import QuoteFeed.Proofs.Quote.Trimming
import QuoteFeed.Proofs.Wire.Reading
import QuoteFeed.Proofs.Wire.Checking
import QuoteFeed.Proofs.Latency.Bounding
