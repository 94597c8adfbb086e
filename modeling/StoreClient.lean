import StoreClient.Binary64
import StoreClient.Buffer
import StoreClient.ByteSeq.Basic
import StoreClient.ByteSeq.Chunks
import StoreClient.ByteSeq.Compare
import StoreClient.ByteSeq.Expr
import StoreClient.ByteSeq.Output
import StoreClient.ByteSeq.Reader
import StoreClient.ByteSeq.Text
import StoreClient.Bytes
import StoreClient.Charset.Basic
import StoreClient.Charset.Decoder
import StoreClient.Charset.Utf16
import StoreClient.Charset.Utf8
import StoreClient.Decimal
import StoreClient.Decimal.Shortest
import StoreClient.Duration
import StoreClient.Error
import StoreClient.Ids.Bench
import StoreClient.Ids.Generator
import StoreClient.Ids.Layout
import StoreClient.Ids.Settings
import StoreClient.Ids.Wait
import StoreClient.JsonValue
import StoreClient.Proofs.Binary64.Nearest
import StoreClient.Proofs.ByteSeq.Access
import StoreClient.Proofs.ByteSeq.Hashing
import StoreClient.Proofs.ByteSeq.Order
import StoreClient.Proofs.ByteSeq.Refinement
import StoreClient.Proofs.ByteSeq.Room
import StoreClient.Proofs.ByteSeq.Shape
import StoreClient.Proofs.ByteSeq.Unreliable
import StoreClient.Proofs.Charset.Chunking
import StoreClient.Proofs.Charset.RoundTrip
import StoreClient.Proofs.Charset.Scan
import StoreClient.Proofs.Charset.Tail
import StoreClient.Proofs.Decimal.Exact
import StoreClient.Proofs.Decimal.Numerals
import StoreClient.Proofs.Ids.Conversion
import StoreClient.Proofs.Ids.Documents
import StoreClient.Proofs.Ids.FieldBits
import StoreClient.Proofs.Ids.HighWater
import StoreClient.Proofs.Ids.Keeping
import StoreClient.Proofs.Ids.Overtaking
import StoreClient.Proofs.Ids.Packing
import StoreClient.Proofs.Ids.Padding
import StoreClient.Proofs.Ids.Rising
import StoreClient.Proofs.Ids.Runs
import StoreClient.Proofs.Ids.Settling
import StoreClient.Proofs.Ids.TickRuns
import StoreClient.Proofs.Ids.Ticks
import StoreClient.Proofs.Ids.Traceless
import StoreClient.Proofs.Ids.Waiting
import StoreClient.Proofs.Ids.Words
import StoreClient.Proofs.Tasks.Callbacks
import StoreClient.Proofs.Tasks.Calls
import StoreClient.Proofs.Tasks.Changes
import StoreClient.Proofs.Tasks.Delivery
import StoreClient.Proofs.Tasks.Drains
import StoreClient.Proofs.Tasks.Enrolment
import StoreClient.Proofs.Tasks.Occupancy
import StoreClient.Proofs.Tasks.Pool
import StoreClient.Proofs.Tasks.Publishing
import StoreClient.Proofs.Tasks.Reentry
import StoreClient.Proofs.Tasks.Registrations
import StoreClient.Proofs.Tasks.Stages
import StoreClient.Proofs.Tasks.Stopping
import StoreClient.Proofs.Tasks.Stranding
import StoreClient.Proofs.Tasks.Subscriptions
import StoreClient.Proofs.Tasks.Unwinding
import StoreClient.Proofs.Tasks.Wakeups
import StoreClient.Proofs.Wire.IntegerCache
import StoreClient.Proofs.Wire.Scores
import StoreClient.Tasks.Action
import StoreClient.Tasks.Cell
import StoreClient.Tasks.Machine
import StoreClient.Tasks.Notifier
import StoreClient.Tasks.Run
import StoreClient.Tasks.World
import StoreClient.Text.Printable
import StoreClient.Text.Quoted
import StoreClient.Wire.Keyword
import StoreClient.Wire.Table
import StoreClient.Word
import StoreClient.Proofs.Decimal.Numerals
import StoreClient.Proofs.Wire.IntegerCache
import StoreClient.Proofs.Wire.Scores
