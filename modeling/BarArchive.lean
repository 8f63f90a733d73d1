import BarArchive.Broker.Cache
import BarArchive.Broker.Identifiers
import BarArchive.Broker.Inflight
import BarArchive.Broker.Route
import BarArchive.Broker.State
import BarArchive.Client
import BarArchive.Decimal.Arithmetic
import BarArchive.Decimal.Basic
import BarArchive.Decimal.Text
import BarArchive.Decimal.Words
import BarArchive.Json.Binary
import BarArchive.Json.Form
import BarArchive.Json.Reader
import BarArchive.Json.Value
import BarArchive.Json.Writer
import BarArchive.Main
import BarArchive.Market.Adjustment
import BarArchive.Market.Bar
import BarArchive.Market.Document
import BarArchive.Market.Error
import BarArchive.Market.Frequency
import BarArchive.Market.Instrument
import BarArchive.Market.Request
import BarArchive.Proofs.Framing
import BarArchive.Proofs.Fields
import BarArchive.Proofs.Descriptors
import BarArchive.Proofs.Messages
import BarArchive.Proofs.Steps
import BarArchive.Proofs.World
import BarArchive.Replay.Schedule
import BarArchive.Replay.Simulator
import BarArchive.Series
import BarArchive.Server.Address
import BarArchive.Server.Config
import BarArchive.Server.EnvFile
import BarArchive.Server.Router
import BarArchive.Server.State
import BarArchive.Session.Operations
import BarArchive.Session.Run
import BarArchive.Session.Script
import BarArchive.Session.State
import BarArchive.Source.Capability
import BarArchive.Source.RateLimiter
import BarArchive.Source.Registry
import BarArchive.Store
import BarArchive.Table
import BarArchive.Text.Alphanumeric
import BarArchive.Text.Blank
import BarArchive.Text.Digits
import BarArchive.Text.Utf8
import BarArchive.Time.Calendar
import BarArchive.Time.Clock
import BarArchive.Time.Instant
import BarArchive.Time.Moment
import BarArchive.Time.Stamp
import BarArchive.Wire.BarBlock
import BarArchive.Wire.Block
import BarArchive.Wire.Bytes
import BarArchive.Wire.Describe
import BarArchive.Wire.Descriptor
import BarArchive.Wire.Error
import BarArchive.Wire.Field
import BarArchive.Wire.Frame
import BarArchive.Wire.Identity
import BarArchive.Wire.Message
import BarArchive.Wire.Tag
import BarArchive.Wire.Varint
import BarArchive.Proofs.Life
import BarArchive.Proofs.Order
import BarArchive.Proofs.Groups
import BarArchive.Proofs.Storing
import BarArchive.Proofs.Tape
import BarArchive.Proofs.Supply
import BarArchive.Proofs.Coverage
import BarArchive.Proofs.Completeness
import BarArchive.Proofs.Numbers
import BarArchive.Proofs.Merging
import BarArchive.Proofs.Adjusting
import BarArchive.Proofs.Arrival
import BarArchive.Proofs.Consistency
import BarArchive.Proofs.Siblings
import BarArchive.Proofs.Audience
import BarArchive.Proofs.Seats
import BarArchive.Proofs.Broadcast
import BarArchive.Proofs.Subscriptions
import BarArchive.Proofs.Exchange
import BarArchive.Proofs.Bookkeeping
import BarArchive.Proofs.Correspondence
import BarArchive.Proofs.Delivery
import BarArchive.Proofs.Timetable
import BarArchive.Proofs.Dispatch
import BarArchive.Proofs.Registers
import BarArchive.Proofs.Renaming
import BarArchive.Proofs.Separation
import BarArchive.Proofs.Planning
import BarArchive.Proofs.Factors
import BarArchive.Proofs.Toggling
import BarArchive.Proofs.RegularHours
import BarArchive.Proofs.Repeating
import BarArchive.Proofs.LatePrices
import BarArchive.Proofs.DeclaredLengths
import BarArchive.Proofs.FailedAdds
import BarArchive.Proofs.Mailboxes
import BarArchive.Proofs.WideFrames
import BarArchive.Proofs.Rejection
import BarArchive.Proofs.Buckets
import BarArchive.Proofs.Cycle
