import MessageBroker.CommandLine.Launch
import MessageBroker.CommandLine.Options
import MessageBroker.Connection.Handler
import MessageBroker.Connection.Socket
import MessageBroker.Connection.State
import MessageBroker.Delivery.Message
import MessageBroker.Delivery.Session
import MessageBroker.Delivery.TagMap
import MessageBroker.Delivery.Tracker
import MessageBroker.Error
import MessageBroker.Fault
import MessageBroker.Inspect
import MessageBroker.Json.Text
import MessageBroker.Json.Token
import MessageBroker.Json.Value
import MessageBroker.Logging.Filter
import MessageBroker.Loopback.Command
import MessageBroker.Loopback.Counters
import MessageBroker.Loopback.Engine
import MessageBroker.Loopback.Handler
import MessageBroker.Main
import MessageBroker.Network.Address
import MessageBroker.Pool.Config
import MessageBroker.Pool.Metrics
import MessageBroker.Pool.Rehearsal
import MessageBroker.Pool.Run
import MessageBroker.Pool.State
import MessageBroker.Pool.Step
import MessageBroker.Selector.Rehearsal
import MessageBroker.Selector.State
import MessageBroker.Settings.Basic
import MessageBroker.Settings.Document
import MessageBroker.Text.Digits
import MessageBroker.Text.Quoted
import MessageBroker.Text.Unprintable
import MessageBroker.Transport.Config
import MessageBroker.Transport.Phase
import MessageBroker.Transport.Run
import MessageBroker.Transport.Service
import MessageBroker.Transport.Shutdown
import MessageBroker.Wire.BigEndian
import MessageBroker.Wire.Decoder
import MessageBroker.Wire.Frame
import MessageBroker.Wire.Outbox
import MessageBroker.Proofs.Connection.Buffering
import MessageBroker.Proofs.Connection.Callbacks
import MessageBroker.Proofs.Connection.Closing
import MessageBroker.Proofs.Connection.Counting
import MessageBroker.Proofs.Connection.Exchange
import MessageBroker.Proofs.Connection.Parking
import MessageBroker.Proofs.Connection.Reception
import MessageBroker.Proofs.Connection.Stages
import MessageBroker.Proofs.Connection.Statistics
import MessageBroker.Proofs.Connection.Transmission
import MessageBroker.Proofs.Delivery.Accounting
import MessageBroker.Proofs.Delivery.Consumer
import MessageBroker.Proofs.Delivery.Cumulative
import MessageBroker.Proofs.Delivery.Listing
import MessageBroker.Proofs.Delivery.Numbering
import MessageBroker.Proofs.Delivery.Refusals
import MessageBroker.Proofs.Delivery.Reordering
import MessageBroker.Proofs.Delivery.Saturation
import MessageBroker.Proofs.Delivery.Sizes
import MessageBroker.Proofs.Delivery.Staging
import MessageBroker.Proofs.Delivery.Transactions
import MessageBroker.Proofs.Delivery.Visiting
import MessageBroker.Proofs.Delivery.Withdrawal
import MessageBroker.Proofs.History
import MessageBroker.Proofs.Json.Grammar
import MessageBroker.Proofs.Json.Printing
import MessageBroker.Proofs.Json.Tokens
import MessageBroker.Proofs.Loopback.Batches
import MessageBroker.Proofs.Loopback.Lengths
import MessageBroker.Proofs.Loopback.Order
import MessageBroker.Proofs.Loopback.Polling
import MessageBroker.Proofs.Loopback.Reading
import MessageBroker.Proofs.Loopback.RoundTrip
import MessageBroker.Proofs.Loopback.Totals
import MessageBroker.Proofs.Network.Spelling
import MessageBroker.Proofs.Pool.Balance
import MessageBroker.Proofs.Pool.Closers
import MessageBroker.Proofs.Pool.Containment
import MessageBroker.Proofs.Pool.Courses
import MessageBroker.Proofs.Pool.Draining
import MessageBroker.Proofs.Pool.Ending
import MessageBroker.Proofs.Pool.Joining
import MessageBroker.Proofs.Pool.Moves
import MessageBroker.Proofs.Pool.Ownership
import MessageBroker.Proofs.Pool.Progress
import MessageBroker.Proofs.Pool.Protocol
import MessageBroker.Proofs.Pool.Rehearsing
import MessageBroker.Proofs.Pool.Shares
import MessageBroker.Proofs.Pool.Turns
import MessageBroker.Proofs.Pool.Visits
import MessageBroker.Proofs.Selector.Custody
import MessageBroker.Proofs.Selector.Naming
import MessageBroker.Proofs.Selector.Rehearsing
import MessageBroker.Proofs.Selector.Tokens
import MessageBroker.Proofs.Settings.Document
import MessageBroker.Proofs.Settings.Loading
import MessageBroker.Proofs.Settings.Saving
import MessageBroker.Proofs.Text.Numerals
import MessageBroker.Proofs.Transport.Acts
import MessageBroker.Proofs.Transport.Lifecycle
import MessageBroker.Proofs.Transport.Naming
import MessageBroker.Proofs.Transport.Ownership
import MessageBroker.Proofs.Transport.Teardown
import MessageBroker.Proofs.Wire.Buffering
import MessageBroker.Proofs.Wire.Decoding
import MessageBroker.Proofs.Wire.Departure
import MessageBroker.Proofs.Wire.Framing
import MessageBroker.Proofs.Wire.Verdicts
