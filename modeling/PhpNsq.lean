import PhpNsq.Foundations.BigEndian
import PhpNsq.Foundations.Cells
import PhpNsq.Foundations.Assembly
import PhpNsq.Foundations.Decimal
import PhpNsq.Foundations.CopiedStrings
import PhpNsq.Foundations.InternetAddresses
import PhpNsq.Foundations.Iteration
import PhpNsq.Foundations.LinkedQueue
import PhpNsq.Foundations.PrefixCodes
import PhpNsq.Foundations.Runs
import PhpNsq.Foundations.Relay
import PhpNsq.Foundations.Walks
import PhpNsq.Foundations.Blocks
import PhpNsq.Common
import PhpNsq.Command
import PhpNsq.Frames
import PhpNsq.Identify
import PhpNsq.Subscriber.MessageQueue
import PhpNsq.Subscriber.QueueRefinement
import PhpNsq.Subscriber.Readcb
import PhpNsq.Subscriber.Processing
import PhpNsq.Subscriber.Settlement
import PhpNsq.Subscriber.FramePasses
import PhpNsq.Subscriber.CallOutcomes
import PhpNsq.Subscriber.Delivery
import PhpNsq.Subscriber.ErrorFrames
import PhpNsq.Subscriber.CutPrefixes
import PhpNsq.Subscriber.Consumer
import PhpNsq.Subscriber.Mirroring
import PhpNsq.Subscriber.Isolation
import PhpNsq.Subscriber.Sessions
import PhpNsq.Subscriber.Courier
import PhpNsq.Subscriber.FreshMemory
import PhpNsq.Subscriber.EndToEnd
import PhpNsq.Subscriber.HeapAccounts
import PhpNsq.Subscriber.NestedDispatch
import PhpNsq.Subscriber.Accesses
import PhpNsq.Subscriber.UserSettlement
import PhpNsq.Subscriber.Backpressure
import PhpNsq.Subscriber.OutputStream
import PhpNsq.Publisher.Commands
import PhpNsq.CommandStream
import PhpNsq.Subscriber.CommandsReceived
import PhpNsq.CommandBuffers
import PhpNsq.EncoderBuffers
import PhpNsq.Publisher.FrameReader
import PhpNsq.Publisher.Publish
import PhpNsq.Publisher.ConnectNsqd
import PhpNsq.Publisher.Heartbeats
import PhpNsq.Publisher.ReadSchedules
import PhpNsq.Publisher.ReplyOrder
import PhpNsq.Publisher.SentCommands
import PhpNsq.Publisher.CallAccounts
import PhpNsq.Publisher.ReplyMemory
import PhpNsq.Publisher.BodyReads
import PhpNsq.Publisher.LostConnections
import PhpNsq.Publisher.ReplyBuffers
import PhpNsq.FrameClasses
import PhpNsq.Nsq.Methods
import PhpNsq.Nsq.Lookup
import PhpNsq.Nsq.LookupRuns
import PhpNsq.Nsq.Publishing
import PhpNsq.Nsq.Connections
import PhpNsq.Nsq.FailedConnections
import PhpNsq.Nsq.RepeatedConnections
import PhpNsq.Nsq.Timeouts
import PhpNsq.Nsq.AddressWalks
import PhpNsq.Nsq.Addresses
import PhpNsq.Nsq.AddressCopies
import PhpNsq.Nsq.RaisedErrors
import PhpNsq.Nsq.Workers
import PhpNsq.Nsq.Supervision
import PhpNsq.Nsq.Restarts
import PhpNsq.Nsq.Signals
import PhpNsq.Nsq.ProcessTree
import PhpNsq.Nsq.Staffing
import PhpNsq.Nsq.Cluster
import PhpNsq.Nsq.WorkerTable
import PhpNsq.Subscriber.CarriedIntegers
import PhpNsq.WireIntegers
