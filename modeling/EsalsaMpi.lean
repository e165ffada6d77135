import EsalsaMpi.Server.Communicator
import EsalsaMpi.Backend.Communicator
import EsalsaMpi.Server.Operations
import EsalsaMpi.Server.Replies
import EsalsaMpi.Server.Rounds
import EsalsaMpi.Backend.Collectives
import EsalsaMpi.Backend.Mirror
import EsalsaMpi.Server.Delivery
import EsalsaMpi.System
import EsalsaMpi.Backend.Messaging
import EsalsaMpi.Backend.Broadcast
import EsalsaMpi.Backend.Mailbox
import EsalsaMpi.Backend.Receive
import EsalsaMpi.Backend.Matching
import EsalsaMpi.Backend.Isolation
import EsalsaMpi.Backend.AnySource
import EsalsaMpi.Backend.Allgatherv.Program
import EsalsaMpi.Library.Blocks
import EsalsaMpi.Backend.Allgatherv.Layout
import EsalsaMpi.Backend.Allgatherv.Buffers
import EsalsaMpi.Backend.Allgatherv.Plan
import EsalsaMpi.Backend.Allgatherv.Result
import EsalsaMpi.Server.Split
import EsalsaMpi.Backend.GroupCreate
import EsalsaMpi.Library.Wire
import EsalsaMpi.Server.ReplyMessages
import EsalsaMpi.Backend.ReplyDecoder
import EsalsaMpi.Backend.RequestEncoder
import EsalsaMpi.Gateway.Socket
import EsalsaMpi.Gateway.Network
import EsalsaMpi.Library.Registry
import EsalsaMpi.Server.Jobs
import EsalsaMpi.Backend.Calls
import EsalsaMpi.Concurrent.Steps
import EsalsaMpi.Concurrent.Numbering
import EsalsaMpi.Server.JobReplies
import EsalsaMpi.Concurrent.Application
import EsalsaMpi.Concurrent.Invariant
import EsalsaMpi.Concurrent.Delivery
import EsalsaMpi.Concurrent.Arrival
import EsalsaMpi.Concurrent.Counting
import EsalsaMpi.Concurrent.Answers
import EsalsaMpi.Backend.Flags
import EsalsaMpi.Backend.Barrier.Program
import EsalsaMpi.Backend.Barrier.Members
import EsalsaMpi.Backend.Barrier.Safety
import EsalsaMpi.Backend.Member.Program
import EsalsaMpi.Library.Choreography
import EsalsaMpi.Backend.Member.View
import EsalsaMpi.Backend.Member.Parts
import EsalsaMpi.Backend.Member.Session
import EsalsaMpi.Backend.Member.Runs
import EsalsaMpi.Backend.Member.Manners
import EsalsaMpi.Backend.Member.Coordinators
import EsalsaMpi.Backend.Member.Bcast
import EsalsaMpi.Backend.Member.Reduce
import EsalsaMpi.Backend.Member.Allreduce
import EsalsaMpi.Backend.Member.Transfers
import EsalsaMpi.Backend.Member.Scan
import EsalsaMpi.Backend.Member.Datatypes
import EsalsaMpi.Backend.Member.Scatter
import EsalsaMpi.Backend.Member.Alltoall
import EsalsaMpi.Startup.Configuration
import EsalsaMpi.Startup.Pids
import EsalsaMpi.Shutdown.Finalize
import EsalsaMpi.Library.Loops
import EsalsaMpi.Startup.Interfaces
import EsalsaMpi.Backend.GroupRange
import EsalsaMpi.Startup.Sockets
import EsalsaMpi.Backend.BlockingReceive
import EsalsaMpi.Gateway.ReadMessage
import EsalsaMpi.Gateway.MainLoop.Steps
import EsalsaMpi.Gateway.MainLoop.Changes
import EsalsaMpi.Gateway.MainLoop.Polling
import EsalsaMpi.Gateway.MainLoop.Accounting
import EsalsaMpi.Gateway.MainLoop.Gateways
import EsalsaMpi.Backend.GroupUnion
import EsalsaMpi.Backend.TranslateRanks
import EsalsaMpi.Backend.GroupTable
import EsalsaMpi.Backend.Member.LocalPath
import EsalsaMpi.Server.Rejection
import EsalsaMpi.Startup.Networks
import EsalsaMpi.Startup.Ranges
import EsalsaMpi.Startup.CommandLine
import EsalsaMpi.Library.CIntegers
import EsalsaMpi.Backend.ReduceOps
import EsalsaMpi.Backend.ReduceDispatch
import EsalsaMpi.Backend.Requests.Program
import EsalsaMpi.Backend.Requests.Runs
import EsalsaMpi.Backend.Requests.Testing
import EsalsaMpi.Backend.Requests.GetStatus
import EsalsaMpi.Library.Polling
import EsalsaMpi.Backend.Requests.Waiting
import EsalsaMpi.Backend.Requests.Waitall
import EsalsaMpi.Backend.Requests.Waitany
import EsalsaMpi.Library.HandleTables
import EsalsaMpi.Backend.Handles
import EsalsaMpi.Backend.GroupFailure
import EsalsaMpi.Library.LinkedLists
import EsalsaMpi.Backend.MessageQueue
import EsalsaMpi.Gateway.Forwarding
import EsalsaMpi.Library.Readers
import EsalsaMpi.Startup.Exchange.Program
import EsalsaMpi.Startup.Exchange.Codecs
import EsalsaMpi.Startup.Exchange.Agreement
import EsalsaMpi.Shutdown.Closing.Program
import EsalsaMpi.Shutdown.Closing.Jobs
import EsalsaMpi.Shutdown.Closing.Chain
import EsalsaMpi.Shutdown.Closing.Requests
import EsalsaMpi.Shutdown.Closing.Finalizing
import EsalsaMpi.Shutdown.Closing.Progress
import EsalsaMpi.Shutdown.Closing.Links
import EsalsaMpi.Shutdown.Closing.Order
import EsalsaMpi.Library.Endings
import EsalsaMpi.Gateway.Setup.Pairing
import EsalsaMpi.Library.Shares
import EsalsaMpi.Shutdown.Closing.Telling
import EsalsaMpi.Shutdown.Closing.Completion
import EsalsaMpi.Concurrent.Settling
import EsalsaMpi.Startup.SignUp.Program
import EsalsaMpi.Startup.SignUp.Lines
import EsalsaMpi.Startup.SignUp.Holding
import EsalsaMpi.Startup.SignUp.Invariant
import EsalsaMpi.Startup.SignUp.Completion
import EsalsaMpi.Gateway.Conservation
import EsalsaMpi.Gateway.Draining
import EsalsaMpi.Library.Recoding
import EsalsaMpi.Backend.Member.Allgather
import EsalsaMpi.Backend.Member.EqualBlocks
import EsalsaMpi.Backend.Member.Rows
