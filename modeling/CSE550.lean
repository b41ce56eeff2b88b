import CSE550.Lib.Lists
import CSE550.Lib.Machine
import CSE550.Lib.Quorum
import CSE550.Lib.Text
import CSE550.Lib.Decimal
import CSE550.Lib.Tables
import CSE550.Lib.Counts
import CSE550.Lib.Csv
import CSE550.Lib.Framing
import CSE550.Lib.CountLoop
import CSE550.Lib.Waiting
import CSE550.Lib.Walks
import CSE550.Lib.Rdd
import CSE550.Lib.Ledger
import CSE550.Lib.Locks
import CSE550.Lib.Workload
import CSE550.Lib.DescriptorTable
import CSE550.Lib.Means
import CSE550.Paxos.Message
import CSE550.Paxos.Acceptor
import CSE550.Paxos.Proposer
import CSE550.Paxos.Group
import CSE550.Paxos.Stream
import CSE550.Paxos.Steps
import CSE550.Paxos.Delivery
import CSE550.Paxos.Promise
import CSE550.Paxos.Wire
import CSE550.Paxos.Numbers
import CSE550.Paxos.Replies
import CSE550.Paxos.Tally
import CSE550.Paxos.Refinement
import CSE550.Paxos.Replay
import CSE550.Paxos.Clients
import CSE550.Paxos.History
import CSE550.Paxos.LockSafety
import CSE550.Paxos.Linearization
import CSE550.Paxos.Ownership
import CSE550.Paxos.Quorums
import CSE550.Paxos.Duplication
import CSE550.Paxos.Progress
import CSE550.Paxos.Serve
import CSE550.Paxos.Collect
import CSE550.Paxos.Resolution
import CSE550.Paxos.Accepted
import CSE550.Paxos.Climbing
import CSE550.Paxos.Rounds
import CSE550.Paxos.Schedules
import CSE550.Paxos.Deadlocks
import CSE550.Paxos.LockOrder
import CSE550.Paxos.Tolerance
import CSE550.Paxos.Assertions
import CSE550.Paxos.Answers
import CSE550.Paxos.Exits
import CSE550.Paxos.Undelivered
import CSE550.LockFile.Format
import CSE550.LockFile.Validate
import CSE550.LockFile.CrossCheck
import CSE550.LockFile.Generate
import CSE550.LockFile.Pairs
import CSE550.LockFile.Integration
import CSE550.Citations.Distances
import CSE550.Citations.Ancestors
import CSE550.Citations.Lca
import CSE550.Citations.Improved
import CSE550.WebServer.Sending
import CSE550.WebServer.EventLoop
import CSE550.WebServer.Descriptors
import CSE550.WebServer.Assembly
import CSE550.WebServer.SlotSends
import CSE550.WebServer.SelfPipe
import CSE550.WebServer.Backlog
import CSE550.WebServer.Service
import CSE550.WebServer.Serving
import CSE550.WebServer.Bounds
import CSE550.WebServer.ThreadPool
import CSE550.WebServer.Requests
import CSE550.WebServer.Shutdown
import CSE550.Shell.Parse
import CSE550.Shell.Pipeline
import CSE550.Shell.Session
import CSE550.Trace.Usage
import CSE550.Trace.Reduce
import CSE550.Trace.ReadBack
import CSE550.Trace.Totals
import CSE550.Trace.Averages
import CSE550.Trace.Orders
import CSE550.Trace.Combining
import CSE550.Trace.Consistency
import CSE550.Trace.Faults
import CSE550.Trace.Events
import CSE550.Trace.Distribution
import CSE550.Trace.Capacity
import CSE550.Trace.Cleaning
import CSE550.Trace.Sightings
