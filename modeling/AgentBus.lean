import AgentBus.Lib.BinarySearch
import AgentBus.Lib.Merge
import AgentBus.Lib.Runs
import AgentBus.Lib.Histogram
import AgentBus.Lib.Gregorian
import AgentBus.Lib.Footprint
import AgentBus.Lib.Dialogue
import AgentBus.Lib.TreeMaps
import AgentBus.Lib.Mailbox
import AgentBus.Lib.MailRuns
import AgentBus.Lib.MailComplete
import AgentBus.Lib.MailExpiry
import AgentBus.Lib.MailMemory
import AgentBus.Lib.MailBatches
import AgentBus.Lib.Wakeup
import AgentBus.Lib.Text
import AgentBus.Lib.UnixPath
import AgentBus.Lib.Lines
import AgentBus.Lib.Json
import AgentBus.Lib.JsonText
import AgentBus.Lib.JsonTorn
import AgentBus.Lib.JsonCodec
import AgentBus.Core.Ulid
import AgentBus.Core.Reference
import AgentBus.Core.Topic
import AgentBus.Core.Message
import AgentBus.Core.Clock
import AgentBus.Core.Cursor
import AgentBus.Core.CursorFile
import AgentBus.Core.Paths
import AgentBus.Daemon.Log
import AgentBus.Daemon.Metrics
import AgentBus.Daemon.Partition
import AgentBus.Daemon.World
import AgentBus.Daemon.State
import AgentBus.Daemon.Report
import AgentBus.Daemon.Handler
import AgentBus.Daemon.Replay
import AgentBus.Daemon.Recovery
import AgentBus.Daemon.Steps
import AgentBus.Daemon.Delivery
import AgentBus.Daemon.Simulation
import AgentBus.Daemon.Server
import AgentBus.Daemon.Connection
import AgentBus.Daemon.Requests
import AgentBus.Daemon.Service
import AgentBus.Daemon.Timeline
import AgentBus.Daemon.Processes
import AgentBus.Daemon.Torn
import AgentBus.Daemon.Lifetimes
import AgentBus.Daemon.Locality
import AgentBus.Daemon.Sections
import AgentBus.Daemon.Acts
import AgentBus.Daemon.Succession
import AgentBus.Daemon.Sessions
import AgentBus.Daemon.Receipts
import AgentBus.Daemon.Stored
import AgentBus.Protocol.Frames
import AgentBus.Protocol.Stream
import AgentBus.Protocol.Answers
import AgentBus.Cli.Commands
import AgentBus.Cli.Wait
import AgentBus.Guarantees.AtMostOnce
import AgentBus.Guarantees.Completeness
import AgentBus.Guarantees.Retention
import AgentBus.Guarantees.Durability
import AgentBus.Guarantees.FailedDelivery
import AgentBus.Guarantees.Restart
import AgentBus.Guarantees.Wakeup
import AgentBus.Guarantees.Ordering
import AgentBus.Guarantees.Ledger
import AgentBus.Guarantees.Commands
import AgentBus.Guarantees.Waiting
import AgentBus.Guarantees.Receipts
import AgentBus.Guarantees.Loading
import AgentBus.Guarantees.LogRecords
import AgentBus.Guarantees.Calendar
import AgentBus.Guarantees.Selection
import AgentBus.Guarantees.Grammar
import AgentBus.Guarantees.Names
import AgentBus.Guarantees.Isolation
import AgentBus.Guarantees.IdleShutdown
import AgentBus.Guarantees.Histograms
import AgentBus.Guarantees.Window
import AgentBus.Guarantees.SingleWriter
import AgentBus.Guarantees.Upgrade
import AgentBus.Guarantees.FailedPrune
import AgentBus.Guarantees.Survival
import AgentBus.Guarantees.Sweep
import AgentBus.Guarantees.Records
import AgentBus.Guarantees.Snapped
import AgentBus.Guarantees.Lag
import AgentBus.Guarantees.Conservation
import AgentBus.Guarantees.NearestRank
import AgentBus.Guarantees.Cells
import AgentBus.Guarantees.Minutes
import AgentBus.Guarantees.Traffic
import AgentBus.Guarantees.Custody
import AgentBus.Guarantees.Batches
import AgentBus.Guarantees.Consumers
import AgentBus.Guarantees.Sessions
