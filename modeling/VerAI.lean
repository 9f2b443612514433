import VerAI.Lib.Transition
import VerAI.Lib.Locks
import VerAI.Lib.Format
import VerAI.Lib.Schedules
import VerAI.Lib.RoundRobin
import VerAI.Lib.FileStore
import VerAI.Lib.Blocks
import VerAI.Lib.Splits
import VerAI.Lib.Comparator
import VerAI.Loader.Completeness
import VerAI.Loader.Confluence
import VerAI.Loader.Meaning
import VerAI.Loader.FileOrder
import VerAI.Loader.Selection
import VerAI.Loader.Agreement
import VerAI.Loader.Bulk
import VerAI.Dataset.NextBatch
import VerAI.Dataset.Handler
import VerAI.Dataset.Reader
import VerAI.Dataset.Training
import VerAI.Worker.Work
import VerAI.Worker.Deffered
import VerAI.Worker.Thread
import VerAI.Worker.Lifetime
import VerAI.Worker.Tasks
import VerAI.Worker.Conservation
import VerAI.Worker.Nearest
import VerAI.Worker.Joins
import VerAI.Worker.SharedQueue
import VerAI.Torrent.Stop
import VerAI.Torrent.Alerts
import VerAI.Torrent.Job
import VerAI.Torrent.Publication
import VerAI.Torrent.Snapshot
import VerAI.Torrent.Async
import VerAI.Torrent.Files
import VerAI.Torrent.Registered
import VerAI.Torrent.Manager
import VerAI.Torrent.Records
import VerAI.Torrent.MetadataFile
import VerAI.Torrent.Magnet
import VerAI.Client.Client
import VerAI.Client.KeepAlive
import VerAI.Client.Handshake
import VerAI.Client.Callbacks
import VerAI.Client.Stub
import VerAI.Client.Lifecycle
import VerAI.Controller.Controller
import VerAI.Controller.Shutdown
import VerAI.Server.Polling
import VerAI.Server.Offers
import VerAI.Server.Ledger
import VerAI.Server.Threads
import VerAI.Server.Deadlock
import VerAI.Server.Tasks
import VerAI.Server.Updates
import VerAI.Cluster.Cluster
import VerAI.Cluster.Provenance
import VerAI.Cluster.Downloads
import VerAI.Controller.Daemon
import VerAI.Controller.Rejected
import VerAI.Controller.Origin
import VerAI.Supervisor.Supervisor
import VerAI.Config.Config
import VerAI.Filesystem.File
import VerAI.Config.Process
