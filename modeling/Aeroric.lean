import Aeroric.Program
import Aeroric.Interleaving
import Aeroric.TaskRecord
import Aeroric.TaskSession
import Aeroric.TaskReducer
import Aeroric.TaskEdit
import Aeroric.TaskRowLaws
import Aeroric.TaskLaunch
import Aeroric.TaskLedger
import Aeroric.TaskStorage
import Aeroric.TaskWorld
import Aeroric.TaskService
import Aeroric.TaskInterface
import Aeroric.TaskSpec
import Aeroric.TaskCommit
import Aeroric.TaskLaunched
import Aeroric.TaskCalls
import Aeroric.TaskFrame
import Aeroric.TaskRuns
import Aeroric.TaskExit
import Aeroric.TaskAttempts
import Aeroric.TaskActions
import Aeroric.TaskRefusal
import Aeroric.TaskCover
import Aeroric.Submission
import Aeroric.SubmissionOnce
import Aeroric.Decimal
import Aeroric.StorageTemps
import Aeroric.PrefixCode
import Aeroric.SubmissionMaterial
import Aeroric.Threads
import Aeroric.DeliveryItem
import Aeroric.DeliveryQueue
import Aeroric.DeliveryAttempts
import Aeroric.DeliveryOnce
import Aeroric.DeliverySessions
import Aeroric.DeliveryProgress
import Aeroric.DeliveryEvidence
import Aeroric.Patch
import Aeroric.TurnLedger
import Aeroric.TurnRestore
import Aeroric.TurnBatch
import Aeroric.Table
import Aeroric.TableMerge
import Aeroric.SyncPlan
import Aeroric.SyncDiff
import Aeroric.SyncSchedule
import Aeroric.Liveness
import Aeroric.SyncDaemon
import Aeroric.NoteSave
import Aeroric.SyncPaths
import Aeroric.SyncScan
import Aeroric.CircuitBreaker
import Aeroric.CooldownRests
import Aeroric.CooldownTable
import Aeroric.EventLog
import Aeroric.TerminalLease
import Aeroric.TerminalStreams
import Aeroric.TerminalReplay
import Aeroric.Bytes
import Aeroric.PushAuth
import Aeroric.Json
import Aeroric.Sse
import Aeroric.Fallible
import Aeroric.NoteHistory
import Aeroric.Boards
import Aeroric.IsolatedCopy
import Aeroric.Runs
import Aeroric.SmoothRotation
import Aeroric.Routing
import Aeroric.DiffHunks
import Aeroric.Staleness
import Aeroric.BridgeCommon
import Aeroric.ChatBridge
import Aeroric.ChatStream
import Aeroric.PivotBridge
import Aeroric.Search
import Aeroric.InlineToolCalls
import Aeroric.MessagesBridge
import Aeroric.SseBridges
import Aeroric.ToolNames
import Aeroric.RemotePaths
import Aeroric.Utf8
import Aeroric.Utf8Projection
import Aeroric.TerminalHistory
import Aeroric.Ranges
import Aeroric.StickySession
import Aeroric.Connections
import Aeroric.PushSignatures
import Aeroric.PumpRestarts
import Aeroric.AutoCheck
import Aeroric.PushPlane
import Aeroric.NotePurge
import Aeroric.NoteLinks
import Aeroric.Highlights
import Aeroric.WikiEdits
import Aeroric.WikiPages
import Aeroric.NotionLinks
import Aeroric.ImportArchive
import Aeroric.ChunkCover
import Aeroric.Segmentation
import Aeroric.RagContext
import Aeroric.HighlightPlaces
