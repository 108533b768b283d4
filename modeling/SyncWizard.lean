import SyncWizard.Client.Cleanup
import SyncWizard.Client.Commands
import SyncWizard.Client.Effects
import SyncWizard.Client.Inotify
import SyncWizard.Client.Launch
import SyncWizard.Client.Login
import SyncWizard.Client.Network
import SyncWizard.Client.Outcomes
import SyncWizard.Client.Program
import SyncWizard.Client.State
import SyncWizard.Client.Sync
import SyncWizard.Common.AsyncInput
import SyncWizard.Common.Chunks
import SyncWizard.Common.Command
import SyncWizard.Common.CommandArray
import SyncWizard.Common.Connection
import SyncWizard.Common.FileBuffers
import SyncWizard.Common.FileStream
import SyncWizard.Common.FileSystem
import SyncWizard.Common.Host
import SyncWizard.Common.InotifyWatcher
import SyncWizard.Common.Listing
import SyncWizard.Common.Lockless
import SyncWizard.Common.Locks
import SyncWizard.Common.Packet
import SyncWizard.Common.Receiving
import SyncWizard.Common.SenderLoop
import SyncWizard.Common.Storage
import SyncWizard.Common.Terminal
import SyncWizard.Common.Text
import SyncWizard.Common.Transfer
import SyncWizard.Foundation.Drafts
import SyncWizard.Foundation.Exchange
import SyncWizard.Foundation.Framing
import SyncWizard.Foundation.LexicalPath
import SyncWizard.Foundation.LineEditors
import SyncWizard.Foundation.Pieces
import SyncWizard.Foundation.Programs
import SyncWizard.Foundation.ReadAhead
import SyncWizard.Foundation.Safety
import SyncWizard.Foundation.Schedules
import SyncWizard.Foundation.Words
import SyncWizard.Properties.AcceptedLogins
import SyncWizard.Properties.BroadcastDelivery
import SyncWizard.Properties.ChunkHandlers
import SyncWizard.Properties.ChunkLabels
import SyncWizard.Properties.ClearedTemporaries
import SyncWizard.Properties.ClientWire
import SyncWizard.Properties.CommandCodec
import SyncWizard.Properties.CommandLanguage
import SyncWizard.Properties.CompleteListing
import SyncWizard.Properties.ConcurrentUploads
import SyncWizard.Properties.DeletedFiles
import SyncWizard.Properties.DispatcherGrammar
import SyncWizard.Properties.DownloadAnswers
import SyncWizard.Properties.EndedPrograms
import SyncWizard.Properties.FailureReports
import SyncWizard.Properties.Farewell
import SyncWizard.Properties.FileChunks
import SyncWizard.Properties.FittingAnswers
import SyncWizard.Properties.FramingRoundTrip
import SyncWizard.Properties.FreedSlots
import SyncWizard.Properties.HandledWords
import SyncWizard.Properties.IntactFiles
import SyncWizard.Properties.KeptCopy
import SyncWizard.Properties.LaunchedLogins
import SyncWizard.Properties.ListReaders
import SyncWizard.Properties.ListReconciliation
import SyncWizard.Properties.LockTables
import SyncWizard.Properties.LoginAgreement
import SyncWizard.Properties.LoginReplies
import SyncWizard.Properties.NamedFiles
import SyncWizard.Properties.NothingSynchronised
import SyncWizard.Properties.OneReader
import SyncWizard.Properties.PacketScans
import SyncWizard.Properties.ReceiverSurvival
import SyncWizard.Properties.RecordedEvents
import SyncWizard.Properties.RedoneTransfers
import SyncWizard.Properties.RemovedSessions
import SyncWizard.Properties.RenameReports
import SyncWizard.Properties.RequestedUpload
import SyncWizard.Properties.ResponsiveSessions
import SyncWizard.Properties.SendQueueOrder
import SyncWizard.Properties.SenderSockets
import SyncWizard.Properties.SeparateCommands
import SyncWizard.Properties.SeparateTransfers
import SyncWizard.Properties.ServerDeletions
import SyncWizard.Properties.ServerLaunch
import SyncWizard.Properties.SessionRegistry
import SyncWizard.Properties.ShownUsers
import SyncWizard.Properties.SocketOwners
import SyncWizard.Properties.StoppedSenders
import SyncWizard.Properties.StreamAlignment
import SyncWizard.Properties.StuckTerminal
import SyncWizard.Properties.SyncWatcher
import SyncWizard.Properties.TextPayloads
import SyncWizard.Properties.TypedLines
import SyncWizard.Properties.UserConfinement
import SyncWizard.Properties.WatchedEvents
import SyncWizard.Server.Admission
import SyncWizard.Server.Commands
import SyncWizard.Server.Effects
import SyncWizard.Server.Launch
import SyncWizard.Server.Network
import SyncWizard.Server.Outcomes
import SyncWizard.Server.Overseer
import SyncWizard.Server.Program
import SyncWizard.Server.Readers
import SyncWizard.Server.Reconciliation
import SyncWizard.Server.Registry
import SyncWizard.Server.Runs
import SyncWizard.Server.SendQueue
import SyncWizard.Server.SenderThreads
import SyncWizard.Server.Sessions
import SyncWizard.Server.State
