import Chbackup.Backup.Captured
import Chbackup.Backup.Carried
import Chbackup.Backup.Complete
import Chbackup.Backup.Create
import Chbackup.Backup.Diff
import Chbackup.Backup.Freezing
import Chbackup.Backup.Frozen
import Chbackup.Backup.Owners
import Chbackup.Backup.Shadow
import Chbackup.Backup.Stage
import Chbackup.Chain.Commands
import Chbackup.Chain.Format
import Chbackup.Chain.Resolvable
import Chbackup.CleanBroken.Pass
import Chbackup.CleanBroken.Safety
import Chbackup.Client.Disks
import Chbackup.Client.Statements
import Chbackup.Client.Totality
import Chbackup.Client.Xml
import Chbackup.Deferred.Claimed
import Chbackup.Deferred.Duties
import Chbackup.Deferred.Listed
import Chbackup.Deferred.Orderly
import Chbackup.Deferred.Programs
import Chbackup.Deferred.Reaping
import Chbackup.Deferred.Record
import Chbackup.Deferred.World
import Chbackup.Download.Complete
import Chbackup.Download.Disk
import Chbackup.Download.Paths
import Chbackup.Download.Program
import Chbackup.Download.Progress
import Chbackup.Keys.Encoding
import Chbackup.Keys.FreezeNames
import Chbackup.Keys.Listed
import Chbackup.Keys.Objects
import Chbackup.Keys.Recovered
import Chbackup.Keys.Tables
import Chbackup.Keys.Uploaded
import Chbackup.Layout
import Chbackup.Lib.BytePositions
import Chbackup.Lib.Checked
import Chbackup.Lib.Contracts
import Chbackup.Lib.Dependencies
import Chbackup.Lib.DirTree
import Chbackup.Lib.Ends
import Chbackup.Lib.Ensures
import Chbackup.Lib.Frames
import Chbackup.Lib.Glob
import Chbackup.Lib.Groups
import Chbackup.Lib.Guarantee
import Chbackup.Lib.Lexemes
import Chbackup.Lib.Lines
import Chbackup.Lib.Path
import Chbackup.Lib.Program
import Chbackup.Lib.Projection
import Chbackup.Lib.Quoting
import Chbackup.Lib.Search
import Chbackup.Lib.SortedMap
import Chbackup.Lib.StableSort
import Chbackup.Lib.Tasks
import Chbackup.Lib.Text
import Chbackup.Lib.Threads
import Chbackup.Lib.Tiles
import Chbackup.Lib.World
import Chbackup.Lib.Xml
import Chbackup.Listing.Cache
import Chbackup.Listing.Remote
import Chbackup.Lock
import Chbackup.Locks.Acquire
import Chbackup.Locks.Exclusion
import Chbackup.Locks.Scopes
import Chbackup.Locks.Shadow
import Chbackup.Locks.ShadowCleanup
import Chbackup.Locks.Takeover
import Chbackup.Manifest
import Chbackup.ObjectDisk
import Chbackup.ObjectDisk.Reserve
import Chbackup.ObjectDisk.RoundTrip
import Chbackup.Restore.Accounted
import Chbackup.Restore.Attach
import Chbackup.Restore.AttachOrder
import Chbackup.Restore.Calls
import Chbackup.Restore.CreateStatement
import Chbackup.Restore.Ddl
import Chbackup.Restore.DdlObjects
import Chbackup.Restore.DropScope
import Chbackup.Restore.Evidence
import Chbackup.Restore.Fallback
import Chbackup.Restore.Footprint
import Chbackup.Restore.History
import Chbackup.Restore.Kahn
import Chbackup.Restore.Locators
import Chbackup.Restore.Macros
import Chbackup.Restore.Mutations
import Chbackup.Restore.OnlyTargets
import Chbackup.Restore.Order
import Chbackup.Restore.Partitions
import Chbackup.Restore.Reach
import Chbackup.Restore.Refused
import Chbackup.Restore.Remap
import Chbackup.Restore.Restore
import Chbackup.Restore.ResumeParts
import Chbackup.Restore.Rewrite
import Chbackup.Restore.S3Parts
import Chbackup.Restore.Schema
import Chbackup.Resume
import Chbackup.Retention.Closure
import Chbackup.Retention.Contract
import Chbackup.Retention.DeleteRemote
import Chbackup.Retention.Interrupted
import Chbackup.Retention.Pass
import Chbackup.Retention.Unreadable
import Chbackup.Server.AutoResume
import Chbackup.Server.Exclusion
import Chbackup.Server.Identities
import Chbackup.Server.Permits
import Chbackup.Server.Queue
import Chbackup.Server.Resuming
import Chbackup.Server.Stages
import Chbackup.Server.State
import Chbackup.Server.StateFiles
import Chbackup.Server.Transitions
import Chbackup.Server.Truth
import Chbackup.Storage.Bucket
import Chbackup.Storage.Copy
import Chbackup.Storage.CopyAttempts
import Chbackup.Storage.CopyLimits
import Chbackup.Storage.CopyStores
import Chbackup.Storage.Endpoint
import Chbackup.Storage.Multipart
import Chbackup.Storage.Requests
import Chbackup.Storage.Retry
import Chbackup.Upload.Attempt
import Chbackup.Upload.Merge
import Chbackup.Upload.Plan
import Chbackup.Upload.Published
import Chbackup.Upload.Resumed
import Chbackup.Upload.Stream
import Chbackup.Watch.Decision
import Chbackup.Watch.Loop
import Chbackup.Watch.Names
import Chbackup.Watch.Recognised
import Chbackup.Watch.Schedule
