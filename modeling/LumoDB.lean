import LumoDB.CheckedOpen
import LumoDB.ColumnContents
import LumoDB.DecodeSafety
import LumoDB.Diagnostics
import LumoDB.DiagnosticsReads
import LumoDB.FailedAppend
import LumoDB.FailedResize
import LumoDB.FailedUpdate
import LumoDB.Faults
import LumoDB.File
import LumoDB.Hash
import LumoDB.History
import LumoDB.IndexFile
import LumoDB.IndexLayout
import LumoDB.IndexSafety
import LumoDB.InterruptedMigration
import LumoDB.LegacyOpen
import LumoDB.Lib.Bytes
import LumoDB.Lib.Concurrency
import LumoDB.Lib.Interruption
import LumoDB.Lib.OrderedMap
import LumoDB.Lib.Probing
import LumoDB.Lib.Program
import LumoDB.Lib.Scan
import LumoDB.Lifecycle
import LumoDB.Machine
import LumoDB.Migration
import LumoDB.ObjectCalls
import LumoDB.ObjectIndex
import LumoDB.ObjectOpen
import LumoDB.ObjectRebuild
import LumoDB.ObjectRefinement
import LumoDB.ObjectResize
import LumoDB.ObjectSteps
import LumoDB.ObjectStore
import LumoDB.ObjectTable
import LumoDB.ObjectUpdate
import LumoDB.OneByOne
import LumoDB.Open
import LumoDB.OpenObjects
import LumoDB.ReadOnlyOpen
import LumoDB.ReadOnlyRefinement
import LumoDB.ReadSteps
import LumoDB.Replay
import LumoDB.ResizeLookups
import LumoDB.RowBlock
import LumoDB.RowBuild
import LumoDB.RowCalls
import LumoDB.RowCodec
import LumoDB.RowDecode
import LumoDB.RowFrame
import LumoDB.RowIndex
import LumoDB.RowIndexFile
import LumoDB.RowLayout
import LumoDB.RowOpen
import LumoDB.RowReads
import LumoDB.RowRebuild
import LumoDB.RowRefinement
import LumoDB.RowResize
import LumoDB.RowRoundTrip
import LumoDB.RowScan
import LumoDB.RowStore
import LumoDB.RowTable
import LumoDB.RowWrite
import LumoDB.Session
import LumoDB.ShardScan
import LumoDB.Status
import LumoDB.StorageFormat
import LumoDB.UniqueBatch
import LumoDB.ValueScan
import LumoDB.WrappedIndex
import LumoDB.VectoredWrite
import LumoDB.TableSizes
import LumoDB.RebuildLoad
import LumoDB.RowReservation
import LumoDB.OpenedCapacity
import LumoDB.LookupSafety
import LumoDB.ReadOnlySession
import LumoDB.ShardGrowth
import LumoDB.SharedRows
import LumoDB.SharedReads
import LumoDB.SharedLookups
import LumoDB.SharedSteps
import LumoDB.SharedWrites
import LumoDB.SharedPublish
import LumoDB.SharedInserts
import LumoDB.SharedCalls
import LumoDB.SharedSettled
import LumoDB.ConcurrentRows
import LumoDB.ConcurrentHistory
import LumoDB.KilledRecovery
import LumoDB.KilledRowRecovery
import LumoDB.ConcurrentInserts
import LumoDB.RejectedScan
import LumoDB.RowFaults
import LumoDB.FailedRowAppend
import LumoDB.RowErrors
