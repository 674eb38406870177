import MdbxGo.Transition
import MdbxGo.Mdbx.World
import MdbxGo.Libmdbx.Effect
import MdbxGo.Libmdbx.Locality
import MdbxGo.Libmdbx.Create
import MdbxGo.Mdbx.Act
import MdbxGo.Mdbx.Commit
import MdbxGo.Libmdbx.Local
import MdbxGo.Mdbx.Stack
import MdbxGo.Libmdbx.Ending
import MdbxGo.Mdbx.Lock
import MdbxGo.Libmdbx.Session
import MdbxGo.Mdbx.Alias
import MdbxGo.Libmdbx.Parking
import MdbxGo.Mdbx.Ids
import MdbxGo.Threads
import MdbxGo.Mdbxpool.CommitID
import MdbxGo.Mdbx.ReaderList
import MdbxGo.Mdbx.Registry
import MdbxGo.RWMutex
import MdbxGo.Libmdbx.Close
import MdbxGo.Libmdbx.Table
import MdbxGo.Mdbx.CloseGuard
import MdbxGo.Mdbx.Close
import MdbxGo.Mdbx.Delete
import MdbxGo.Libmdbx.Cutoff
import MdbxGo.Mdbx.DeleteRange
import MdbxGo.Mdbx.Amend
import MdbxGo.Mdbx.CloneInto
import MdbxGo.Libmdbx.Snapshot
import MdbxGo.Mdbx.Snapshot
import MdbxGo.Mdbxpool.TxnPool
import MdbxGo.Mdbxpool.Moves
import MdbxGo.Mdbxpool.LastID
import MdbxGo.Mdbx.Readers
import MdbxGo.Mdbx.Coherence
import MdbxGo.Mdbx.Agreement
import MdbxGo.Mdbx.Managed
import MdbxGo.Word
import MdbxGo.Mdbx.Duration
import MdbxGo.Slice
import MdbxGo.Mdbx.Multi
import MdbxGo.Mdbx.Error
import MdbxGo.Mdbx.ListDBI
import MdbxGo.Libmdbx.Estimate
import MdbxGo.Mdbx.Estimate
import MdbxGo.Mdbxpool.Custody
import MdbxGo.Mdbxpool.Lending
import MdbxGo.Mdbxpool.Fresh
import MdbxGo.Mdbxpool.Resting
import MdbxGo.Mdbxpool.HandleIdle
import MdbxGo.Mdbxpool.Idle
import MdbxGo.Mdbxpool.Strict
import MdbxGo.Mdbxpool.Account
import MdbxGo.Mdbxpool.Close
import MdbxGo.Owned
import MdbxGo.Libmdbx.Cursor
import MdbxGo.Libmdbx.Settling
import MdbxGo.Libmdbx.Kind
import MdbxGo.Mdbx.Kind
import MdbxGo.Mdbx.Cursor
import MdbxGo.Ordered
import MdbxGo.Libmdbx.Troika
import MdbxGo.Libmdbx.Mvcc
import MdbxGo.Libmdbx.Oldest
import MdbxGo.Libmdbx.Seize
import MdbxGo.Libmdbx.Protected
import MdbxGo.Libmdbx.Durability
import MdbxGo.Libmdbx.Images
import MdbxGo.Libmdbx.Sync
import MdbxGo.Libmdbx.Rollback
import MdbxGo.Search
import MdbxGo.Lanes
import MdbxGo.Libmdbx.Scan
import MdbxGo.Falling
import MdbxGo.Libmdbx.Pnl
import MdbxGo.Libmdbx.Merge
import MdbxGo.Libmdbx.Span
import MdbxGo.Libmdbx.Repnl
import MdbxGo.Libmdbx.Pages
import MdbxGo.Libmdbx.Space
import MdbxGo.Libmdbx.Refund
import MdbxGo.Libmdbx.Turnover
import MdbxGo.Libmdbx.Isolation
import MdbxGo.Digits
import MdbxGo.Libmdbx.Compare
import MdbxGo.Bisect
import MdbxGo.Libmdbx.Foliage
import MdbxGo.Libmdbx.Seek
import MdbxGo.Libmdbx.Walk
