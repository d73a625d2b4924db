import Mdb.Lib.Arena
import Mdb.Lib.Buckets
import Mdb.Lib.Bytes
import Mdb.Lib.CText
import Mdb.Lib.Dll
import Mdb.Lib.Locks
import Mdb.Lib.Recency
import Mdb.Lib.RoundRobin
import Mdb.Lib.Run
import Mdb.Util
import Mdb.Item
import Mdb.State
import Mdb.Assoc.Table
import Mdb.Assoc.Runs
import Mdb.Assoc.Handoff
import Mdb.Assoc.Wakeup
import Mdb.Slabs.Model
import Mdb.Slabs.Freelist
import Mdb.Slabs.Pages
import Mdb.Slabs.Conserve
import Mdb.Slabs.Runs
import Mdb.Slabs.Classes
import Mdb.Slabs.Memory
import Mdb.Slabs.Reassign
import Mdb.Slabs.Automove
import Mdb.Lru.Queue
import Mdb.Lru.Runs
import Mdb.Lru.Crawl
import Mdb.Store.Model
import Mdb.Store.Inv
import Mdb.Store.Steps
import Mdb.Store.Ops
import Mdb.Store.Crawler
import Mdb.Store.PullTail
import Mdb.Store.Alloc
import Mdb.TimedMap
import Mdb.Store.Lookup
import Mdb.Store.StoreItem
import Mdb.Store.World
import Mdb.Store.Coherence
import Mdb.Store.Refine
import Mdb.Store.Cas
import Mdb.Store.Background
import Mdb.Store.CrawlRuns
import Mdb.Store.Counts
import Mdb.Store.Bytes
import Mdb.Store.Eviction
import Mdb.Store.Flow
import Mdb.Store.Rebalance
import Mdb.Store.Fit
import Mdb.Store.Layout
import Mdb.Store.CacheDump
import Mdb.Store.Join
import Mdb.Store.Trace
import Mdb.Assoc.ItemLocks
import Mdb.Store.Asserts
import Mdb.Store.Neutral
import Mdb.Store.CrawlRefs
import Mdb.Store.Discipline
import Mdb.Store.Pressure
import Mdb.Store.LockCalls
import Mdb.Store.CrawlRequest
import Mdb.Store.Recrawl
import Mdb.Store.CrawlStats
import Mdb.Store.Maintainer
import Mdb.Engine
import Mdb.Expiry
import Mdb.Worker
import Mdb.Server
import Mdb.Lib.LockOrder
import Mdb.LossyMap
import Mdb.Store.System
import Mdb.Store.LockOrder
import Mdb.Store.RebalanceRun
import Mdb.Lib.Mixing
import Mdb.Hash
import Mdb.Lib.Wire
import Mdb.Ldb.Coding
import Mdb.Lib.Crc
import Mdb.Ldb.Crc
import Mdb.Lib.Fragments
import Mdb.Ldb.LogWriter
import Mdb.Ldb.LogReader
import Mdb.Ldb.Log
import Mdb.Ldb.Batch
import Mdb.Ldb.Format
import Mdb.Ldb.MemTable
import Mdb.Ldb.Db
import Mdb.Ldb.Store
