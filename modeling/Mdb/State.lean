import Mdb.Item

/-!
# The state of the store

The singletons of the program (`ItemManager`, `AssocMaintainer`, `SlabsManager`, `LRUCrawler`) and
its globals (`g_settings`, `g_stats`, `g_current_time`, `Hash`) as one record `Store`; every member
function becomes a function on it.

What the code cannot know in advance is read off `Env`: whether each coming `pthread_mutex_trylock`,
`calloc`, `realloc` and `malloc` succeeds. A statement about every `Store` is therefore a statement
about every outcome of these calls. Blocking lock operations and asserts are no-ops.

* `Settings`, `initDBSettings`: the settings the modelled functions read, and InitDB's values;
* `Lru`, `Assoc`, `SlabClass`, `Slabs`, `Crawlers`, `ItemStats`, `Stats`, `Env`, `Store`;
* field stores (`setTime`, `setFlags`, …), `refcountIncr`, `refcountDecr`, `getCasId`, `tryLock`.
-/

namespace Mdb

/-- `g_settings`, as far as the modelled functions read it. -/
structure Settings where
  useCas : Bool
  oldestLive : UInt32
  oldestCas : UInt64
  evictToFree : ℕ
  lruMaintainerThread : Bool
  expirezeroDoesNotEvict : Bool
  tailRepairTime : UInt32
  hotLruPct : UInt64
  warmLruPct : UInt64
  slabReassign : Bool
  itemSizeMax : ℕ
  chunkSize : ℕ
  lruCrawlerTocrawl : UInt32

/-- The settings made by `MDB::InitDB`. -/
def initDBSettings : Settings where
  useCas := true
  oldestLive := 0
  oldestCas := 0
  evictToFree := 1
  lruMaintainerThread := false
  expirezeroDoesNotEvict := false
  tailRepairTime := 0
  hotLruPct := 32
  warmLruPct := 32
  slabReassign := false
  itemSizeMax := 1024 * 1024
  chunkSize := 48
  lruCrawlerTocrawl := 0

/-- `heads_`, `tails_` and `item_sizes_` of the item manager. -/
structure Lru where
  heads : ℕ → Option Ptr
  tails : ℕ → Option Ptr
  itemSizes : ℕ → UInt32

/-- `AssocMaintainer`: a bucket of a table is the list of the items on its chain. -/
structure Assoc where
  hashpower : ℕ
  primary : ℕ → List Ptr
  old : ℕ → List Ptr
  hashItems : UInt32
  expanding : Bool
  startedExpanding : Bool
  expandBucket : ℕ
  hashBulkMove : ℕ

/-- `struct SlabClass`. -/
structure SlabClass where
  size : ℕ
  perslab : ℕ
  slots : Option Ptr
  slCurr : UInt32
  slabs : ℕ
  slabList : List ℕ
  listSize : ℕ
  requested : UInt64

/-- `SlabsManager`. -/
structure Slabs where
  slabclass : ℕ → SlabClass
  memLimit : ℕ
  memMalloced : ℕ
  memLimitReached : Bool
  powerLargest : ℕ
  memBase : Option ℕ
  memCurrent : ℕ
  memAvail : ℕ

/-- `struct CrawlerStats`. -/
structure CrawlerStats where
  histo : ℕ → UInt64
  ttlHourplus : UInt64
  noexp : UInt64
  reclaimed : UInt64
  seen : UInt64
  startTime : UInt32
  endTime : UInt32
  runComplete : Bool

/-- `LRUCrawler`; the other fields of `crawlers_[id]` are those of the item `Ptr.crawler id`. -/
structure Crawlers where
  crawlerCount : ℤ
  remaining : ℕ → UInt32
  crawlerStats : ℕ → CrawlerStats

/-- `struct ItemStats`, the counters of one queue. -/
structure ItemStats where
  evicted : UInt64
  evictedNonzero : UInt64
  reclaimed : UInt64
  outofmemory : UInt64
  tailrepairs : UInt64
  expiredUnfetched : UInt64
  evictedUnfetched : UInt64
  crawlerReclaimed : UInt64
  crawlerItemsChecked : UInt64
  lrutailReflocked : UInt64
  movesToCold : UInt64
  movesToWarm : UInt64
  movesWithinLru : UInt64
  directReclaims : UInt64
  evictedTime : UInt32

/-- `g_stats`, as far as the modelled functions write it. -/
structure Stats where
  currItems : UInt32
  totalItems : UInt32
  currBytes : UInt64
  hashPowerLevel : ℕ
  hashBytes : UInt64
  hashIsExpanding : Bool
  lruCrawlerStarts : UInt64
  lruCrawlerRunning : Bool

/-- The outcomes of the coming calls to the environment, in order. A `malloc` outcome is the address
it returns. -/
structure Env where
  tryLocks : ℕ → Bool
  callocs : ℕ → Bool
  reallocs : ℕ → Bool
  mallocs : ℕ → Option ℕ

/-- One call to the item memory: `DoSlabsAlloc` handed out `it`, or `FreeItem(it)` ran while the
linked bit of `it` was `linked`. -/
inductive MemEvent where
  | alloc (it : Ptr)
  | free (it : Ptr) (linked : Bool)
  deriving DecidableEq

/-- **The store.** `itemLocks` are the item locks taken by `TryLock` and not given back; `trace`
records the item memory's calls, newest first, and is read by no function. -/
structure Store where
  heap : Heap
  lru : Lru
  assoc : Assoc
  slabs : Slabs
  crawlers : Crawlers
  itemStats : ℕ → ItemStats
  stats : Stats
  settings : Settings
  hash : Key → UInt32
  /-- `g_current_time`. -/
  now : UInt32
  /-- The item manager's own `current_time_`, which nothing ever assigns. -/
  currentTime : UInt32
  casId : ℕ
  itemLocks : List ℕ
  env : Env
  trace : List MemEvent

/-! ## The store at the start -/

/-- No slab class yet has a page; the table of sizes is `InitSlabs`' to fill. -/
def Slabs.initial (limit : ℕ) : Slabs where
  slabclass _ := ⟨0, 0, none, 0, 0, [], 0, 0⟩
  memLimit := limit
  memMalloced := 0
  memLimitReached := false
  powerLargest := 0
  memBase := none
  memCurrent := 0
  memAvail := 0

/-- Every call to the environment fails. -/
def Env.failing : Env := ⟨fun _ => false, fun _ => false, fun _ => false, fun _ => none⟩

def ItemStats.zero : ItemStats := ⟨0, 0, 0, 0, 0, 0, 0, 0, 0, 0, 0, 0, 0, 0, 0⟩

def CrawlerStats.zero : CrawlerStats := ⟨fun _ => 0, 0, 0, 0, 0, 0, 0, false⟩

/-- An empty hash table of `2 ^ hashpower` buckets. -/
def Assoc.initial (hashpower : ℕ) : Assoc where
  hashpower := hashpower
  primary _ := []
  old _ := []
  hashItems := 0
  expanding := false
  startedExpanding := false
  expandBucket := 0
  hashBulkMove := 1

/-- **The empty store**, with the settings of `InitDB`. -/
def Store.initial (hashpower : ℕ) (hash : Key → UInt32) (slabs : Slabs) (env : Env) : Store where
  heap := .zero
  lru := ⟨fun _ => none, fun _ => none, fun _ => 0⟩
  assoc := .initial hashpower
  slabs := slabs
  crawlers := ⟨0, fun _ => 0, fun _ => .zero⟩
  itemStats _ := .zero
  stats := ⟨0, 0, 0, hashpower, UInt64.ofNat (8 * 2 ^ hashpower), false, 0, false⟩
  settings := initDBSettings
  hash := hash
  now := 0
  currentTime := 0
  casId := 0
  itemLocks := []
  env := env
  trace := []

namespace Store

variable (s : Store) (it : Ptr)

/-! ## Field stores -/

def setTime (t : UInt32) : Store :=
  { s with heap := { s.heap with time := Function.update s.heap.time it t } }

def setExptime (t : UInt32) : Store :=
  { s with heap := { s.heap with exptime := Function.update s.heap.exptime it t } }

def setRefcount (n : ℕ) : Store :=
  { s with heap := { s.heap with refcount := Function.update s.heap.refcount it n } }

def setFlags (f : ItemFlags) : Store :=
  { s with heap := { s.heap with itFlags := Function.update s.heap.itFlags it f } }

def setClsid (id : ℕ) : Store :=
  { s with heap := { s.heap with slabsClsid := Function.update s.heap.slabsClsid it id } }

def setData (d : ℕ → UInt8) : Store :=
  { s with heap := { s.heap with data := Function.update s.heap.data it d } }

/-- `ITEM_set_cas`. -/
def setCas (v : UInt64) : Store :=
  if (s.heap.itFlags it).cas then
    { s with heap := { s.heap with cas := Function.update s.heap.cas it v } }
  else s

/-- The item's flags. -/
abbrev flags : ItemFlags := s.heap.itFlags it

/-- One counter of queue `id` moves. -/
def bump (id : ℕ) (f : ItemStats → ItemStats) : Store :=
  { s with itemStats := Function.update s.itemStats id (f (s.itemStats id)) }

/-! ## Reference counts, CAS ids, item locks -/

/-- `RefcountIncr`: the result is what the 16-bit counter then reads. -/
def refcountIncr : ℕ × Store :=
  ((s.heap.refcount it + 1) % 2 ^ 16, s.setRefcount it (s.heap.refcount it + 1))

/-- `RefcountDecr`. A counter at zero wraps to `2 ^ 16 - 1`. -/
def refcountDecr : ℕ × Store :=
  let n := if s.heap.refcount it = 0 then 2 ^ 16 - 1 else s.heap.refcount it - 1
  (n % 2 ^ 16, s.setRefcount it n)

/-- `GetCasId`. -/
def getCasId : UInt64 × Store := (UInt64.ofNat (s.casId + 1), { s with casId := s.casId + 1 })

/-- `hashsize(n)`. -/
def hashsize (n : ℕ) : ℕ := 2 ^ n

/-- `hashmask(n)`. -/
def hashmask (n : ℕ) : ℕ := hashsize n - 1

/-- `lg_power`: there are `hashsize(lg_power)` item locks. -/
def lgPower : ℕ := 13

/-- `TryLock(hv)`: the lock taken, if any. A lock that is already held is never taken. -/
def tryLock (hv : UInt32) : Option ℕ × Store :=
  let l := hv.toNat &&& hashmask lgPower
  let s' := { s with env := { s.env with tryLocks := fun n => s.env.tryLocks (n + 1) } }
  if s.env.tryLocks 0 = true ∧ l ∉ s.itemLocks then
    (some l, { s' with itemLocks := l :: s.itemLocks })
  else (none, s')

/-- All a `TryLock` does: it consumes an outcome and may take a lock. -/
theorem tryLock_cases (s : Store) (hv : UInt32) :
    (∃ e, s.tryLock hv = (none, { s with env := e })) ∨
      ∃ l e, s.tryLock hv = (some l, { s with env := e, itemLocks := l :: s.itemLocks }) := by
  dsimp only [tryLock]
  split_ifs
  · exact .inr ⟨_, _, rfl⟩
  · exact .inl ⟨_, rfl⟩

/-- `TryLockUnlock(lock)`. -/
def tryLockUnlock (l : ℕ) : Store := { s with itemLocks := s.itemLocks.erase l }

end Store

end Mdb
