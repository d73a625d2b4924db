import Mdb.Assoc.Table
import Mdb.Lru.Queue
import Mdb.Slabs.Model

/-!
# Items in the store

The operations of `ItemManager` on whole items, function by function.

* `freeItem`, `doItemRemove`, `doItemLink`, `doItemUnlink`, `doItemUpdate`, `doItemUpdateNolock`,
  `doItemReplace`, `isFlushed`, `doItemGet`, `doItemTouch`;
* `pullItem`, `pullLoop`, `itemLRUPullTail`: the walk up from the tail of a queue;
* `allocLoop`, `doItemAlloc`; `doStoreItem`;
* `itemEvaluate`, `itemCrawlerEvaluate`: what the crawler does to an item.
-/

namespace Mdb

namespace Store

variable (s : Store)

/-- `IsFlushed(it)`. -/
def isFlushed (it : Ptr) : Bool :=
  if s.settings.oldestLive = 0 ∨ s.now < s.settings.oldestLive then false
  else decide (s.heap.time it ≤ s.settings.oldestLive ∨
    (s.settings.oldestCas ≠ 0 ∧ s.heap.getCas it ≠ 0 ∧ s.heap.getCas it < s.settings.oldestCas))

/-- `FreeItem(it)`. -/
def freeItem (it : Ptr) : Store :=
  { s with trace := .free it (s.flags it).linked :: s.trace }.doSlabsFree it (s.heap.ntotal it)
    (clearLru (s.heap.slabsClsid it))

/-- `DoItemRemove(it)`: one reference less. -/
def doItemRemove (it : Ptr) : Store :=
  if (s.refcountDecr it).1 = 0 then (s.refcountDecr it).2.freeItem it else (s.refcountDecr it).2

/-- `ITEM_set_cas(it, g_settings.use_cas ? GetCasId() : 0)`; the macro evaluates its second argument
only for an item with a CAS field. -/
def setFreshCas (it : Ptr) : Store :=
  if (s.flags it).cas then
    if s.settings.useCas then s.getCasId.2.setCas it s.getCasId.1 else s.setCas it 0
  else s

/-- The first statements of `DoItemLink`: the item is marked, timed and counted. -/
def markLinked (it : Ptr) : Store :=
  let s := s.setFlags it { s.flags it with linked := true }
  let s := s.setTime it s.now
  { s with stats := { s.stats with
    currBytes := s.stats.currBytes + UInt64.ofNat (s.heap.ntotal it)
    currItems := s.stats.currItems + 1
    totalItems := s.stats.totalItems + 1 } }

/-- `DoItemLink(it, hv)`. -/
def doItemLink (it : Ptr) (hv : UInt32) : Store :=
  let s := (s.markLinked it).setFreshCas it
  let s := s.assocInsert it hv
  let s := s.doItemLinkQ it false
  (s.refcountIncr it).2

/-- The first statements of `DoItemUnlink`. -/
def markUnlinked (it : Ptr) : Store :=
  let s := s.setFlags it { s.flags it with linked := false }
  { s with stats := { s.stats with
    currBytes := s.stats.currBytes - UInt64.ofNat (s.heap.ntotal it)
    currItems := s.stats.currItems - 1 } }

/-- `DoItemUnlink` up to its `DoItemRemove`. -/
def unlinkCore (it : Ptr) (hv : UInt32) : Store :=
  ((s.markUnlinked it).assocDelete (s.heap.key it) hv).doItemUnlinkQ it false

/-- `DoItemUnlink(it, hv)` and `DoItemUnlinkNolock(it, hv)`. -/
def doItemUnlink (it : Ptr) (hv : UInt32) : Store :=
  if (s.flags it).linked then (s.unlinkCore it hv).doItemRemove it else s

/-- `DoItemUpdate(it)`. It compares with `current_time_`, not with `g_current_time`. -/
def doItemUpdate (it : Ptr) : Store :=
  if s.currentTime - itemUpdateInterval ≤ s.heap.time it then s
  else if (s.flags it).linked = false then s
  else
    let s := s.setTime it s.now
    if s.settings.lruMaintainerThread then s
    else (s.doItemUnlinkQ it false).doItemLinkQ it false

/-- `DoItemUpdateNolock(it)`. -/
def doItemUpdateNolock (it : Ptr) : Store :=
  if s.now - itemUpdateInterval ≤ s.heap.time it then s
  else if (s.flags it).linked then
    ((s.doItemUnlinkQ it false).setTime it s.now).doItemLinkQ it false
  else s

/-- `DoItemReplace(it, new_it, hv)`. -/
def doItemReplace (it newIt : Ptr) (hv : UInt32) : Store :=
  (s.doItemUnlink it hv).doItemLink newIt hv

/-- An item that `DoItemGet` does not return: flushed or expired. -/
def isDead (it : Ptr) : Prop :=
  s.isFlushed it = true ∨ s.heap.exptime it ≠ 0 ∧ s.heap.exptime it ≤ s.now

instance (it : Ptr) : Decidable (s.isDead it) := inferInstanceAs (Decidable (_ ∨ _))

/-- `DoItemGet(key, nkey, hv)`. -/
def doItemGet (key : Key) (hv : UInt32) : Option Ptr × Store :=
  match s.assocFind key hv with
  | none => (none, s)
  | some it =>
    let s := (s.refcountIncr it).2
    if s.isDead it then (none, (s.doItemUnlink it hv).doItemRemove it)
    else (some it, s.setFlags it { s.flags it with fetched := true, active := true })

/-- `DoItemTouch(key, nkey, exptime, hv)`. -/
def doItemTouch (key : Key) (exptime : UInt32) (hv : UInt32) : Option Ptr × Store :=
  match s.doItemGet key hv with
  | (none, s) => (none, s)
  | (some it, s) => (some it, s.setExptime it exptime)

/-! ## `ItemLRUPullTail` -/

/-- How one item of the walk is dealt with. `removed` is what is added to the count of that name. -/
inductive PullOutcome where
  /-- A crawler node: it costs no try. -/
  | skip
  /-- On to the next item. -/
  | next (s : Store) (removed : ℕ)
  /-- `it = search`: the walk ends here, and the item is to go to the queue `lruStatus`. -/
  | stop (s : Store) (lruStatus : LruStatus) (removed : ℕ) (lock : ℕ)

/-- The tests the tail walk and the crawler make; `DoItemGet` makes others. -/
def isReclaimable (it : Ptr) : Prop :=
  s.heap.exptime it ≠ 0 ∧ s.heap.exptime it < s.now ∨ s.isFlushed it = true

instance (it : Ptr) : Decidable (s.isReclaimable it) := inferInstanceAs (Decidable (_ ∨ _))

/-- The counters of a reclaimed item. -/
def countReclaimed (id : ℕ) (it : Ptr) : Store :=
  let s := s.bump id fun c => { c with reclaimed := c.reclaimed + 1 }
  if (s.flags it).fetched then s
  else s.bump id fun c => { c with expiredUnfetched := c.expiredUnfetched + 1 }

/-- The counters of an evicted item. -/
def countEvicted (id : ℕ) (it : Ptr) : Store :=
  let s := s.bump id fun c => { c with evicted := c.evicted + 1, evictedTime := s.now - s.heap.time it }
  let s := if s.heap.exptime it ≠ 0 then
      s.bump id fun c => { c with evictedNonzero := c.evictedNonzero + 1 } else s
  if (s.flags it).fetched then s
  else s.bump id fun c => { c with evictedUnfetched := c.evictedUnfetched + 1 }

/-- The `switch (cur_lru)`: the item is locked, referenced and alive. For `HOT_LRU` and `NOEXP_LRU`
there is no case: the reference and the lock stay taken. -/
def pullSwitch (id : ℕ) (curLru : LruStatus) (totalChunks : UInt64) (doEvict : Bool)
    (it : Ptr) (hv : UInt32) (lock : ℕ) : PullOutcome :=
  match curLru with
  | .warm =>
    if totalChunks * s.settings.warmLruPct / 100 < (s.lru.itemSizes id).toUInt64 then
      let s := s.bump id fun c => { c with movesToCold := c.movesToCold + 1 }
      .stop (s.doItemUnlinkQ it false) .cold 1 lock
    else if (s.flags it).active then
      let s := s.bump id fun c => { c with movesWithinLru := c.movesWithinLru + 1 }
      let s := s.setFlags it { s.flags it with active := false }
      .next (((s.doItemUpdateNolock it).doItemRemove it).tryLockUnlock lock) 0
    else .stop s .hot 0 lock
  | .cold =>
    if doEvict then
      if s.settings.evictToFree = 0 then .stop s .hot 0 lock
      else .stop ((s.countEvicted id it).doItemUnlink it hv) .hot 1 lock
    else if (s.flags it).active ∧ s.settings.lruMaintainerThread then
      let s := s.bump id fun c => { c with movesToWarm := c.movesToWarm + 1 }
      let s := s.setFlags it { s.flags it with active := false }
      .stop (s.doItemUnlinkQ it false) .warm 1 lock
    else .stop s .hot 1 lock
  | .hot | .noexp => .next s 0

/-- The item is locked and has just been given a reference. -/
def pullReferenced (id : ℕ) (curLru : LruStatus) (totalChunks : UInt64) (doEvict : Bool)
    (it : Ptr) (hv : UInt32) (lock : ℕ) : PullOutcome :=
  if s.isReclaimable it then
    .next ((((s.countReclaimed id it).doItemUnlink it hv).doItemRemove it).tryLockUnlock lock) 1
  else s.pullSwitch id curLru totalChunks doEvict it hv lock

/-- The item is locked. -/
def pullLocked (id : ℕ) (curLru : LruStatus) (totalChunks : UInt64) (doEvict : Bool)
    (it : Ptr) (hv : UInt32) (lock : ℕ) : PullOutcome :=
  let r := s.refcountIncr it
  if r.1 ≠ 2 then
    let s := r.2.bump id fun c => { c with lrutailReflocked := c.lrutailReflocked + 1 }
    if s.settings.tailRepairTime ≠ 0 ∧ s.heap.time it + s.settings.tailRepairTime < s.now then
      let s := s.bump id fun c => { c with tailrepairs := c.tailrepairs + 1 }
      .next (((s.setRefcount it 1).doItemUnlink it hv).tryLockUnlock lock) 0
    else s.pullReferenced id curLru totalChunks doEvict it hv lock
  else r.2.pullReferenced id curLru totalChunks doEvict it hv lock

/-- A node that `ItemLRUPullTail` takes for a crawler. -/
def isCrawlerNode (it : Ptr) : Prop :=
  s.heap.nbytes it = 0 ∧ s.heap.nkey it = 0 ∧ s.flags it = .one

instance (it : Ptr) : Decidable (s.isCrawlerNode it) := inferInstanceAs (Decidable (_ ∧ _))

/-- The body of the loop for the node `it`. -/
def pullItem (id : ℕ) (curLru : LruStatus) (totalChunks : UInt64) (doEvict : Bool)
    (curHv : UInt32) (it : Ptr) : PullOutcome :=
  if s.isCrawlerNode it then .skip
  else if s.hv it = curHv then .next s 0
  else match s.tryLock (s.hv it) with
    | (none, s) => .next s 0
    | (some lock, s) => s.pullLocked id curLru totalChunks doEvict it (s.hv it) lock

/-- What follows the loop when it stopped at `it`. -/
def pullFinish (it : Ptr) (lruStatus : LruStatus) (lock : ℕ) : Store :=
  let s := if lruStatus ≠ .hot then
      (s.setClsid it (clearLru (s.heap.slabsClsid it) ||| lruStatus.val)).doItemLinkQ it false
    else s
  (s.doItemRemove it).tryLockUnlock lock

/-- The loop, with `tries` tries left; the result is `removed` and the store. A crawler node costs
fuel only. -/
def pullLoop (id : ℕ) (curLru : LruStatus) (totalChunks : UInt64) (doEvict : Bool)
    (curHv : UInt32) : ℕ → ℕ → Store → Option Ptr → ℕ → ℕ × Store
  | fuel + 1, tries + 1, s, some it, removed =>
    -- the link is read before the node may be moved
    let nextIt := s.heap.prev it
    match s.pullItem id curLru totalChunks doEvict curHv it with
    | .skip => pullLoop id curLru totalChunks doEvict curHv fuel (tries + 1) s nextIt removed
    | .next s n => pullLoop id curLru totalChunks doEvict curHv fuel tries s nextIt (removed + n)
    | .stop s st n lock => (removed + n, s.pullFinish it st lock)
  | _, _, s, _, removed => (removed, s)

/-- Five tries and the one crawler node a queue can have. -/
def pullFuel : ℕ := 6

/-- `ItemLRUPullTail(orig_id, cur_lru, total_chunks, do_evict, cur_hv)`. -/
def itemLRUPullTail (origId : ℕ) (curLru : LruStatus) (totalChunks : UInt64) (doEvict : Bool)
    (curHv : UInt32) : ℕ × Store :=
  if origId = 0 then (0, s)
  else
    let id := origId ||| curLru.val
    pullLoop id curLru totalChunks doEvict curHv pullFuel 5 s (s.lru.tails id) 0

/-! ## `DoItemAlloc` -/

/-- The loop of `DoItemAlloc`: the chunk, `loop_times` and the store. The fuel is what is left of five
rounds. -/
def allocLoop (ntotal id : ℕ) (curHv : UInt32) :
    ℕ → Store → UInt32 → ℕ → Option Ptr × ℕ × Store
  | 0, s, _, loopTimes => (none, loopTimes, s)
  | fuel + 1, s, totalChunks, loopTimes =>
    let s := if s.settings.lruMaintainerThread then s
      else (s.itemLRUPullTail id .cold 0 false curHv).2
    let r := s.doSlabsAlloc ntotal id totalChunks
    let s := r.2.2
    let totalChunks := if s.settings.expirezeroDoesNotEvict then
        r.2.1 - s.lru.itemSizes (clearLru id) else r.2.1
    match r.1 with
    | some it => (some it, loopTimes, s)
    | none =>
      let s := if s.settings.lruMaintainerThread then
          let s := (s.itemLRUPullTail id .hot totalChunks.toUInt64 false curHv).2
          let s := (s.itemLRUPullTail id .warm totalChunks.toUInt64 false curHv).2
          (s.itemLRUPullTail id .cold totalChunks.toUInt64 true curHv).2
        else (s.itemLRUPullTail id .cold 0 true curHv).2
      allocLoop ntotal id curHv fuel s totalChunks (loopTimes + 1)

/-- The queue a new item is made for. -/
def allocLru (exptime : UInt32) : LruStatus :=
  if s.settings.lruMaintainerThread then
    if exptime = 0 ∧ s.settings.expirezeroDoesNotEvict then .noexp else .hot
  else .cold

/-- The assignments to a new item; `cas` and `time` keep what the chunk held. -/
def fillHeader (it : Ptr) (id : ℕ) (key : Key) (flags : Int32) (exptime : UInt32) (nbytes : ℕ) :
    Store :=
  { s with heap := { s.heap with
    next := Function.update s.heap.next it none
    prev := Function.update s.heap.prev it none
    slabsClsid := Function.update s.heap.slabsClsid it (id ||| (s.allocLru exptime).val)
    key := Function.update s.heap.key it key
    suffix := Function.update s.heap.suffix it (itemSuffix flags nbytes)
    itFlags := Function.update s.heap.itFlags it
      { ItemFlags.none with cas := s.settings.useCas }
    nbytes := Function.update s.heap.nbytes it nbytes
    exptime := Function.update s.heap.exptime it exptime } }

/-- `DoItemAlloc(key, nkey, flags, exptime, nbytes, cur_hv)`. -/
def doItemAlloc (key : Key) (flags : Int32) (exptime : UInt32) (nbytes : ℕ) (curHv : UInt32) :
    Option Ptr × Store :=
  let ntotal := itemMakeHeader (key.bytes.length + 1) flags nbytes
  let id := s.slabsClsid ntotal
  if id = 0 then (none, s)
  else
    -- the CAS field is added after the class is chosen
    let ntotal := if s.settings.useCas then ntotal + 8 else ntotal
    let r := allocLoop ntotal id curHv 5 s 0 0
    let s := if 0 < r.2.1 then
        r.2.2.bump id fun c => { c with directReclaims := c.directReclaims + UInt64.ofNat r.2.1 }
      else r.2.2
    match r.1 with
    | none => (none, s.bump id fun c => { c with outofmemory := c.outofmemory + 1 })
    | some it => (some it, s.fillHeader it id key flags exptime nbytes)

/-! ## `DoStoreItem` -/

/-- The data of an appended (prepended) item: the `memcpy` calls. -/
def joinData (op : NreadOpType) (it oldIt newIt : Ptr) : Store :=
  let h := s.heap
  let d := if op = .append then
      memcpy (memcpy (h.data newIt) 0 (h.data oldIt) (h.nbytes oldIt))
        (h.nbytes oldIt - 2) (h.data it) (h.nbytes it)
    else
      memcpy (memcpy (h.data newIt) 0 (h.data it) (h.nbytes it))
        (h.nbytes it - 2) (h.data oldIt) (h.nbytes oldIt)
  s.setData newIt d

/-- The last branch of `DoStoreItem` for `NREAD_APPEND` and `NREAD_PREPEND`, with the old item in
hand. -/
def storeJoined (hv : UInt32) (it oldIt : Ptr) (op : NreadOpType) : StoreItemType × Store :=
  if s.heap.getCas it ≠ 0 ∧ s.heap.getCas it ≠ s.heap.getCas oldIt then
    (.existing, s.doItemRemove oldIt)
  else
    let flags := Int32.ofInt (strtol (s.heap.suffix oldIt))
    match s.doItemAlloc (s.heap.key it) flags (s.heap.exptime oldIt)
        (s.heap.nbytes it + s.heap.nbytes oldIt - 2) hv with
    | (none, s) => (.notStored, s.doItemRemove oldIt)
    | (some newIt, s) =>
      let s := s.joinData op it oldIt newIt
      (.stored, ((s.doItemReplace oldIt newIt hv).doItemRemove oldIt).doItemRemove newIt)

/-- `DoStoreItem(hv, it, op)`. -/
def doStoreItem (hv : UInt32) (it : Ptr) (op : NreadOpType) : StoreItemType × Store :=
  match s.doItemGet (s.heap.key it) hv, op with
  | (some oldIt, s), .add => (.notStored, (s.doItemUpdate oldIt).doItemRemove oldIt)
  | (none, s), .replace | (none, s), .append | (none, s), .prepend => (.notStored, s)
  | (none, s), .cas => (.notFound, s)
  | (some oldIt, s), .cas =>
    if s.heap.getCas it = s.heap.getCas oldIt then
      (.stored, (s.doItemReplace oldIt it hv).doItemRemove oldIt)
    else (.existing, s.doItemRemove oldIt)
  | (some oldIt, s), .append => s.storeJoined hv it oldIt .append
  | (some oldIt, s), .prepend => s.storeJoined hv it oldIt .prepend
  | (some oldIt, s), .set | (some oldIt, s), .replace =>
    (.stored, (s.doItemReplace oldIt it hv).doItemRemove oldIt)
  | (none, s), .add | (none, s), .set => (.stored, s.doItemLink it hv)

/-! ## The crawler's visit to an item -/

/-- `ItemEvaluate(it, hv, id)`. -/
def itemEvaluate (it : Ptr) (hv : UInt32) (id : ℕ) : Bool × Store :=
  let s := s.bump id fun c => { c with crawlerItemsChecked := c.crawlerItemsChecked + 1 }
  if s.isReclaimable it then
    let s := s.bump id fun c => { c with crawlerReclaimed := c.crawlerReclaimed + 1 }
    let s := if (s.flags it).fetched then s
      else s.bump id fun c => { c with expiredUnfetched := c.expiredUnfetched + 1 }
    (true, (s.doItemUnlink it hv).doItemRemove it)
  else (false, s)

/-- The statistics of class `id` move. -/
def bumpCrawl (id : ℕ) (f : CrawlerStats → CrawlerStats) : Store :=
  { s with crawlers := { s.crawlers with
    crawlerStats := Function.update s.crawlers.crawlerStats id (f (s.crawlers.crawlerStats id)) } }

/-- `ItemCrawlerEvaluate(it, hv, i)`. An item that stays is given *another* reference. -/
def itemCrawlerEvaluate (it : Ptr) (hv : UInt32) (i : ℕ) : Store :=
  let slabId := clearLru i
  match s.itemEvaluate it hv i with
  | (true, s) => s.bumpCrawl slabId fun c => { c with reclaimed := c.reclaimed + 1 }
  | (false, s) =>
    let s := s.bumpCrawl slabId fun c => { c with seen := c.seen + 1 }
    let s := (s.refcountIncr it).2
    let intervalTime := s.heap.exptime it - s.now
    if s.heap.exptime it = 0 then s.bumpCrawl slabId fun c => { c with noexp := c.noexp + 1 }
    else if 3599 < intervalTime then
      s.bumpCrawl slabId fun c => { c with ttlHourplus := c.ttlHourplus + 1 }
    else
      let bucket := (intervalTime / 60).toNat
      s.bumpCrawl slabId fun c =>
        { c with histo := Function.update c.histo bucket (c.histo bucket + 1) }

end Store

end Mdb
