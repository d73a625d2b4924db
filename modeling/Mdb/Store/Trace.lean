import Mdb.Lib.Locks
import Mdb.Store.Model

/-!
# Mutexes and assertions

What the item operations do besides changing the store: the mutexes they lock and unlock, and the
`assert`s they make, in order. For every operation of `Mdb.Store.Model` a function lists its events;
it goes through the same intermediate stores.

* `Mutex`, `Assertion`, `CallEvent`;
* `doItemRemoveEvents`, `doItemUnlinkEvents`, …, `pullItemEvents`, `itemLRUPullTailEvents`;
  `doItemAllocEvents`, `doStoreItemEvents`;
* `CallEvent.mutexes`, `CallEvent.failed`: the two kinds, each on its own; `mutexes_doItemRemove` and the
  like: the mutexes of the single operations.

The mutexes inside `SlabsManager`, of the statistics and of the hash table's counter are left out: each
is locked and unlocked around a few assignments, with no call in between.
-/

namespace Mdb

open Locks

/-- The mutexes: `item_locks_`, `cache_locks_`, `lru_crawler_lock_`, `lru_crawler_stats_lock_`,
`lru_maintainer_lock_`. -/
inductive Mutex where
  | item (l : ℕ)
  | cache (id : ℕ)
  | crawler
  | crawlerStats
  | maintainer
  deriving DecidableEq, Repr

/-- The `assert`s, by function. -/
inductive Assertion where
  | allocClsid
  | freeLinked
  | freeHead
  | freeTail
  | freeRefcount
  | linkFlags
  | removeSlabbed
  | removeRefcount
  | updateSlabbed
  | replaceSlabbed
  | linkQFlags
  | linkQNbytes
  | linkQTail
  | linkQNotTail
  | linkQEnds
  | linkQLast
  | unlinkQHead
  | unlinkQTail
  | unlinkQNext
  | unlinkQPrev
  | deleteFound
  | slabsAllocClsid
  | slabsFreeRange
  deriving DecidableEq, Repr

/-- Something happens to a mutex, or an `assert` is made that holds or not. -/
inductive CallEvent where
  | mutex (e : LockEvent Mutex)
  | assert (a : Assertion) (ok : Bool)
  deriving DecidableEq, Repr

namespace CallEvent

/-- `pthread_mutex_lock(m)`. -/
abbrev lock (m : Mutex) : CallEvent := .mutex (.lock m)

/-- `pthread_mutex_unlock(m)`. -/
abbrev unlock (m : Mutex) : CallEvent := .mutex (.unlock m)

/-- `assert(p)`. -/
abbrev check (a : Assertion) (p : Prop) [Decidable p] : CallEvent := .assert a (decide p)

/-- What happens to mutexes. -/
def mutexes (evs : List CallEvent) : List (LockEvent Mutex) := evs.filterMap fun
  | .mutex e => some e
  | .assert _ _ => none

/-- The assertions that do not hold. -/
def failed (evs : List CallEvent) : List Assertion := evs.filterMap fun
  | .assert a false => some a
  | _ => none

end CallEvent

namespace Store

open CallEvent

variable (s : Store)

/-! ## Queues -/

/-- `DoItemLinkQ(it)`. -/
def doItemLinkQEvents (it : Ptr) : List CallEvent :=
  let tail := s.lru.tails (s.heap.slabsClsid it)
  let head := s.lru.heads (s.heap.slabsClsid it)
  [check .linkQFlags (s.flags it = .one), check .linkQNbytes (s.heap.nbytes it = 0),
    check .linkQTail (tail ≠ none), check .linkQNotTail (tail ≠ some it),
    check .linkQEnds (head = none ↔ tail = none)] ++
  match tail with
  | none => []
  | some p => [check .linkQLast (Function.update s.heap.next it none p = none)]

/-- `DoItemUnlinkQ(it)`. -/
def doItemUnlinkQEvents (it : Ptr) : List CallEvent :=
  (if s.lru.heads (s.heap.slabsClsid it) = some it
    then [check .unlinkQHead (s.heap.prev it = none)] else []) ++
  (if s.lru.tails (s.heap.slabsClsid it) = some it
    then [check .unlinkQTail (s.heap.next it = none)] else []) ++
  [check .unlinkQNext (s.heap.next it ≠ some it), check .unlinkQPrev (s.heap.prev it ≠ some it)]

/-- `ItemLinkQ(it)`. -/
def itemLinkQEvents (it : Ptr) : List CallEvent :=
  lock (.cache (s.heap.slabsClsid it)) ::
    (s.doItemLinkQEvents it ++ [unlock (.cache (s.heap.slabsClsid it))])

/-- `ItemUnlinkQ(it)`. -/
def itemUnlinkQEvents (it : Ptr) : List CallEvent :=
  lock (.cache (s.heap.slabsClsid it)) ::
    (s.doItemUnlinkQEvents it ++ [unlock (.cache (s.heap.slabsClsid it))])

/-! ## Single items -/

/-- `FreeItem(it)`, with the assertion of `DoSlabsFree`. -/
def freeItemEvents (it : Ptr) : List CallEvent :=
  [check .freeLinked ((s.flags it).linked = false),
    check .freeHead (s.lru.heads (s.heap.slabsClsid it) ≠ some it),
    check .freeTail (s.lru.tails (s.heap.slabsClsid it) ≠ some it),
    check .freeRefcount (s.heap.refcount it % 2 ^ 16 = 0),
    check .slabsFreeRange (s.slabs.InRange (clearLru (s.heap.slabsClsid it)))]

/-- `DoItemRemove(it)`. -/
def doItemRemoveEvents (it : Ptr) : List CallEvent :=
  [check .removeSlabbed ((s.flags it).slabbed = false),
    check .removeRefcount (0 < s.heap.refcount it % 2 ^ 16)] ++
  if (s.refcountDecr it).1 = 0 then (s.refcountDecr it).2.freeItemEvents it else []

/-- `AssocDelete(key, nkey, hv)`: the assertion stands where nothing is found. -/
def assocDeleteEvents (key : Key) (hv : UInt32) : List CallEvent :=
  if s.assocFind key hv = none then [.assert .deleteFound false] else []

/-- `DoItemLink(it, hv)`. -/
def doItemLinkEvents (it : Ptr) (hv : UInt32) : List CallEvent :=
  check .linkFlags ((s.flags it).linked = false ∧ (s.flags it).slabbed = false) ::
    (((s.markLinked it).setFreshCas it).assocInsert it hv).itemLinkQEvents it

/-- `DoItemUnlink(it, hv)` and `DoItemUnlinkNolock(it, hv)`. -/
def doItemUnlinkEvents (it : Ptr) (hv : UInt32) : List CallEvent :=
  if (s.flags it).linked then
    (s.markUnlinked it).assocDeleteEvents (s.heap.key it) hv ++
    ((s.markUnlinked it).assocDelete (s.heap.key it) hv).itemUnlinkQEvents it ++
    (s.unlinkCore it hv).doItemRemoveEvents it
  else []

/-- `DoItemUpdate(it)`. -/
def doItemUpdateEvents (it : Ptr) : List CallEvent :=
  if s.currentTime - itemUpdateInterval ≤ s.heap.time it then []
  else check .updateSlabbed ((s.flags it).slabbed = false) ::
    if (s.flags it).linked = false then []
    else if s.settings.lruMaintainerThread then []
    else (s.setTime it s.now).itemUnlinkQEvents it ++
      ((s.setTime it s.now).doItemUnlinkQ it false).itemLinkQEvents it

/-- `DoItemUpdateNolock(it)`. -/
def doItemUpdateNolockEvents (it : Ptr) : List CallEvent :=
  if s.now - itemUpdateInterval ≤ s.heap.time it then []
  else check .updateSlabbed ((s.flags it).slabbed = false) ::
    if (s.flags it).linked then
      s.doItemUnlinkQEvents it ++ ((s.doItemUnlinkQ it false).setTime it s.now).doItemLinkQEvents it
    else []

/-- `DoItemReplace(it, new_it, hv)`. -/
def doItemReplaceEvents (it newIt : Ptr) (hv : UInt32) : List CallEvent :=
  check .replaceSlabbed ((s.flags it).slabbed = false) ::
    (s.doItemUnlinkEvents it hv ++ (s.doItemUnlink it hv).doItemLinkEvents newIt hv)

/-- `DoItemUnlink(it, hv); DoItemRemove(it)`. -/
def dropEvents (it : Ptr) (hv : UInt32) : List CallEvent :=
  s.doItemUnlinkEvents it hv ++ (s.doItemUnlink it hv).doItemRemoveEvents it

/-- `DoItemGet(key, nkey, hv)` and `DoItemTouch`. -/
def doItemGetEvents (key : Key) (hv : UInt32) : List CallEvent :=
  match s.assocFind key hv with
  | none => []
  | some it =>
    let s := (s.refcountIncr it).2
    if s.isDead it then s.dropEvents it hv else []

/-! ## `ItemLRUPullTail` -/

/-- The `switch (cur_lru)`. -/
def pullSwitchEvents (id : ℕ) (curLru : LruStatus) (totalChunks : UInt64) (doEvict : Bool)
    (it : Ptr) (hv : UInt32) (lock : ℕ) : List CallEvent :=
  match curLru with
  | .warm =>
    if totalChunks * s.settings.warmLruPct / 100 < (s.lru.itemSizes id).toUInt64 then
      let s := s.bump id fun c => { c with movesToCold := c.movesToCold + 1 }
      s.doItemUnlinkQEvents it
    else if (s.flags it).active then
      let s := s.bump id fun c => { c with movesWithinLru := c.movesWithinLru + 1 }
      let s := s.setFlags it { s.flags it with active := false }
      s.doItemUpdateNolockEvents it ++ (s.doItemUpdateNolock it).doItemRemoveEvents it ++
        [unlock (.item lock)]
    else []
  | .cold =>
    if doEvict then
      if s.settings.evictToFree = 0 then []
      else (s.countEvicted id it).doItemUnlinkEvents it hv
    else if (s.flags it).active ∧ s.settings.lruMaintainerThread then
      let s := s.bump id fun c => { c with movesToWarm := c.movesToWarm + 1 }
      let s := s.setFlags it { s.flags it with active := false }
      s.doItemUnlinkQEvents it
    else []
  | .hot | .noexp => []

/-- The item is locked and has just been given a reference. -/
def pullReferencedEvents (id : ℕ) (curLru : LruStatus) (totalChunks : UInt64) (doEvict : Bool)
    (it : Ptr) (hv : UInt32) (lock : ℕ) : List CallEvent :=
  if s.isReclaimable it then (s.countReclaimed id it).dropEvents it hv ++ [unlock (.item lock)]
  else s.pullSwitchEvents id curLru totalChunks doEvict it hv lock

/-- The item is locked. -/
def pullLockedEvents (id : ℕ) (curLru : LruStatus) (totalChunks : UInt64) (doEvict : Bool)
    (it : Ptr) (hv : UInt32) (lock : ℕ) : List CallEvent :=
  let r := s.refcountIncr it
  if r.1 ≠ 2 then
    let s := r.2.bump id fun c => { c with lrutailReflocked := c.lrutailReflocked + 1 }
    if s.settings.tailRepairTime ≠ 0 ∧ s.heap.time it + s.settings.tailRepairTime < s.now then
      let s := s.bump id fun c => { c with tailrepairs := c.tailrepairs + 1 }
      (s.setRefcount it 1).doItemUnlinkEvents it hv ++ [unlock (.item lock)]
    else s.pullReferencedEvents id curLru totalChunks doEvict it hv lock
  else r.2.pullReferencedEvents id curLru totalChunks doEvict it hv lock

/-- The item lock of a hash value. -/
def itemLock (hv : UInt32) : ℕ := hv.toNat &&& hashmask lgPower

/-- The body of the loop for the node `it`. -/
def pullItemEvents (id : ℕ) (curLru : LruStatus) (totalChunks : UInt64) (doEvict : Bool)
    (curHv : UInt32) (it : Ptr) : List CallEvent :=
  if s.isCrawlerNode it then []
  else if s.hv it = curHv then []
  else match s.tryLock (s.hv it) with
    | (none, _) => [.mutex (.tryLock (.item (itemLock (s.hv it))) false)]
    | (some lock, s) => .mutex (.tryLock (.item lock) true) ::
        s.pullLockedEvents id curLru totalChunks doEvict it (s.hv it) lock

/-- What follows the loop when it stopped at `it`. -/
def pullFinishEvents (it : Ptr) (lruStatus : LruStatus) (lock : ℕ) : List CallEvent :=
  let clsid := clearLru (s.heap.slabsClsid it) ||| lruStatus.val
  let s' := if lruStatus ≠ .hot then (s.setClsid it clsid).doItemLinkQ it false else s
  (if lruStatus ≠ .hot then (s.setClsid it clsid).itemLinkQEvents it else []) ++
    s'.doItemRemoveEvents it ++ [unlock (.item lock)]

/-- The loop, and what follows it. -/
def pullLoopEvents (id : ℕ) (curLru : LruStatus) (totalChunks : UInt64) (doEvict : Bool)
    (curHv : UInt32) : ℕ → ℕ → Store → Option Ptr → List CallEvent
  | fuel + 1, tries + 1, s, some it =>
    let nextIt := s.heap.prev it
    s.pullItemEvents id curLru totalChunks doEvict curHv it ++
    match s.pullItem id curLru totalChunks doEvict curHv it with
    | .skip => pullLoopEvents id curLru totalChunks doEvict curHv fuel (tries + 1) s nextIt
    | .next s _ => pullLoopEvents id curLru totalChunks doEvict curHv fuel tries s nextIt
    | .stop s st _ lock => unlock (.cache id) :: s.pullFinishEvents it st lock
  | _, _, _, _ => [unlock (.cache id)]

/-- `ItemLRUPullTail(orig_id, cur_lru, total_chunks, do_evict, cur_hv)`. -/
def itemLRUPullTailEvents (origId : ℕ) (curLru : LruStatus) (totalChunks : UInt64) (doEvict : Bool)
    (curHv : UInt32) : List CallEvent :=
  if origId = 0 then []
  else
    let id := origId ||| curLru.val
    lock (.cache id) ::
      pullLoopEvents id curLru totalChunks doEvict curHv pullFuel 5 s (s.lru.tails id)

/-! ## `DoItemAlloc` -/

/-- `DoSlabsAlloc(size, id)`: a new page goes to the freelist chunk by chunk. -/
def doSlabsAllocEvents (id : ℕ) : List CallEvent :=
  let p := s.slabs.slabclass id
  if s.slabs.InRange id then
    check .slabsAllocClsid (p.slCurr = 0 ∨ p.slots.map s.heap.slabsClsid = some 0) ::
      if p.slCurr = 0 ∧ (s.doSlabsNewSlab id).1 = true then
        List.replicate p.perslab (check .slabsFreeRange (s.slabs.InRange id))
      else []
  else []

/-- The walk before `DoSlabsAlloc`. -/
def pullFirstEvents (id : ℕ) (curHv : UInt32) : List CallEvent :=
  if s.settings.lruMaintainerThread then []
  else s.itemLRUPullTailEvents id .cold 0 false curHv

/-- The walks after a `DoSlabsAlloc` that had no chunk. -/
def pullAfterEvents (id : ℕ) (totalChunks : UInt64) (curHv : UInt32) : List CallEvent :=
  if s.settings.lruMaintainerThread then
    let s₁ := (s.itemLRUPullTail id .hot totalChunks false curHv).2
    let s₂ := (s₁.itemLRUPullTail id .warm totalChunks false curHv).2
    s.itemLRUPullTailEvents id .hot totalChunks false curHv ++
      s₁.itemLRUPullTailEvents id .warm totalChunks false curHv ++
      s₂.itemLRUPullTailEvents id .cold totalChunks true curHv
  else s.itemLRUPullTailEvents id .cold 0 true curHv

/-- `CacheLock(id)` and `CacheUnlock(id)` around an assignment. -/
def cacheLocked (id : ℕ) : List CallEvent := [lock (.cache id), unlock (.cache id)]

/-- The loop of `DoItemAlloc`. -/
def allocLoopEvents (ntotal id : ℕ) (curHv : UInt32) : ℕ → Store → UInt32 → List CallEvent
  | 0, _, _ => []
  | fuel + 1, s, totalChunks =>
    let s₁ := if s.settings.lruMaintainerThread then s
      else (s.itemLRUPullTail id .cold 0 false curHv).2
    let r := s₁.doSlabsAlloc ntotal id totalChunks
    let s₂ := r.2.2
    let totalChunks := if s₂.settings.expirezeroDoesNotEvict then
        r.2.1 - s₂.lru.itemSizes (clearLru id) else r.2.1
    s.pullFirstEvents id curHv ++ s₁.doSlabsAllocEvents id ++
    (if s₂.settings.expirezeroDoesNotEvict then cacheLocked id else []) ++
    match r.1 with
    | some _ => []
    | none =>
      let s₃ := if s₂.settings.lruMaintainerThread then
          let s := (s₂.itemLRUPullTail id .hot totalChunks.toUInt64 false curHv).2
          let s := (s.itemLRUPullTail id .warm totalChunks.toUInt64 false curHv).2
          (s.itemLRUPullTail id .cold totalChunks.toUInt64 true curHv).2
        else (s₂.itemLRUPullTail id .cold 0 true curHv).2
      s₂.pullAfterEvents id totalChunks.toUInt64 curHv ++
        allocLoopEvents ntotal id curHv fuel s₃ totalChunks

/-- `DoItemAlloc(key, nkey, flags, exptime, nbytes, cur_hv)`. -/
def doItemAllocEvents (key : Key) (flags : Int32) (nbytes : ℕ) (curHv : UInt32) : List CallEvent :=
  let ntotal := itemMakeHeader (key.bytes.length + 1) flags nbytes
  let id := s.slabsClsid ntotal
  if id = 0 then []
  else
    let ntotal := if s.settings.useCas then ntotal + 8 else ntotal
    let r := allocLoop ntotal id curHv 5 s 0 0
    allocLoopEvents ntotal id curHv 5 s 0 ++
    (if 0 < r.2.1 then cacheLocked id else []) ++
    match r.1 with
    | none => cacheLocked id
    | some it => [check .allocClsid (r.2.2.heap.slabsClsid it = 0)]

/-! ## `DoStoreItem` -/

/-- `DoItemReplace(old_it, it, hv)`, and `old_it` is given back. -/
def replaceEvents (oldIt it : Ptr) (hv : UInt32) : List CallEvent :=
  s.doItemReplaceEvents oldIt it hv ++ (s.doItemReplace oldIt it hv).doItemRemoveEvents oldIt

/-- The last branch of `DoStoreItem` for `NREAD_APPEND` and `NREAD_PREPEND`. -/
def storeJoinedEvents (hv : UInt32) (it oldIt : Ptr) (op : NreadOpType) : List CallEvent :=
  if s.heap.getCas it ≠ 0 ∧ s.heap.getCas it ≠ s.heap.getCas oldIt then s.doItemRemoveEvents oldIt
  else
    let flags := Int32.ofInt (strtol (s.heap.suffix oldIt))
    let nbytes := s.heap.nbytes it + s.heap.nbytes oldIt - 2
    s.doItemAllocEvents (s.heap.key it) flags nbytes hv ++
    match s.doItemAlloc (s.heap.key it) flags (s.heap.exptime oldIt) nbytes hv with
    | (none, s) => s.doItemRemoveEvents oldIt
    | (some newIt, s) =>
      let s := s.joinData op it oldIt newIt
      s.replaceEvents oldIt newIt hv ++
        ((s.doItemReplace oldIt newIt hv).doItemRemove oldIt).doItemRemoveEvents newIt

/-- `DoStoreItem(hv, it, op)` after its `DoItemGet`. -/
def storeFoundEvents (hv : UInt32) (it : Ptr) : Option Ptr → NreadOpType → List CallEvent
  | some oldIt, .add =>
    s.doItemUpdateEvents oldIt ++ (s.doItemUpdate oldIt).doItemRemoveEvents oldIt
  | none, .replace | none, .append | none, .prepend | none, .cas => []
  | some oldIt, .cas =>
    if s.heap.getCas it = s.heap.getCas oldIt then s.replaceEvents oldIt it hv
    else s.doItemRemoveEvents oldIt
  | some oldIt, .append => s.storeJoinedEvents hv it oldIt .append
  | some oldIt, .prepend => s.storeJoinedEvents hv it oldIt .prepend
  | some oldIt, .set | some oldIt, .replace => s.replaceEvents oldIt it hv
  | none, .add | none, .set => s.doItemLinkEvents it hv

/-- `DoStoreItem(hv, it, op)`. -/
def doStoreItemEvents (hv : UInt32) (it : Ptr) (op : NreadOpType) : List CallEvent :=
  let r := s.doItemGet (s.heap.key it) hv
  s.doItemGetEvents (s.heap.key it) hv ++ r.2.storeFoundEvents hv it r.1 op

end Store

/-! ## What the item operations do to mutexes -/

namespace CallEvent

@[simp] theorem mutexes_nil : mutexes [] = [] := rfl

@[simp] theorem mutexes_append (a b : List CallEvent) : mutexes (a ++ b) = mutexes a ++ mutexes b :=
  List.filterMap_append

@[simp] theorem mutexes_mutex (e : LockEvent Mutex) (evs : List CallEvent) :
    mutexes (.mutex e :: evs) = e :: mutexes evs := rfl

@[simp] theorem mutexes_assert (a : Assertion) (ok : Bool) (evs : List CallEvent) :
    mutexes (.assert a ok :: evs) = mutexes evs := rfl

end CallEvent

namespace Store

open CallEvent

variable (s : Store) (it : Ptr) (hv : UInt32)

@[simp] theorem mutexes_doItemLinkQ : mutexes (s.doItemLinkQEvents it) = [] := by
  dsimp only [doItemLinkQEvents]
  rw [mutexes_append]
  split <;> rfl

@[simp] theorem mutexes_doItemUnlinkQ : mutexes (s.doItemUnlinkQEvents it) = [] := by
  unfold doItemUnlinkQEvents
  split_ifs <;> rfl

@[simp] theorem mutexes_itemLinkQ : mutexes (s.itemLinkQEvents it) =
    [.lock (.cache (s.heap.slabsClsid it)), .unlock (.cache (s.heap.slabsClsid it))] := by
  simp [itemLinkQEvents]

@[simp] theorem mutexes_itemUnlinkQ : mutexes (s.itemUnlinkQEvents it) =
    [.lock (.cache (s.heap.slabsClsid it)), .unlock (.cache (s.heap.slabsClsid it))] := by
  simp [itemUnlinkQEvents]

@[simp] theorem mutexes_doItemRemove : mutexes (s.doItemRemoveEvents it) = [] := by
  unfold doItemRemoveEvents
  split_ifs <;> rfl

@[simp] theorem mutexes_assocDelete (key : Key) : mutexes (s.assocDeleteEvents key hv) = [] := by
  unfold assocDeleteEvents
  split_ifs <;> rfl

@[simp] theorem mutexes_doItemUpdateNolock : mutexes (s.doItemUpdateNolockEvents it) = [] := by
  unfold doItemUpdateNolockEvents
  split_ifs <;> simp

@[simp] theorem mutexes_doSlabsAlloc (id : ℕ) : mutexes (s.doSlabsAllocEvents id) = [] := by
  have h : ∀ (n : ℕ) (a : Assertion) (ok : Bool),
      mutexes (List.replicate n (.assert a ok)) = [] := fun n a ok => by
    induction n with
    | zero => rfl
    | succ n ih => exact ih
  dsimp only [doSlabsAllocEvents]
  split_ifs <;> simp [h]

end Store

end Mdb
