import Mdb.Store.Asserts
import Mdb.Store.Discipline

/-!
# The calls that take mutexes

The calls of `ItemManager`, `LRUCrawler`, `LRUMaintainer` and `AssocMaintainer` that take mutexes, each
with the mutexes its callers hold. A thread's `Run` finds at each step the store that the other threads
have left.

* `underItemLock`, `crawlStepTrace`, `doLRUCrawlerStartTrace`, …: what they do to mutexes;
* `LockCall`, `LockCall.held`, `LockCall.trace`;
* `LockCall.calm`: its walks are calm, its crawler evaluates no dead item, it starts no crawl, and
  `malloc` and `pthread_create` succeed;
* **`locks_disciplined`**: a calm call never waits for itself, and gives back exactly what it took;
  **`locks_undisciplined`**: the others.
-/

namespace Mdb

open Locks CallEvent Run

/-! ## What the calls do to mutexes -/

namespace Store

variable (s : Store)

/-- `Lock(hv)`, the body, `Unlock(hv)`. The body's own `TryLock`s find the lock taken. -/
def underItemLock (hv : UInt32) (body : Store → List CallEvent) : List (LockEvent Mutex) :=
  .lock (.item (itemLock hv)) ::
    (mutexes (body { s with itemLocks := itemLock hv :: s.itemLocks }) ++
      [.unlock (.item (itemLock hv))])

/-- `ItemEvaluate(it, hv, id)`. -/
def itemEvaluateTrace (it : Ptr) (hv : UInt32) (id : ℕ) : List (LockEvent Mutex) :=
  let s := s.bump id fun c => { c with crawlerItemsChecked := c.crawlerItemsChecked + 1 }
  if s.isReclaimable it then
    let s := s.bump id fun c => { c with crawlerReclaimed := c.crawlerReclaimed + 1 }
    let s := if (s.flags it).fetched then s
      else s.bump id fun c => { c with expiredUnfetched := c.expiredUnfetched + 1 }
    mutexes (s.dropEvents it hv)
  else []

/-- The crawler of queue `i` has stepped over item `it`. -/
def crawlItemTrace (i : ℕ) (it : Ptr) : List (LockEvent Mutex) :=
  match s.tryLock (s.hv it) with
  | (none, _) => [.tryLock (.item (itemLock (s.hv it))) false]
  | (some lock, s) =>
    let r := s.refcountIncr it
    .tryLock (.item lock) true ::
      ((if r.1 ≠ 2 then []
        else .lock .crawlerStats ::
          (r.2.itemEvaluateTrace it (s.hv it) i ++ [.unlock .crawlerStats])) ++
      [.unlock (.item lock)])

/-- The body of the `for` loop in `LRUCrawler::Run` for queue `i`. -/
def crawlStepTrace (i : ℕ) : List (LockEvent Mutex) :=
  if s.flags (.crawler i) ≠ .one then []
  else match s.crawlTarget i with
    | none => [.lock (.cache i), .unlock (.cache i), .lock .crawlerStats, .unlock .crawlerStats]
    | some (it, u) => .lock (.cache i) :: (u.crawlItemTrace i it ++ [.unlock (.cache i)])

/-- `DoLRUCrawlerStart(id, remaining)`: `GetItemTailByIndex(sid)` locks the queue once more. -/
def doLRUCrawlerStartTrace (id : ℕ) (remaining : UInt32) : List (LockEvent Mutex) :=
  ((tocrawl id).flatMap fun sid =>
    [.lock (.cache sid), .lock (.cache sid), .unlock (.cache sid), .unlock (.cache sid)]) ++
  if (s.doLRUCrawlerStart id remaining).1 = 0 then []
  else [.lock .crawlerStats, .unlock .crawlerStats]

/-- `LRUCrawlerStart(id, remaining)`, which gets `lru_crawler_lock_` or not. -/
def lruCrawlerStartTrace (id : ℕ) (remaining : UInt32) (got : Bool) : List (LockEvent Mutex) :=
  if got then
    .tryLock .crawler true :: (s.doLRUCrawlerStartTrace id remaining ++ [.unlock .crawler])
  else [.tryLock .crawler false]

/-- The loop of `LRUCrawl` over the classes. -/
def crawlClassesTrace (f : ℕ → Bool) : List ℕ → Store → List (LockEvent Mutex)
  | [], _ => []
  | sid :: sids, s =>
    if f sid then
      s.doLRUCrawlerStartTrace sid s.settings.lruCrawlerTocrawl ++
        crawlClassesTrace f sids (s.doLRUCrawlerStart sid s.settings.lruCrawlerTocrawl).2
    else crawlClassesTrace f sids s

/-- The classes `LRUCrawl` looks at. -/
def crawlable : List ℕ := List.range' powerSmallest (maxNumberOfSlabClasses - powerSmallest)

/-- `LRUCrawl(slabs)`, which gets `lru_crawler_lock_` or not. -/
def lruCrawlTrace (slabs : CrawlList) (got : Bool) : List (LockEvent Mutex) :=
  if got then
    .tryLock .crawler true :: ((match slabs.classes with
      | none => []
      | some f => crawlClassesTrace f crawlable s) ++ [.unlock .crawler])
  else [.tryLock .crawler false]

end Store

/-- What `LRUMaintainerCrawlerCheck` does about a class: nothing before the next crawl is due, or
`LRUCrawlerStart(i, 0)`. -/
inductive CheckStep where
  | wait
  | start (s : Store) (i : ℕ) (got : Bool)

/-- The step, and then the statistics of the class. -/
def CheckStep.trace : CheckStep → List (LockEvent Mutex)
  | .wait => [.lock .crawlerStats, .unlock .crawlerStats]
  | .start s i got => s.lruCrawlerStartTrace i 0 got ++ [.lock .crawlerStats, .unlock .crawlerStats]

/-- What `LRUMaintainerJuggle` calls: `NoExpLRUSize`, and `ItemLRUPullTail` without eviction. -/
inductive JuggleStep where
  | noExpLRUSize (slabsClsid : ℕ)
  | pullTail (s : Store) (slabsClsid : ℕ) (curLru : LruStatus) (totalChunks : UInt64)

def JuggleStep.trace : JuggleStep → List (LockEvent Mutex)
  | .noExpLRUSize slabsClsid => [.lock (.cache (clearLru slabsClsid)), .unlock (.cache (clearLru slabsClsid))]
  | .pullTail s slabsClsid curLru totalChunks =>
    mutexes (s.itemLRUPullTailEvents slabsClsid curLru totalChunks false 0)

/-- A round of `LRUMaintainer::Run`. -/
structure MaintainerRound where
  juggle : List JuggleStep
  check : List CheckStep

/-- The lock is given up for a nap. -/
def MaintainerRound.trace (r : MaintainerRound) : List (LockEvent Mutex) :=
  .unlock .maintainer :: .lock .maintainer ::
    (r.juggle.flatMap JuggleStep.trace ++ r.check.flatMap CheckStep.trace)

/-- A round of `AssocMaintainer::Run`: a bucket is moved if its item lock is got, or the table is
expanded between `PauseThreads(PAUSE_ALL_THREADS)` and `PauseThreads(RESUME_ALL_THREADS)`. -/
inductive AssocRound where
  | move (expandBucket : UInt32) (got : Bool)
  | expand

def AssocRound.trace : AssocRound → List (LockEvent Mutex)
  | .move b true => [.tryLock (.item (Store.itemLock b)) true, .unlock (.item (Store.itemLock b))]
  | .move b false => [.tryLock (.item (Store.itemLock b)) false]
  | .expand => [.lock .maintainer, .lock .crawler, .unlock .maintainer, .unlock .crawler]

/-! ## The calls -/

/-- **The calls that take mutexes**, with what `malloc`, `pthread_create` and `pthread_mutex_trylock`
answer. `getByIndex` is any of `GetItemSizeByIndex`, `GetItemHeadByIndex` and `GetItemTailByIndex`. -/
inductive LockCall where
  | itemAlloc (s : Store) (key : Key) (flags : Int32) (nbytes : ℕ)
  | itemGet (s : Store) (key : Key)
  | itemTouch (s : Store) (key : Key)
  | itemLink (s : Store) (it : Ptr)
  | itemRemove (s : Store) (it : Ptr)
  | itemReplace (s : Store) (it newIt : Ptr) (hv : UInt32)
  | itemUnlink (s : Store) (it : Ptr)
  | doItemUnlink (s : Store) (it : Ptr) (hv : UInt32)
  | itemUpdate (s : Store) (it : Ptr)
  | storeItem (s : Store) (it : Ptr) (op : NreadOpType)
  | itemCacheDump (s : Store) (slabsClsid : ℕ) (malloced : Bool)
  | getByIndex (index : ℕ)
  | itemStatsEvictions
  | startLRUCrawler (lruCrawler started : Bool)
  | stopLRUCrawler
  | lruCrawl (s : Store) (slabs : Store.CrawlList) (got : Bool)
  | lruCrawlerStart (s : Store) (id : ℕ) (remaining : UInt32) (got : Bool)
  | lruMaintainerCrawlerCheck (steps : List CheckStep)
  | crawlerRun (wakes : List (List (Store × ℕ)))
  | startLRUMaintainer (lruMaintainerThread started : Bool)
  | stopLRUMaintainer
  | lruMaintainerJuggle (steps : List JuggleStep)
  | maintainerRun (rounds : List MaintainerRound)
  | assocRun (rounds : List AssocRound)

namespace LockCall

/-- What the callers hold: clients nothing, `DoStoreItem` and the rebalancer the item's lock, and the
maintainer thread its own. -/
def held : LockCall → List Mutex
  | itemReplace _ _ _ hv | doItemUnlink _ _ hv => [.item (Store.itemLock hv)]
  | lruCrawlerStart _ _ _ _ | lruMaintainerCrawlerCheck _ | lruMaintainerJuggle _ => [.maintainer]
  | _ => []

/-- `StartLRUCrawler()` and `StartLRUMaintainer()`: a failed `Start()` returns at once. -/
def startTrace (m : Mutex) (running started : Bool) : List (LockEvent Mutex) :=
  if running then [] else .lock m :: if started then [.unlock m] else []

/-- What the call does to mutexes. -/
def trace : LockCall → List (LockEvent Mutex)
  | itemAlloc s key flags nbytes => mutexes (s.doItemAllocEvents key flags nbytes 0)
  | itemGet s key | itemTouch s key =>
    s.underItemLock (s.hash key) fun s => s.doItemGetEvents key (s.hash key)
  | itemLink s it => s.underItemLock (s.hv it) fun s => s.doItemLinkEvents it (s.hv it)
  | itemRemove s it => s.underItemLock (s.hv it) fun s => s.doItemRemoveEvents it
  | itemReplace s it newIt hv => mutexes (s.doItemReplaceEvents it newIt hv)
  | itemUnlink s it => s.underItemLock (s.hv it) fun s => s.doItemUnlinkEvents it (s.hv it)
  | doItemUnlink s it hv => mutexes (s.doItemUnlinkEvents it hv)
  | itemUpdate s it => s.underItemLock (s.hv it) fun s => s.doItemUpdateEvents it
  | storeItem s it op => s.underItemLock (s.hv it) fun s => s.doStoreItemEvents (s.hv it) it op
  | itemCacheDump s slabsClsid malloced =>
    let id := if s.settings.lruMaintainerThread then slabsClsid else slabsClsid ||| LruStatus.cold.val
    .lock (.cache id) :: if malloced then [.unlock (.cache id)] else []
  | getByIndex index => [.lock (.cache index), .unlock (.cache index)]
  | itemStatsEvictions => (List.range maxNumberOfSlabClasses).flatMap fun n =>
      [LruStatus.hot, .warm, .cold, .noexp].flatMap fun x =>
        [.lock (.cache (n ||| x.val)), .unlock (.cache (n ||| x.val))]
  | startLRUCrawler lruCrawler started => startTrace .crawler lruCrawler started
  | stopLRUCrawler => [.lock .crawler, .unlock .crawler]
  | lruCrawl s slabs got => s.lruCrawlTrace slabs got
  | lruCrawlerStart s id remaining got => s.lruCrawlerStartTrace id remaining got
  | lruMaintainerCrawlerCheck steps => steps.flatMap CheckStep.trace
  | crawlerRun wakes =>
    -- `pthread_cond_wait` gives the lock up and takes it again
    .lock .crawler :: ((wakes.flatMap fun steps => .unlock .crawler :: .lock .crawler ::
      steps.flatMap fun step => step.1.crawlStepTrace step.2) ++ [.unlock .crawler])
  | startLRUMaintainer lruMaintainerThread started =>
    startTrace .maintainer lruMaintainerThread started
  | stopLRUMaintainer => [.lock .maintainer, .unlock .maintainer]
  | lruMaintainerJuggle steps => steps.flatMap JuggleStep.trace
  | maintainerRun rounds =>
    .lock .maintainer :: (rounds.flatMap MaintainerRound.trace ++ [.unlock .maintainer])
  | assocRun rounds => rounds.flatMap AssocRound.trace

end LockCall

/-! ## The calm calls -/

namespace Store

variable (s : Store)

/-- The crawler gets the lock of item `it`, nobody else refers to it, and it is expired or flushed. -/
def findsReclaimable (it : Ptr) : Bool :=
  (s.tryLock (s.hv it)).1.isSome && (s.refcountIncr it).1 = 2 && s.isReclaimable it

/-- The iteration for queue `i` evaluates an item that is expired or flushed. -/
def crawlReclaims (i : ℕ) : Bool :=
  match s.crawlTarget i with
  | none => false
  | some (it, u) => u.findsReclaimable it

end Store

/-- No crawl is started. -/
def CheckStep.calm : CheckStep → Bool
  | .wait => true
  | .start _ _ got => !got

/-- The walk is calm. -/
def JuggleStep.calm : JuggleStep → Bool
  | .noExpLRUSize _ => true
  | .pullTail s slabsClsid curLru totalChunks => s.calmPull slabsClsid curLru totalChunks false 0

/-- **The calm calls.** -/
def LockCall.calm : LockCall → Bool
  | itemAlloc s key flags nbytes => s.calmAlloc key flags nbytes 0
  | storeItem s it op => { s with itemLocks := Store.itemLock (s.hv it) :: s.itemLocks }.calmStore
      (s.hv it) it op
  | itemCacheDump _ _ malloced => malloced
  | startLRUCrawler running started | startLRUMaintainer running started => running || started
  | lruCrawl _ slabs got => !got || match slabs.classes with
    | none => true
    | some f => Store.crawlable.all fun sid => !f sid
  | lruCrawlerStart _ _ _ got => !got
  | lruMaintainerCrawlerCheck steps => steps.all CheckStep.calm
  | crawlerRun wakes => wakes.all fun steps => steps.all fun step => !step.1.crawlReclaims step.2
  | lruMaintainerJuggle steps => steps.all JuggleStep.calm
  | maintainerRun rounds => rounds.all fun r => r.juggle.all JuggleStep.calm && r.check.all CheckStep.calm
  | _ => true

/-! ## Discipline -/

theorem disciplined_underItemLock {s : Store} {hv : UInt32} {body : Store → List CallEvent}
    (h : Disciplined [.item (Store.itemLock hv)]
      (mutexes (body { s with itemLocks := Store.itemLock hv :: s.itemLocks }))) :
    Disciplined [] (s.underItemLock hv body) := .bracket (by simp) h

theorem not_cache_item (l id : ℕ) : Mutex.cache id ∉ [Mutex.item l] := by simp

/-- **The crawler's visit to an item** that it does not unlink. -/
theorem disciplined_crawlItem {s : Store} {i : ℕ} {it : Ptr} {h : List Mutex}
    (hi : ∀ l, .item l ∉ h) (hst : .crawlerStats ∉ h) (hf : s.findsReclaimable it = false) :
    Disciplined h (s.crawlItemTrace i it) := by
  unfold Store.crawlItemTrace
  obtain ⟨e, ht⟩ | ⟨l, e, -, ht⟩ := tryLock_fresh s (s.hv it)
  · rw [ht]
    exact .nil h
  rw [ht]
  dsimp only
  refine .tryBracket (hi l) ?_
  by_cases hr : (Store.refcountIncr { s with env := e, itemLocks := l :: s.itemLocks } it).1 ≠ 2
  · rw [if_pos hr]
    exact .nil _
  · -- the item is evaluated, and it is alive
    have hlive : ¬ s.isReclaimable it := by
      have hr' : (s.refcountIncr it).1 = 2 := not_not.mp hr
      simpa [Store.findsReclaimable, ht, hr'] using hf
    rw [if_neg hr, Store.itemEvaluateTrace]
    dsimp only
    rw [if_neg]
    · exact .pair (fun hm => by
        rcases List.mem_cons.mp hm with e | hm
        · cases e
        · exact hst hm)
    · exact hlive

/-- **One iteration of the crawler.** -/
theorem disciplined_crawlStep {s : Store} {i : ℕ} (hf : s.crawlReclaims i = false) :
    Disciplined [.crawler] (s.crawlStepTrace i) := by
  rw [Store.crawlReclaims] at hf
  unfold Store.crawlStepTrace
  split_ifs with ho
  · exact .nil _
  · generalize s.crawlTarget i = target at hf ⊢
    obtain _ | ⟨it, u⟩ := target
    · have h1 : Disciplined [Mutex.crawler] [.lock (Mutex.cache i), .unlock (Mutex.cache i)] :=
        .pair (by simp)
      exact h1.append (.pair (by simp))
    · exact .bracket (by simp) (disciplined_crawlItem (by simp) (by simp) hf)

theorem disciplined_lruCrawl (s : Store) {slabs : Store.CrawlList} {got : Bool}
    (hf : (LockCall.lruCrawl s slabs got).calm = true) :
    Disciplined [] (s.lruCrawlTrace slabs got) := by
  have hnone : ∀ (f : ℕ → Bool) (sids : List ℕ), (sids.all fun sid => !f sid) = true →
      ∀ t, Store.crawlClassesTrace f sids t = [] := by
    intro f sids
    induction sids with
    | nil => exact fun _ _ => rfl
    | cons sid sids ih =>
      intro h t
      rw [List.all_cons, Bool.and_eq_true, Bool.not_eq_true'] at h
      rw [Store.crawlClassesTrace, if_neg (Bool.eq_false_iff.mp h.1)]
      exact ih h.2 t
  rw [LockCall.calm] at hf
  cases got with
  | false => exact .nil _
  | true =>
    rw [Store.lruCrawlTrace, if_pos rfl]
    refine .tryBracket (by simp) ?_
    cases hcl : slabs.classes with
    | none => exact .nil _
    | some f =>
      rw [hcl] at hf
      dsimp only
      rw [hnone f _ hf]
      exact .nil _

theorem disciplined_check {c : CheckStep} (hc : c.calm = true) :
    Disciplined [.maintainer] c.trace := by
  cases c with
  | wait => exact .pair (by simp)
  | start s i got =>
    cases got with
    | true => cases hc
    | false => exact .tryLock_false (.pair (by simp))

theorem disciplined_juggle {j : JuggleStep} (hj : j.calm = true) :
    Disciplined [.maintainer] j.trace := by
  cases j with
  | noExpLRUSize slabsClsid => exact .pair (by simp)
  | pullTail s slabsClsid curLru totalChunks =>
    exact (pull_calm totalChunks 0 (by simp) (fun l hl => by simp at hl) hj).2

theorem disciplined_start {m : Mutex} {running started : Bool} (h : (running || started) = true) :
    Disciplined [] (LockCall.startTrace m running started) := by
  cases running with
  | true => exact .nil _
  | false =>
    obtain rfl : started = true := h
    exact .pair (by simp)

/-- The lock of a thread's loop is given up for a while and taken again. -/
theorem disciplined_nap {m : Mutex} {evs : List (LockEvent Mutex)} (h : Disciplined [m] evs) :
    Disciplined [m] (.unlock m :: .lock m :: evs) :=
  holds_unlock.trans ((holds_lock (by simp)).trans h)

theorem disciplined_assoc (r : AssocRound) : Disciplined [] r.trace := by
  cases r with
  | move b got =>
    cases got with
    | true => exact .tryBracket (by simp) (.nil _)
    | false => exact .nil _
  | expand => decide

/-- **Lock discipline.** A calm call of `ItemManager`, `LRUCrawler`, `LRUMaintainer` or
`AssocMaintainer`, on any store and with the mutexes its callers hold, never waits for a mutex of its
own thread, and when it returns it has given back exactly what it took. -/
theorem locks_disciplined {c : LockCall} (hcalm : c.calm = true) : Disciplined c.held c.trace := by
  cases c with dsimp only [LockCall.held, LockCall.trace]
  | itemAlloc s key flags nbytes =>
    exact disciplined_doItemAlloc (fun _ h => by cases h) key flags nbytes (fun l hl => by cases hl) hcalm
  | itemGet s key | itemTouch s key =>
    exact disciplined_underItemLock (disciplined_doItemGet (not_cache_item _) _ _ key)
  | itemLink s it =>
    exact disciplined_underItemLock (disciplined_doItemLink (not_cache_item _) _ it _)
  | itemRemove s it =>
    refine disciplined_underItemLock ?_
    rw [Store.mutexes_doItemRemove]
    exact .nil _
  | itemReplace s it newIt hv => exact disciplined_doItemReplace (not_cache_item _) s it hv newIt
  | itemUnlink s it =>
    exact disciplined_underItemLock (disciplined_doItemUnlink (not_cache_item _) _ it _)
  | doItemUnlink s it hv => exact disciplined_doItemUnlink (not_cache_item _) s it hv
  | itemUpdate s it =>
    exact disciplined_underItemLock (disciplined_doItemUpdate (not_cache_item _) _ it)
  | storeItem s it op =>
    refine disciplined_underItemLock
      (disciplined_doStoreItem (not_cache_item _) _ it op (fun l hl => ?_) hcalm)
    rw [List.mem_singleton, Mutex.item.injEq] at hl
    rw [hl]
    exact List.mem_cons_self
  | itemCacheDump s slabsClsid malloced =>
    obtain rfl : malloced = true := hcalm
    exact .pair (by simp)
  | getByIndex index => exact .pair (by simp)
  | itemStatsEvictions => exact .flatMap fun n _ => .flatMap fun x _ => .pair (by simp)
  | startLRUCrawler lruCrawler started => exact disciplined_start hcalm
  | startLRUMaintainer lruMaintainerThread started => exact disciplined_start hcalm
  | stopLRUCrawler | stopLRUMaintainer => exact .pair (by simp)
  | lruCrawl s slabs got => exact disciplined_lruCrawl s hcalm
  | lruCrawlerStart s id remaining got =>
    cases got with
    | true => cases hcalm
    | false => exact .nil _
  | lruMaintainerCrawlerCheck steps =>
    exact .flatMap fun c hc => disciplined_check (List.all_eq_true.mp hcalm c hc)
  | crawlerRun wakes =>
    refine .bracket (by simp) (.flatMap fun steps hs => disciplined_nap (.flatMap fun step ht => ?_))
    have h := List.all_eq_true.mp (List.all_eq_true.mp hcalm steps hs) step ht
    exact disciplined_crawlStep (by simpa using h)
  | lruMaintainerJuggle steps =>
    exact .flatMap fun j hj => disciplined_juggle (List.all_eq_true.mp hcalm j hj)
  | maintainerRun rounds =>
    refine .bracket (by simp) (.flatMap fun r hr => disciplined_nap ?_)
    have h := List.all_eq_true.mp hcalm r hr
    rw [Bool.and_eq_true] at h
    exact .append (.flatMap fun j hj => disciplined_juggle (List.all_eq_true.mp h.1 j hj))
      (.flatMap fun c hc => disciplined_check (List.all_eq_true.mp h.2 c hc))
  | assocRun rounds => exact .flatMap fun r _ => disciplined_assoc r

/-- A small store whose keys all have hash value 1. -/
def oddWorld : World := smallConfig.world (fun _ => 1) .willing

theorem oddWorld_init : Reach World.Init WorldStep oddWorld :=
  .start ⟨smallConfig, fun _ => 1, .willing, smallConfig_ok, rfl⟩

/-- The maintainer's walk gets the lock of a live item, and gives it back. -/
theorem locks_disciplined_juggle :
    let s := (oddWorld.run (putOps (.byte 97) 0 0 [118, 13, 10] 0 .set (.chunk 4192))).store
    let c := LockCall.maintainerRun [⟨[.noExpLRUSize 1, .pullTail s 1 .cold 0], [.wait]⟩]
    .tryLock (.item 1) true ∈ c.trace ∧ Disciplined c.held c.trace := by
  intro s c
  have hcalm : c.calm = true := by decide
  exact ⟨by decide, locks_disciplined hcalm⟩

/-- **Where the discipline breaks**, in states that clients lead to: a client's allocation, a walk of
the maintainer and the crawler each come to an item that has expired, lock its queue, and wait for that
lock in `ItemUnlinkQ`; a walk over a `HOT` queue keeps the lock of the item it finds; every crawl
waits for itself as it starts; a failed `Start()` and a failed `malloc` keep a lock. -/
theorem locks_undisciplined : ∃ w w' w'' : World, Reach World.Init WorldStep w ∧
    Reach World.Init WorldStep w' ∧ Reach World.Init WorldStep w'' ∧
    holds [] (LockCall.itemAlloc w.store (.byte 98) 0 3).trace = none ∧
    holds [.maintainer] (LockCall.lruMaintainerJuggle [.pullTail w.store 1 .cold 0]).trace = none ∧
    holds [] (LockCall.crawlerRun [[(w''.store, 129)]]).trace = none ∧
    holds [.maintainer] (LockCall.lruMaintainerJuggle [.pullTail w'.store 1 .hot 0]).trace =
      some [.item 1, .maintainer] ∧
    (∀ s id remaining, holds [.maintainer]
      (LockCall.lruCrawlerStart s id remaining true).trace = none) ∧
    holds [] (LockCall.startLRUCrawler false false).trace = some [.crawler] ∧
    holds [] (LockCall.startLRUMaintainer false false).trace = some [.maintainer] ∧
    holds [] (LockCall.itemCacheDump w.store 1 false).trace = some [.cache 129] := by
  obtain ⟨hr, -⟩ := reach_plays (.chunk 4192) (expiringOps ++ [.remove (.chunk 4192), .tick 6])
    oddWorld_init (by decide)
  obtain ⟨hr', -⟩ := reach_plays (.chunk 4192)
    (.maintainer true :: putOps (.byte 97) 0 0 [118, 13, 10] 0 .set (.chunk 4192))
    oddWorld_init (by decide)
  obtain ⟨hr'', -⟩ := reach_plays (.chunk 4192)
    (expiringOps ++ [.remove (.chunk 4192), .tick 6, .crawlStart 1 0]) oddWorld_init (by decide)
  refine ⟨_, _, _, hr, hr', hr'', ?_, ?_, ?_, ?_, fun s id remaining => ?_, ?_, ?_, ?_⟩
  · decide
  · decide
  · decide
  · decide
  · show holds (M := Mutex) [.maintainer] (.tryLock .crawler true ::
      .lock (.cache (id ||| LruStatus.hot.val)) :: .lock (.cache (id ||| LruStatus.hot.val)) :: _) = none
    rw [holds_tryLock (by simp), holds_lock (by simp), holds_lock_own List.mem_cons_self]
  · decide
  · decide
  · decide

end Mdb
