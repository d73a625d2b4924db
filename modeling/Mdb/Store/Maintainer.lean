import Mdb.Store.LockCalls
import Mdb.Store.Pressure
import Mdb.Store.Recrawl

/-!
# The maintainer thread

A pass of `LRUMaintainer::Run` is to juggle the queues of every slab class: `HOT` or `WARM`, then `COLD`,
until a round does nothing, or a thousand times.

* `Store.chunkBudget`: the `total_chunks` that `DoItemAlloc` and `LRUMaintainerJuggle` work out of two
  reads, of the pages of the class and of the size of a queue;
* `Store.lruMaintainerJuggle`, `Maintainer.pass`: the pass;
* **`chunk_budget`**: the queue is `HOT`, not `NOEXP`; **`chunk_budget_wrong`**;
* `Unhindered`: nothing keeps a walk from moving items; `Unhindered.juggle`: then a class is served;
* **`pass_serves`**: the pass serves every class if `lru_clsid_` is set; it never is, and the pass leaves
  the queues as they are: **`pass_idle`**.
-/

namespace Mdb

open Run

/-! ## The code -/

namespace Store

variable (s : Store)

/-- `SlabsAvailableChunks(id, &mem_flag, &total_chunks)`: the free chunks, `mem_flag` and
`total_chunks`. -/
def slabsAvailableChunks (id : ℕ) : UInt32 × Bool × UInt32 :=
  let p := s.slabs.slabclass id
  (p.slCurr, s.slabs.memLimitReached, UInt32.ofNat (p.slabs * p.perslab))

/-- `NoExpLRUSize(slabs_clsid)`. -/
def noExpLRUSize (slabsClsid : ℕ) : UInt32 := s.lru.itemSizes (clearLru slabsClsid)

/-- `total_chunks` after the second read: what the first one gave, which may be some time ago, less the
size of the queue. -/
def chunkBudget (totalChunks : UInt32) (id : ℕ) : UInt32 :=
  if s.settings.expirezeroDoesNotEvict then totalChunks - s.noExpLRUSize id else totalChunks

/-- A round of the loop in `DoItemAlloc` for which `SlabsAllocator` had no chunk, from the second read
on. -/
def allocRetry (id : ℕ) (curHv : UInt32) (totalChunks : UInt32) : Store :=
  let totalChunks := s.chunkBudget totalChunks id
  if s.settings.lruMaintainerThread then
    let s := (s.itemLRUPullTail id .hot totalChunks.toUInt64 false curHv).2
    let s := (s.itemLRUPullTail id .warm totalChunks.toUInt64 false curHv).2
    (s.itemLRUPullTail id .cold totalChunks.toUInt64 true curHv).2
  else (s.itemLRUPullTail id .cold 0 true curHv).2

/-- The loop of `LRUMaintainerJuggle`, with `did_moves`; the fuel is what is left of the rounds. -/
def juggleLoop (id : ℕ) (totalChunks : UInt64) : ℕ → Store → ℕ → ℕ × Store
  | 0, s, didMoves => (didMoves, s)
  | fuel + 1, s, didMoves =>
    let r := s.itemLRUPullTail id .hot totalChunks false 0
    -- `||`: the `WARM` queue has its turn if the `HOT` one gave nothing
    let r := if r.1 ≠ 0 then r else r.2.itemLRUPullTail id .warm totalChunks false 0
    let doMore := if r.1 ≠ 0 then 1 else 0
    let r := r.2.itemLRUPullTail id .cold totalChunks false 0
    if doMore + r.1 = 0 then (didMoves, r.2) else juggleLoop id totalChunks fuel r.2 (didMoves + 1)

/-- The rounds of a juggle. -/
def juggleRounds : ℕ := 1000

/-- `LRUMaintainerJuggle(slabs_clsid)` from the second read on. -/
def lruMaintainerJuggle (slabsClsid : ℕ) (totalChunks : UInt32) : ℕ × Store :=
  juggleLoop slabsClsid (s.chunkBudget totalChunks slabsClsid).toUInt64 juggleRounds s 0

/-- `LRUMaintainerJuggle` for one class after the other, each with its `did_moves`; nothing happens
between the reads. -/
def juggleClasses : List ℕ → Store → List (ℕ × ℕ) × Store
  | [], s => ([], s)
  | id :: ids, s =>
    let r := s.lruMaintainerJuggle id (s.slabsAvailableChunks id).2.2
    let rs := juggleClasses ids r.2
    ((id, r.1) :: rs.1, rs.2)

end Store

/-- The slab classes of the loops in `Run` and `LRUMaintainerCrawlerCheck`. -/
def slabClasses : List ℕ := List.range' powerSmallest (maxNumberOfSlabClasses - powerSmallest)

/-- `LRUMaintainerCrawlerCheck()`; `got id` is whether `LRUCrawlerStart` gets `lru_crawler_lock_`. -/
def Recrawl.crawlerCheck (r : Recrawl) (got : ℕ → Bool) : Recrawl :=
  slabClasses.foldl (fun r id => (r.kick id (got id)).check id) r

/-- What `Run` works on: the store and the variables of `LRUMaintainerCrawlerCheck`, `lru_clsid_`, its own
`to_sleep` and `last_crawler_check`, and of the globals `lru_crawler` and `lru_maintainer_juggles`. -/
structure Maintainer where
  recrawl : Recrawl
  lruClsid : Bool
  toSleep : ℕ
  lastCrawlerCheck : UInt32
  lruCrawler : Bool
  juggles : UInt64

namespace Maintainer

variable (m : Maintainer)

/-- `MAX_LRU_MAINTAINER_SLEEP`. -/
def maxSleep : ℕ := 1000000

/-- `MIN_LRU_MAINTAINER_SLEEP`. -/
def minSleep : ℕ := 1000

/-- `to_sleep` after a pass. -/
def nextSleep (didMoves toSleep : ℕ) : ℕ :=
  if didMoves = 0 then
    if toSleep < maxSleep then toSleep + 1000 else toSleep
  else if toSleep / 2 < minSleep then minSleep else toSleep / 2

/-- The classes that a pass juggles: `LRUMaintainerJuggle(lru_clsid_)` has the `bool` for a class. -/
def classes : List ℕ := if !m.lruClsid then [m.lruClsid.toNat] else slabClasses

/-- The body of the loop in `Run`, with the `did_moves` of each class juggled. -/
def pass (got : ℕ → Bool) : List (ℕ × ℕ) × Maintainer :=
  let r := Store.juggleClasses m.classes m.recrawl.store
  let didMoves := (r.1.map Prod.snd).sum
  let m := { m with
    recrawl := { m.recrawl with store := r.2 }
    juggles := m.juggles + 1
    lruClsid := if !m.lruClsid then false else m.lruClsid
    toSleep := nextSleep didMoves m.toSleep }
  let ct := r.2.now
  if m.lruCrawler ∧ m.lastCrawlerCheck ≠ ct then
    (r.1, { m with recrawl := m.recrawl.crawlerCheck got, lastCrawlerCheck := ct })
  else (r.1, m)

end Maintainer

/-! ## The budget -/

/-- The number of items in a queue. -/
theorem Inv.encard_inQueue {b : Base} {s : Store} {v : View} {refs : Ptr → ℕ} (h : Inv b s v refs)
    (q : ℕ) : {x | s.InQueue q x}.encard = (v.queue q).countP Ptr.isChunk := by
  have hset : {x | s.InQueue q x} = ((itemsOf (v.queue q)).toFinset : Set Ptr) := by
    ext x
    simp [h.inQueue_iff]
  rw [hset, Set.encard_coe_eq_coe_finsetCard,
    List.toFinset_card_of_nodup ((h.queues.dll q).nodup.filter _), List.countP_eq_length_filter]

/-- `item_sizes_` is the number of items. -/
theorem encard_of_reach {w : World} (h : Reach World.Init WorldStep w) (q : ℕ) :
    {x | w.store.InQueue q x}.encard = (w.store.lru.itemSizes q).toNat := by
  obtain ⟨refs, ht⟩ := tracked_of_reach h
  obtain ⟨v, hv⟩ := ht.inv
  rw [hv.encard_inQueue, hv.queues.size, UInt32.toNat_ofNat_of_lt' (hv.items_lt q)]

/-- `slabs * perslab`. -/
def Store.chunkCount (s : Store) (c : ℕ) : ℕ :=
  (s.slabs.slabclass c).slabs * (s.slabs.slabclass c).perslab

theorem Store.doSlabsAlloc_total {s : Store} {id : ℕ} (h : s.slabs.InRange id) (size : ℕ)
    (tc : UInt32) : (s.doSlabsAlloc size id tc).2.1 = UInt32.ofNat (s.chunkCount id) := by
  simp only [Store.doSlabsAlloc, if_pos h]
  split
  · split_ifs <;> rfl
  · rfl

/-- With the maintainer thread on, a round of `DoItemAlloc` without a chunk is an `allocRetry`. -/
theorem Store.allocLoop_retry {s s' : Store} {ntotal id n : ℕ} {curHv tc tc' : UInt32}
    (hon : s.settings.lruMaintainerThread = true)
    (h : s.doSlabsAlloc ntotal id tc = (none, tc', s')) (fuel : ℕ) :
    Store.allocLoop ntotal id curHv (fuel + 1) s tc n =
      Store.allocLoop ntotal id curHv fuel (s'.allocRetry id curHv tc') (s'.chunkBudget tc' id)
        (n + 1) := by
  simp only [Store.allocLoop, if_pos hon, h]
  rfl

/-- **The chunk budget.** The first read is in `w₁`, the second one in `w₂`. What is subtracted is the
size of the `HOT` queue: the result is the number of chunks less the size of `NOEXP`, and does not wrap,
exactly if the two queues have equally many items and not more than there were chunks. They have not more
if the class got no page in between. -/
theorem chunk_budget {w₁ w₂ : World} (h₁ : Reach World.Init WorldStep w₁)
    (h₂ : Reach World.Init WorldStep w₂) (hon : w₁.store.settings.lruMaintainerThread = true)
    (hez : w₂.store.settings.expirezeroDoesNotEvict = true) {c hot noexp : ℕ}
    (hc : c < maxNumberOfSlabClasses)
    (hhot : {x | w₂.store.InQueue (c ||| LruStatus.hot.val) x}.encard = hot)
    (hnoexp : {x | w₂.store.InQueue (c ||| LruStatus.noexp.val) x}.encard = noexp) :
    let total := w₁.store.chunkCount c
    let budget := w₂.store.chunkBudget (UInt32.ofNat total) c
    (∀ ntotal curHv tc n fuel s', w₁.store.slabs.InRange c →
      (w₁.store.doSlabsAlloc ntotal c tc).1 = none → (w₁.store.doSlabsAlloc ntotal c tc).2.2 = s' →
      Store.allocLoop ntotal c curHv (fuel + 1) w₁.store tc n =
        Store.allocLoop ntotal c curHv fuel (s'.allocRetry c curHv (UInt32.ofNat total))
          (s'.chunkBudget (UInt32.ofNat total) c) (n + 1)) ∧
    (w₁.store.slabsAvailableChunks c).2.2 = UInt32.ofNat total ∧
    (budget.toNat + noexp = total ↔ noexp = hot ∧ hot ≤ total) ∧
    (w₂.store.chunkCount c ≤ total → hot ≤ total) := by
  intro total budget
  obtain ⟨refs₁, ht₁⟩ := tracked_of_reach h₁
  obtain ⟨v₁, hv₁⟩ := ht₁.inv
  obtain ⟨refs₂, ht₂⟩ := tracked_of_reach h₂
  obtain ⟨v₂, hv₂⟩ := ht₂.inv
  have hcc : clearLru c = c := Nat.mod_eq_of_lt hc
  rw [show c ||| LruStatus.hot.val = c from Nat.or_zero c] at hhot
  have hsize : (w₂.store.lru.itemSizes c).toNat = hot := by
    rw [encard_of_reach h₂] at hhot
    exact_mod_cast hhot
  have hnlt : noexp < 2 ^ 32 := by
    rw [encard_of_reach h₂] at hnoexp
    rw [← show UInt32.toNat _ = noexp from mod_cast hnoexp]
    exact UInt32.toNat_lt _
  have htotal : total < 2 ^ 32 := by
    have := hv₁.slabs.pages.chunks_length_le hv₁.slabs.valid c
    rw [hv₁.slabs.pages.chunks_length] at this
    exact this.trans_lt (by norm_num)
  have hbudget : budget = UInt32.ofNat total - w₂.store.lru.itemSizes c := by
    show w₂.store.chunkBudget _ c = _
    rw [Store.chunkBudget, if_pos hez, Store.noExpLRUSize, hcc]
  have hlt := UInt32.toNat_lt (w₂.store.lru.itemSizes c)
  refine ⟨fun ntotal curHv tc n fuel s' hr hnone hs' => ?_, rfl, ?_, fun hle => ?_⟩
  · refine Store.allocLoop_retry hon ?_ fuel
    rw [← hs', ← hnone, ← show _ = UInt32.ofNat total from Store.doSlabsAlloc_total hr ntotal tc]
  · rw [hbudget, UInt32.toNat_sub, UInt32.toNat_ofNat_of_lt' htotal]
    omega
  · have hitems := hv₂.items_le c
    rw [hv₂.encard_inQueue] at hhot
    rw [hcc, show (v₂.queue c).countP Ptr.isChunk = hot from mod_cast hhot] at hitems
    exact hitems.trans hle

/-- The small store, where items that do not expire have a queue of their own. -/
def noexpConfig : Config :=
  { smallConfig with settings := { smallConfig.settings with expirezeroDoesNotEvict := true } }

theorem noexpConfig_ok : noexpConfig.Ok :=
  ⟨⟨by decide, by decide, by decide, by decide, by decide, by decide, by decide⟩,
    ⟨rfl, rfl⟩, rfl, rfl, by decide, by decide⟩

/-- The maintainer thread is started; nothing else. -/
def noexpWorld : World := (noexpConfig.world (fun _ => 0) .willing).run [.maintainer true]

/-- A value is set, which is to expire at time 20. -/
def setOps : List Op := putOps (.byte 97) 0 20 [118, 13, 10] 0 .set (.chunk 4192)

theorem noexpWorld_reach (n : ℕ) (h : World.Plays (.chunk 4192) noexpWorld (setOps.take n)) :
    Reach World.Init WorldStep (noexpWorld.run (setOps.take n)) := by
  have h0 := reach_plays (.chunk 4192) [.maintainer true] (.start ⟨noexpConfig, fun _ => 0, .willing,
    noexpConfig_ok, rfl⟩) (by decide)
  exact (reach_plays _ _ h0.1 h).1

/-- An item has been allocated and not linked, so both queues are empty: the budget is the page. -/
theorem chunk_budget_page :
    let w := noexpWorld.run (setOps.take 1)
    w.store.chunkCount 1 = 2 ∧ (w.store.chunkBudget (UInt32.ofNat 2) 1).toNat + 0 = 2 := by
  have hr := noexpWorld_reach 1 (by decide)
  exact ⟨by decide, ((chunk_budget hr hr (by decide) (by decide) (c := 1) (by decide)
    (encard_of_reach hr _) (encard_of_reach hr _)).2.2.1).mpr (by decide)⟩

/-- **The budget is wrong** if there is an item in the `HOT` queue and none in the `NOEXP` one: it is one
of two chunks, and if the class had no page at the first read, it wraps. -/
theorem chunk_budget_wrong :
    let w₁ := noexpWorld.run (setOps.take 0)
    let w₂ := noexpWorld.run (setOps.take 3)
    Reach World.Init WorldStep w₁ ∧ Reach World.Init WorldStep w₂ ∧ w₁.run setOps = w₂ ∧
      w₂.store.settings.lruMaintainerThread = true ∧
      w₂.store.settings.expirezeroDoesNotEvict = true ∧
      {x | w₂.store.InQueue (1 ||| LruStatus.noexp.val) x} = ∅ ∧
      w₁.store.chunkCount 1 = 0 ∧ w₂.store.chunkBudget (UInt32.ofNat 0) 1 = 4294967295 ∧
      w₂.store.chunkCount 1 = 2 ∧ w₂.store.chunkBudget (UInt32.ofNat 2) 1 = 1 := by
  have h₂ := noexpWorld_reach 3 (by decide)
  refine ⟨noexpWorld_reach 0 (by decide), h₂, rfl, by decide, by decide, ?_, by decide⟩
  rw [← Set.encard_eq_zero, encard_of_reach h₂]
  decide

/-! ## Locks -/

/-- `TryLock` gets every lock that is not taken. -/
def Env.NeverBusy (e : Env) : Prop := ∀ n, e.tryLocks n = true

/-- The environment after a visit. -/
def Store.PullOutcome.HasEnv (e : Env) : Store.PullOutcome → Prop
  | .skip => True
  | .next t _ => t.env = e
  | .stop t _ _ _ => t.env = e

namespace Store

variable (s : Store) (id : ℕ) (curLru : LruStatus) (totalChunks : UInt64) (doEvict : Bool)
  (curHv : UInt32) (it : Ptr) (hv : UInt32) (lock : ℕ)

theorem doItemUnlink_env : (s.doItemUnlink it hv).env = s.env := by
  unfold doItemUnlink
  split_ifs
  · obtain ⟨a, ha, -⟩ := (s.markUnlinked it).assocDelete_frame (s.heap.key it) hv
    rw [doItemRemove_env, unlinkCore, ha]
    rfl
  · rfl

theorem doItemUpdateNolock_env : (s.doItemUpdateNolock it).env = s.env := by
  unfold doItemUpdateNolock
  split_ifs <;> rfl

theorem pullSwitch_env : (s.pullSwitch id curLru totalChunks doEvict it hv lock).HasEnv s.env := by
  cases curLru with
  | hot | noexp => rfl
  | warm =>
    dsimp only [pullSwitch]
    split_ifs
    · rfl
    · show (doItemRemove _ it).env = s.env
      rw [doItemRemove_env, doItemUpdateNolock_env]
      rfl
    · rfl
  | cold =>
    dsimp only [pullSwitch]
    split_ifs
    · rfl
    · show (doItemUnlink _ it hv).env = s.env
      rw [doItemUnlink_env]
      dsimp only [countEvicted]
      split_ifs <;> rfl
    · rfl
    · rfl

theorem pullReferenced_env :
    (s.pullReferenced id curLru totalChunks doEvict it hv lock).HasEnv s.env := by
  unfold pullReferenced
  split_ifs
  · show (doItemRemove (doItemUnlink _ it hv) it).env = s.env
    rw [doItemRemove_env, doItemUnlink_env]
    dsimp only [countReclaimed]
    split_ifs <;> rfl
  · exact s.pullSwitch_env id curLru totalChunks doEvict it hv lock

theorem pullLocked_env : (s.pullLocked id curLru totalChunks doEvict it hv lock).HasEnv s.env := by
  dsimp only [pullLocked]
  split_ifs
  · show (doItemUnlink _ it hv).env = s.env
    rw [doItemUnlink_env]
    rfl
  · exact pullReferenced_env _ id curLru totalChunks doEvict it hv lock
  · exact pullReferenced_env _ id curLru totalChunks doEvict it hv lock

theorem pullFinish_env (st : LruStatus) : (s.pullFinish it st lock).env = s.env := by
  show (doItemRemove _ it).env = s.env
  rw [doItemRemove_env]
  split_ifs <;> rfl

variable {s}

theorem pullItem_neverBusy (h : s.env.NeverBusy) :
    ∃ e, e.NeverBusy ∧ (s.pullItem id curLru totalChunks doEvict curHv it).HasEnv e := by
  have htry : (s.tryLock (s.hv it)).2.env.NeverBusy := fun n => by
    dsimp only [tryLock]
    split_ifs <;> exact h (n + 1)
  unfold pullItem
  split_ifs
  · exact ⟨s.env, h, trivial⟩
  · exact ⟨s.env, h, rfl⟩
  · refine ⟨_, htry, ?_⟩
    obtain ⟨e, ht⟩ | ⟨l, e, ht⟩ := s.tryLock_cases (s.hv it)
    · rw [ht]
      rfl
    · rw [ht]
      exact pullLocked_env _ id curLru totalChunks doEvict it _ l

theorem pullLoop_neverBusy (fuel : ℕ) : ∀ (tries : ℕ) {s : Store} (search : Option Ptr)
    (removed : ℕ), s.env.NeverBusy →
    (pullLoop id curLru totalChunks doEvict curHv fuel tries s search removed).2.env.NeverBusy := by
  induction fuel with
  | zero => exact fun _ _ _ _ h => h
  | succ fuel ih =>
    intro tries s search removed h
    cases tries with
    | zero => exact h
    | succ tries =>
      cases search with
      | none => exact h
      | some it =>
        obtain ⟨e, he, ho⟩ := pullItem_neverBusy id curLru totalChunks doEvict curHv it h
        rw [pullLoop]
        cases hp : s.pullItem id curLru totalChunks doEvict curHv it with
        | skip => exact ih _ _ _ h
        | next t n =>
          rw [hp] at ho
          exact ih _ _ _ (show t.env.NeverBusy by rw [show t.env = e from ho]; exact he)
        | stop t st n lock =>
          rw [hp] at ho
          rw [pullFinish_env, show t.env = e from ho]
          exact he

end Store

/-! ## Juggling -/

/-- **Nothing hinders the walks of the maintainer thread**: no item lock is taken and each can be had, no
item has the hash value 0, which the thread passes for `cur_hv`, and none is in a `HOT` queue, where a
walk would keep its lock. -/
structure Store.Unhindered (s : Store) : Prop where
  noRepair : s.settings.tailRepairTime = 0
  unlocked : s.itemLocks = []
  neverBusy : s.env.NeverBusy
  items : ∀ x, x.isChunk = true → (s.flags x).linked = true →
    s.hv x ≠ 0 ∧ maxNumberOfSlabClasses ≤ s.heap.slabsClsid x ∧ s.heap.refcount x < 2 ^ 16

namespace Store

/-- `total_chunks * warm_lru_pct / 100`, without overflow. -/
def warmLimit (s : Store) (c : ℕ) : ℕ := s.chunkCount c * s.settings.warmLruPct.toNat / 100

/-- **The `WARM` queue of class `c` is within its limit.** -/
def WarmWithin (s : Store) (c : ℕ) : Prop :=
  {x | s.InQueue (c ||| LruStatus.warm.val) x}.encard ≤ s.warmLimit c

theorem WarmWithin.mono {s s' : Store} {c : ℕ} (h : s.WarmWithin c)
    (hl : s'.warmLimit c = s.warmLimit c) (hq : ∀ x, s'.InQueue (c ||| LruStatus.warm.val) x →
      s.InQueue (c ||| LruStatus.warm.val) x) : s'.WarmWithin c := by
  rw [WarmWithin, hl]
  exact (Set.encard_le_encard hq).trans h

end Store

theorem SameData.chunkCount {s s' : Store} (h : SameData s s') (c : ℕ) :
    s'.chunkCount c = s.chunkCount c := by
  rw [Store.chunkCount, Store.chunkCount, (h.pages c).slabs, (h.pages c).perslab]

theorem SameData.warmLimit {s s' : Store} (h : SameData s s') (c : ℕ) :
    s'.warmLimit c = s.warmLimit c := by
  rw [Store.warmLimit, Store.warmLimit, h.chunkCount, h.settings]

section Walks

variable {b : Base} {s s' : Store} {v v' : View} {refs refs' : Ptr → ℕ} {c o q : ℕ}
  {curLru : LruStatus} {totalChunks : UInt64} {gone l : List Ptr}

/-- A queue that the comparison of `ItemLRUPullTail` finds within its limit. -/
theorem Inv.warmWithin (h : Inv b s v refs) (c : ℕ)
    (ho : ¬ s.isOver (c ||| LruStatus.warm.val) (UInt32.ofNat (s.chunkCount c)).toUInt64) :
    s.WarmWithin c := by
  have hlt := h.items_lt (c ||| LruStatus.warm.val)
  rw [Store.isOver, UInt64.not_lt, UInt64.le_iff_toNat_le, UInt32.toNat_toUInt64, h.queues.size,
    UInt32.toNat_ofNat_of_lt' hlt, UInt64.toNat_div, UInt64.toNat_mul, UInt32.toNat_toUInt64] at ho
  rw [Store.WarmWithin, h.encard_inQueue, Nat.cast_le]
  refine ho.trans (Nat.div_le_div_right ((Nat.mod_le _ _).trans (Nat.mul_le_mul_right _ ?_)))
  exact Nat.mod_le _ _

/-- What is in a queue after a walk was there before, unless the walk has moved it there. -/
theorem Walked.inQueue (w : Walked o curLru totalChunks false l s v v' gone)
    (h : Inv b s v refs) (h' : Inv b s' v' refs') {x : Ptr} (hx : s'.InQueue q x)
    (hq : x ∈ gone → x ∉ v'.queue q) : s.InQueue q x := by
  obtain ⟨hxq, hxc⟩ := List.mem_filter.mp (h'.inQueue_iff.mp hx)
  have hi := w.sub x (h'.item_of_queue hxq hxc)
  have hk := (h.kept_iff h' hi).mp ((w.kept x hi).mpr fun hg => hq hg hxq)
  exact ⟨hxc, h.linked_of_mem hi, hk.2.symm.trans hx.2.2⟩

theorem Store.Unhindered.fit (u : s.Unhindered) (h : Inv b s v refs) :
    ∀ x ∈ v.items, s.heap.refcount x < 2 ^ 16 := fun x hx =>
  (u.items x (h.alloc_isChunk (h.items_alloc x hx)) (h.linked_of_mem hx)).2.2

/-- **A walk over a `WARM` or a `COLD` queue** leaves nothing behind that would hinder the next one. -/
theorem Store.Unhindered.pull (u : s.Unhindered) (h : Inv b s v refs) (o : ℕ)
    (hlru : curLru = .warm ∨ curLru = .cold) (totalChunks : UInt64) :
    ∃ v' gone, Inv b (s.itemLRUPullTail o curLru totalChunks false 0).2 v' refs ∧
      SameData s (s.itemLRUPullTail o curLru totalChunks false 0).2 ∧
      (s.itemLRUPullTail o curLru totalChunks false 0).2.Unhindered ∧
      Walked o curLru totalChunks false (v.queue (o ||| curLru.val)) s v v' gone ∧
      (s.itemLRUPullTail o curLru totalChunks false 0).1 =
        gone.length + s.idlePull o curLru totalChunks false 0 := by
  obtain ⟨v', refs', gone, h', hd, hlk, w, hn⟩ := h.itemLRUPullTail_walked u.noRepair o curLru
    totalChunks false 0 (u.fit h)
  rw [hlk.none hlru] at h'
  have hgo : LetGo s (s.itemLRUPullTail o curLru totalChunks false 0).2 := by
    unfold Store.itemLRUPullTail
    split_ifs
    · exact (SameTally.refl s).letGo
    · exact (pullLoop_letGo _ totalChunks false 0 _ _ s _ 0 u.noRepair (.inl hlru)).1
  have hbusy : (s.itemLRUPullTail o curLru totalChunks false 0).2.env.NeverBusy := by
    unfold Store.itemLRUPullTail
    split_ifs
    · exact u.neverBusy
    · exact Store.pullLoop_neverBusy _ _ _ _ _ _ _ _ _ u.neverBusy
  refine ⟨v', gone, h', hd, ⟨by rw [hd.settings]; exact u.noRepair, hgo.itemLocks.trans u.unlocked,
    hbusy, fun x hx hl => ?_⟩, w, hn⟩
  have hi' := h'.mem_of_linked hx hl
  have hi := w.sub x hi'
  obtain ⟨h1, h2, h3⟩ := u.items x hx (h.linked_of_mem hi)
  refine ⟨by rw [hd.hv]; exact h1, ?_, ?_⟩
  · -- a walk takes nothing to a `HOT` queue
    by_cases hg : x ∈ gone
    · rcases w.moved x hg hi' with ⟨-, hq⟩ | ⟨-, hq, -⟩
      · rw [h'.clsid_of_mem hq]
        exact Nat.right_le_or
      · rw [h'.clsid_of_mem hq]
        exact le_trans (by decide) Nat.right_le_or
    · rw [((h.kept_iff h' hi).mp ((w.kept x hi).mpr hg)).2]
      exact h2
  · rcases hgo.tally x with e | ⟨-, e⟩
    · exact lt_of_eq_of_lt (congrArg Prod.fst e) h3
    · rw [show (Store.flags _ x).linked = false from congrArg Prod.snd e] at hl
      cases hl

theorem Store.Unhindered.hot_idle (u : s.Unhindered) (h : Inv b s v refs)
    (hc : c < maxNumberOfSlabClasses) (totalChunks : UInt64) :
    s.itemLRUPullTail c .hot totalChunks false 0 = (0, s) := by
  refine h.itemLRUPullTail_empty (List.eq_nil_iff_forall_not_mem.mpr fun x hx => ?_) totalChunks false 0
  obtain ⟨hxc, hl, hq⟩ := h.inQueue_iff.mpr hx
  have := (u.items x hxc hl).2.1
  rw [hq, show c ||| LruStatus.hot.val = c from Nat.or_zero c] at this
  omega

/-- **A `WARM` queue over its limit is not left alone.** -/
theorem Store.Unhindered.not_isOver (u : s.Unhindered) (h : Inv b s v refs) (hc : c ≠ 0)
    (hn : (s.itemLRUPullTail c .warm totalChunks false 0).1 = 0) :
    ¬ s.isOver (c ||| LruStatus.warm.val) totalChunks := by
  intro ho
  have hne : itemsOf (v.queue (c ||| LruStatus.warm.val)) ≠ [] := fun e => by
    rw [Store.isOver, h.queues.size, List.countP_eq_length_filter,
      show List.filter _ _ = [] from e] at ho
    exact UInt64.not_lt_zero ho
  obtain ⟨x, hx⟩ : ∃ x, (itemsOf (v.queue (c ||| LruStatus.warm.val))).getLast? = some x :=
    ⟨_, List.getLast?_eq_some_getLast hne⟩
  obtain ⟨hxq, hxc⟩ := List.mem_filter.mp (List.mem_of_getLast? hx)
  have hxi := h.item_of_queue hxq hxc
  obtain ⟨hhv, -⟩ := u.items x hxc (h.linked_of_mem hxi)
  have htry : (s.tryLock (s.hv x)).1 ≠ none :=
    Store.tryLock_ne_none_iff.mpr ⟨u.neverBusy 0, by rw [u.unlocked]; exact List.not_mem_nil⟩
  by_cases hr : s.isReclaimable x
  · have hfate : s.fate (c ||| LruStatus.warm.val) .warm totalChunks false 0 x = .dropped := by
      rw [Store.fate, if_pos (h.getsLock_of_item hxi hhv htry), Store.lockedFate, if_pos hr]
    obtain ⟨v', gone, h', -, -, w, hcount⟩ := u.pull h c (.inl rfl) totalChunks
    have hg : x ∈ gone := by
      by_contra hg
      exact h.walk_drops u.noRepair (u.fit h) (.inl rfl) hc hx hfate h'
        ((h.kept_iff h' hxi).mp ((w.kept x hxi).mpr hg)).1
    have := List.length_pos_of_mem hg
    omega
  · obtain ⟨-, -, h1, -⟩ := h.warm_moves u.noRepair hc hx ho ⟨hhv, htry, hr⟩
      (h.refs_le (u.fit h) hxq) false
    omega

/-! ## A class -/

/-- What juggling class `c` for some rounds has done: the other classes have not gained anything in their
`WARM` queues, and the one of the class is within its limit, if not all rounds were spent. -/
structure Juggled (b : Base) (refs : Ptr → ℕ) (c rounds : ℕ) (s : Store) (r : ℕ × Store) : Prop where
  inv : ∃ v', Inv b r.2 v' refs
  data : SameData s r.2
  unhindered : r.2.Unhindered
  others : ∀ c' < maxNumberOfSlabClasses, c' ≠ c → ∀ x,
    r.2.InQueue (c' ||| LruStatus.warm.val) x → s.InQueue (c' ||| LruStatus.warm.val) x
  served : r.1 = rounds ∨ r.2.WarmWithin c

theorem Walked.others (w : Walked c curLru totalChunks false (v.queue (c ||| curLru.val)) s v v' gone)
    (h : Inv b s v refs) (h' : Inv b s' v' refs') (hc : c < maxNumberOfSlabClasses) {c' : ℕ}
    (hc' : c' < maxNumberOfSlabClasses) (hne : c' ≠ c) {x : Ptr}
    (hx : s'.InQueue (c' ||| LruStatus.warm.val) x) : s.InQueue (c' ||| LruStatus.warm.val) x := by
  have hcl : ∀ c < maxNumberOfSlabClasses, ∀ st : LruStatus, clearLru (c ||| st.val) = c :=
    fun c hc st => by
      have := (clearLru_or c st).1
      rwa [show clearLru c = c from Nat.mod_eq_of_lt hc] at this
  refine w.inQueue h h' hx fun hg hq => hne ?_
  -- where it is now is a queue of its class, and where it was too
  have hcls : ∀ st, s.sibling x st = c ||| st.val := fun st => by
    rw [Store.sibling, h.clsid_of_mem (w.mem x hg).1, hcl c hc]
  rcases w.moved x hg (h'.item_of_queue hq hx.1) with ⟨-, hm⟩ | ⟨-, hm, -⟩ <;>
  · rw [hcls] at hm
    have := congrArg clearLru (h'.queues.disjoint _ _ x hq hm)
    rwa [hcl c hc, hcl c' hc'] at this

/-- A round that finds nothing in the `HOT` queue. -/
theorem Store.juggleLoop_succ (hhot : s.itemLRUPullTail c .hot totalChunks false 0 = (0, s))
    (fuel n : ℕ) : Store.juggleLoop c totalChunks (fuel + 1) s n =
      let r₁ := s.itemLRUPullTail c .warm totalChunks false 0
      let r₂ := r₁.2.itemLRUPullTail c .cold totalChunks false 0
      if (if r₁.1 ≠ 0 then 1 else 0) + r₂.1 = 0 then (n, r₂.2)
      else Store.juggleLoop c totalChunks fuel r₂.2 (n + 1) := by
  rw [Store.juggleLoop, hhot]
  rfl

/-- **The loop of a juggle**, by induction on the rounds left. -/
theorem Store.Unhindered.juggleLoop (hc0 : c ≠ 0) (hc : c < maxNumberOfSlabClasses) (fuel : ℕ) :
    ∀ (s : Store) (v : View) (n : ℕ), Inv b s v refs → s.Unhindered →
      totalChunks = (UInt32.ofNat (s.chunkCount c)).toUInt64 →
      Juggled b refs c (n + fuel) s (Store.juggleLoop c totalChunks fuel s n) := by
  induction fuel with
  | zero => exact fun s v n h u _ => ⟨⟨v, h⟩, .refl s, u, fun _ _ _ _ hx => hx, .inl rfl⟩
  | succ fuel ih =>
    intro s v n h u htc
    obtain ⟨v₁, gone₁, h₁, d₁, u₁, w₁, hn₁⟩ := u.pull h c (.inl rfl) totalChunks
    have hidle : s.idlePull c .warm totalChunks false 0 = 0 := by
      unfold Store.idlePull
      dsimp only
      rw [if_neg hc0]
      exact idleVisits_eq_zero _ totalChunks 0 (.inl (by decide)) _ _ _ _
    rw [hidle, Nat.add_zero] at hn₁
    have hover : (s.itemLRUPullTail c .warm totalChunks false 0).1 = 0 →
        ¬ s.isOver (c ||| LruStatus.warm.val) totalChunks := u.not_isOver h hc0
    rw [Store.juggleLoop_succ (u.hot_idle h hc totalChunks)]
    dsimp only
    generalize s.itemLRUPullTail c .warm totalChunks false 0 = r₁ at h₁ d₁ u₁ hn₁ hover ⊢
    obtain ⟨v₂, gone₂, h₂, d₂, u₂, w₂, hn₂⟩ := u₁.pull h₁ c (.inr rfl) totalChunks
    generalize r₁.2.itemLRUPullTail c .cold totalChunks false 0 = r₂ at h₂ d₂ u₂ hn₂ ⊢
    have d := d₁.trans d₂
    have hothers : ∀ c' < maxNumberOfSlabClasses, c' ≠ c → ∀ x,
        r₂.2.InQueue (c' ||| LruStatus.warm.val) x → s.InQueue (c' ||| LruStatus.warm.val) x :=
      fun c' hc' hne x hx => w₁.others h h₁ hc hc' hne (w₂.others h₁ h₂ hc hc' hne hx)
    by_cases hstop : (if r₁.1 ≠ 0 then 1 else 0) + r₂.1 = 0
    · rw [if_pos hstop]
      have h0 : r₁.1 = 0 := by
        by_contra hne
        rw [if_pos hne] at hstop
        omega
      have hg₁ : gone₁ = [] := List.length_eq_zero_iff.mp (by omega)
      have hg₂ : gone₂ = [] := List.length_eq_zero_iff.mp (by omega)
      refine ⟨⟨v₂, h₂⟩, d, u₂, hothers, .inr ?_⟩
      refine (h.warmWithin c (htc ▸ hover h0)).mono (d.warmLimit c) fun x hx => ?_
      exact w₁.inQueue h h₁ (w₂.inQueue h₁ h₂ hx fun hg => by rw [hg₂] at hg; cases hg)
        fun hg => by rw [hg₁] at hg; cases hg
    · rw [if_neg hstop]
      have j := ih r₂.2 v₂ (n + 1) h₂ u₂ (by rw [d.chunkCount]; exact htc)
      refine ⟨j.inv, d.trans j.data, j.unhindered,
        fun c' hc' hne x hx => hothers c' hc' hne x (j.others c' hc' hne x hx), ?_⟩
      rw [show n + (fuel + 1) = n + 1 + fuel by omega]
      exact j.served

/-- **A juggle** that nothing hinders serves its class. -/
theorem Store.Unhindered.juggle (u : s.Unhindered) (h : Inv b s v refs) (hc0 : c ≠ 0)
    (hc : c < maxNumberOfSlabClasses) (hez : s.settings.expirezeroDoesNotEvict = false) :
    Juggled b refs c Store.juggleRounds s
      (s.lruMaintainerJuggle c (s.slabsAvailableChunks c).2.2) := by
  have j := Store.Unhindered.juggleLoop hc0 hc Store.juggleRounds s v 0 h u rfl
  rw [Nat.zero_add] at j
  rw [Store.lruMaintainerJuggle, Store.chunkBudget, hez]
  exact j

/-- **One class after the other.** -/
theorem Store.Unhindered.juggleClasses (ids : List ℕ) : ∀ (s : Store) (v : View), Inv b s v refs →
    s.Unhindered → s.settings.expirezeroDoesNotEvict = false → ids.Nodup →
    (∀ c ∈ ids, c ≠ 0 ∧ c < maxNumberOfSlabClasses) →
    SameData s (Store.juggleClasses ids s).2 ∧
    (∀ c < maxNumberOfSlabClasses, c ∉ ids → ∀ x,
      (Store.juggleClasses ids s).2.InQueue (c ||| LruStatus.warm.val) x →
        s.InQueue (c ||| LruStatus.warm.val) x) ∧
    ∀ c ∈ ids, (Store.juggleClasses ids s).2.WarmWithin c ∨
      (c, Store.juggleRounds) ∈ (Store.juggleClasses ids s).1 := by
  induction ids with
  | nil => exact fun s v _ _ _ _ _ => ⟨.refl s, fun _ _ _ _ hx => hx, fun c hc => by cases hc⟩
  | cons id ids ih =>
    intro s v h u hez hnd hids
    obtain ⟨hid0, hid⟩ := hids id List.mem_cons_self
    rw [List.nodup_cons] at hnd
    have j := u.juggle h hid0 hid hez
    obtain ⟨v₁, h₁⟩ := j.inv
    obtain ⟨hd, hothers, hserved⟩ := ih _ v₁ h₁ j.unhindered (by rw [j.data.settings]; exact hez)
      hnd.2 fun c hc => hids c (List.mem_cons_of_mem _ hc)
    refine ⟨j.data.trans hd, fun c hc hne x hx => ?_, fun c hc => ?_⟩
    · rw [List.mem_cons, not_or] at hne
      exact j.others c hc hne.1 x (hothers c hc hne.2 x hx)
    · rcases List.mem_cons.mp hc with rfl | hc
      · -- the juggles that follow are of other classes
        refine j.served.symm.imp (fun hw => ?_) fun e => ?_
        · exact hw.mono (hd.warmLimit c) (hothers c hid hnd.1)
        · rw [Store.juggleClasses, ← e]
          exact List.mem_cons_self
      · exact (hserved c hc).imp (fun e => e) (List.mem_cons_of_mem _)

end Walks

/-! ## The pass -/

theorem Inv.Crawls.warmWithin {s s' : Store} (h : Inv.Crawls s s') (c : ℕ) :
    s'.WarmWithin c ↔ s.WarmWithin c := by
  have hq : {x | s'.InQueue (c ||| LruStatus.warm.val) x} =
      {x | s.InQueue (c ||| LruStatus.warm.val) x} := by
    refine Set.ext fun x => ?_
    show s'.InQueue _ x ↔ s.InQueue _ x
    cases x with
    | chunk a => simp only [Store.InQueue, Store.flags, (h.same a).itFlags, (h.same a).slabsClsid]
    | crawler q => simp [Store.InQueue, Ptr.isChunk]
  rw [Store.WarmWithin, Store.WarmWithin, hq, Store.warmLimit, Store.warmLimit, Store.chunkCount,
    Store.chunkCount, h.slabs, h.globals.settings]

namespace Recrawl

theorem kick_crawls (r : Recrawl) (id : ℕ) (got : Bool) : Inv.Crawls r.store (r.kick id got).store := by
  unfold Recrawl.kick
  split_ifs
  · exact Inv.doLRUCrawlerStart_crawls r.store id 0
  · exact Inv.doLRUCrawlerStart_crawls r.store id 0
  · exact .refl _

theorem check_store (r : Recrawl) (id : ℕ) : (r.check id).store = r.store := by
  dsimp only [Recrawl.check]
  split_ifs <;> rfl

/-- The check for crawlers leaves the items alone. -/
theorem crawlerCheck_crawls (r : Recrawl) (got : ℕ → Bool) :
    Inv.Crawls r.store (r.crawlerCheck got).store := by
  unfold Recrawl.crawlerCheck
  generalize slabClasses = ids
  induction ids generalizing r with
  | nil => exact .refl _
  | cons id ids ih =>
    refine (r.kick_crawls id (got id)).trans ?_
    rw [← (r.kick id (got id)).check_store id]
    exact ih _

end Recrawl

namespace Maintainer

/-- `Run` starts with nothing to do at once, which `lru_clsid_` is for. -/
def start (s : Store) (lruCrawler : Bool) : Maintainer where
  recrawl := ⟨s, fun _ => 0, fun _ => 0, fun _ => []⟩
  lruClsid := false
  toSleep := minSleep
  lastCrawlerCheck := 0
  lruCrawler := lruCrawler
  juggles := 0

/-- The store at the end of a pass: what the juggles have left, with crawlers started. -/
theorem pass_crawls (m : Maintainer) (got : ℕ → Bool) :
    (m.pass got).1 = (Store.juggleClasses m.classes m.recrawl.store).1 ∧
      Inv.Crawls (Store.juggleClasses m.classes m.recrawl.store).2 (m.pass got).2.recrawl.store ∧
      (m.pass got).2.lruClsid = m.lruClsid := by
  have hid : (if !m.lruClsid then false else m.lruClsid) = m.lruClsid := by cases m.lruClsid <;> rfl
  unfold pass
  generalize Store.juggleClasses m.classes m.recrawl.store = r
  dsimp only
  by_cases hcheck : m.lruCrawler = true ∧ m.lastCrawlerCheck ≠ r.2.now
  · rw [if_pos hcheck]
    have hc := Recrawl.crawlerCheck_crawls { m.recrawl with store := r.2 } got
    exact ⟨rfl, hc, hid⟩
  · rw [if_neg hcheck]
    exact ⟨rfl, .refl _, hid⟩

end Maintainer

/-- **A pass serves every class** if `lru_clsid_` is set and nothing hinders the walks. It keeps
`lru_clsid_` as it is, which is not set at the start; and then it leaves every `WARM` queue as it is, so
that those over the limit stay so. -/
theorem pass_serves {w : World} (hw : Reach World.Init WorldStep w) {m : Maintainer}
    (hm : m.recrawl.store = w.store) (hez : w.store.settings.expirezeroDoesNotEvict = false)
    (got : ℕ → Bool) :
    let r := m.pass got
    r.2.lruClsid = m.lruClsid ∧
    (m.lruClsid = false → r.1 = [(0, 0)] ∧
      ∀ c, r.2.recrawl.store.WarmWithin c ↔ w.store.WarmWithin c) ∧
    (m.lruClsid = true → w.store.Unhindered → ∀ c, powerSmallest ≤ c → c < maxNumberOfSlabClasses →
      r.2.recrawl.store.WarmWithin c ∨ (c, 1000) ∈ r.1) := by
  intro r
  obtain ⟨hlog, hcrawl, hid⟩ := m.pass_crawls got
  refine ⟨hid, fun hfalse => ?_, fun htrue hu c hc0 hc => ?_⟩
  · have hj : Store.juggleClasses m.classes m.recrawl.store = ([(0, 0)], w.store) := by
      rw [Maintainer.classes, hfalse, hm]
      rfl
    rw [hj] at hlog hcrawl
    exact ⟨hlog, hcrawl.warmWithin⟩
  · obtain ⟨refs, ht⟩ := tracked_of_reach hw
    obtain ⟨v, hv⟩ := ht.inv
    have hcls : m.classes = slabClasses := by rw [Maintainer.classes, htrue]; rfl
    have hids : ∀ c ∈ slabClasses, c ≠ 0 ∧ c < maxNumberOfSlabClasses := by decide
    obtain ⟨-, -, hserved⟩ := Store.Unhindered.juggleClasses slabClasses w.store v hv hu hez (by decide)
      hids
    rw [hcls, hm] at hlog hcrawl
    have hmem : c ∈ slabClasses := by
      rw [slabClasses, List.mem_range'_1]
      exact ⟨hc0, hc⟩
    refine (hserved c hmem).imp (hcrawl.warmWithin c).mpr fun e => ?_
    rw [hlog]
    exact e

theorem World.Only.eq_of_linked {w : World} {x y : Ptr} (h : w.Only x)
    (hw : Reach World.Init WorldStep w) (hy : y.isChunk = true) (hl : (w.store.flags y).linked = true) :
    y = x := by
  obtain ⟨refs, ht⟩ := tracked_of_reach hw
  obtain ⟨v, hv⟩ := ht.inv
  exact eq_of_isLive h.1 ((hv.live y).mpr (hv.items_alloc y (hv.mem_of_linked hy hl)))

/-- As in `warmOps`, a value goes from the `COLD` queue to the `WARM` one; its hash value is 1. -/
def oddWarm : World := oddWorld.run (.tick 10 :: putOps (.byte 97) 0 0 [118, 13, 10] 0 .set (.chunk 4192) ++
  [.get (.byte 97), .maintainer true, .pull 1 .cold 0 false 0])

/-- With `lru_clsid_` set, the item of the `WARM` queue, which has no room for one, is taken out, or the
rounds are spent. -/
theorem pass_serves_odd :
    let m := { Maintainer.start oddWarm.store false with lruClsid := true }
    oddWarm.store.InQueue 65 (.chunk 4192) ∧ oddWarm.store.warmLimit 1 = 0 ∧
      ((m.pass fun _ => true).2.recrawl.store.WarmWithin 1 ∨ (1, 1000) ∈ (m.pass fun _ => true).1) := by
  intro m
  have hr : Reach World.Init WorldStep oddWarm :=
    (reach_plays (.chunk 4192) _ oddWorld_init (by decide +kernel)).1
  have honly : oddWarm.Only (.chunk 4192) := by decide +kernel
  have hu : oddWarm.store.Unhindered := by
    refine ⟨by decide +kernel, by decide +kernel, fun n => rfl, fun x hx hl => ?_⟩
    rw [honly.eq_of_linked hr hx hl]
    decide +kernel
  exact ⟨by decide +kernel, by decide +kernel,
    (pass_serves hr (m := m) rfl (by decide +kernel) fun _ => true).2.2 rfl hu 1 (by decide) (by decide)⟩

/-- **No class is served**: `lru_clsid_` is not set, and the item of the `WARM` queue, which has no room
for one, stays there. -/
theorem pass_idle :
    let w := smallWorld.run warmOps
    let r := (Maintainer.start w.store false).pass fun _ => true
    Reach World.Init WorldStep w ∧ w.store.settings.lruMaintainerThread = true ∧
      w.store.settings.expirezeroDoesNotEvict = false ∧ r.1 = [(0, 0)] ∧
      ¬ r.2.recrawl.store.WarmWithin 1 := by
  have hr := (reach_plays (.chunk 4192) warmOps smallWorld_init (by decide)).1
  refine ⟨hr, by decide, by decide, rfl, fun h => ?_⟩
  have h' : (smallWorld.run warmOps).store.WarmWithin 1 := h
  rw [Store.WarmWithin, encard_of_reach hr, Nat.cast_le] at h'
  exact absurd h' (by decide +kernel)

end Mdb
