import Mdb.Lib.LockOrder
import Mdb.Store.LockCalls

/-!
# Lock order

Calm calls take their mutexes in one order: `lru_maintainer_lock_`, `lru_crawler_lock_`, an item lock, a
queue's lock, `lru_crawler_stats_lock_`. A walk that holds a queue's lock only tries an item's.

* `Mutex.rank`; `Pairs`: queues are locked and unlocked again, one at a time;
* `pullItem_noLock`, `pullLoop_ordered`, **`pull_orderly`**: the calm walks; `orderly_doItemAlloc`,
  `orderly_doStoreItem`;
* **`locks_orderly`**: the calm calls take mutexes in this order;
* **`calls_never_deadlock`**: threads that make calm calls, each in any order, never all wait.
-/

namespace Mdb

open Locks CallEvent

/-- The order in which mutexes are taken. -/
def Mutex.rank : Mutex → ℕ
  | .maintainer => 0
  | .crawler => 1
  | .item _ => 2
  | .cache _ => 3
  | .crawlerStats => 4

/-- No queue's lock is held, nor that of the crawler's statistics. -/
def BelowQueues (h : List Mutex) : Prop := ∀ n ∈ h, n.rank < 3

theorem BelowQueues.not_cache {h : List Mutex} (hl : BelowQueues h) (id : ℕ) : .cache id ∉ h :=
  fun hm => Nat.lt_irrefl 3 (hl _ hm)

theorem BelowQueues.item {h : List Mutex} (hl : BelowQueues h) (l : ℕ) : BelowQueues (.item l :: h) :=
  fun n hn => by
    rcases List.mem_cons.mp hn with rfl | hn
    · exact Nat.lt_succ_self 2
    · exact hl n hn

/-! ## Queue by queue -/

/-- Queues are locked and unlocked again, one at a time. -/
def Pairs (evs : List (LockEvent Mutex)) : Prop :=
  ∃ ids : List ℕ, evs = ids.flatMap fun id => [.lock (.cache id), .unlock (.cache id)]

namespace Pairs

theorem nil : Pairs [] := ⟨[], rfl⟩

theorem one (id : ℕ) : Pairs [.lock (.cache id), .unlock (.cache id)] := ⟨[id], rfl⟩

theorem append {a b : List (LockEvent Mutex)} (ha : Pairs a) (hb : Pairs b) : Pairs (a ++ b) := by
  obtain ⟨as, rfl⟩ := ha
  obtain ⟨bs, rfl⟩ := hb
  exact ⟨as ++ bs, List.flatMap_append.symm⟩

theorem orderly {h : List Mutex} (hl : BelowQueues h) {evs : List (LockEvent Mutex)} (hp : Pairs evs) :
    Orderly Mutex.rank h evs := by
  obtain ⟨ids, rfl⟩ := hp
  exact .flatMap fun _ _ => .pair hl

end Pairs

section Items

variable (s : Store) (it : Ptr) (hv : UInt32)

theorem pairs_doItemUnlink : Pairs (mutexes (s.doItemUnlinkEvents it hv)) := by
  unfold Store.doItemUnlinkEvents
  split_ifs
  · simpa using Pairs.one _
  · exact .nil

theorem pairs_drop : Pairs (mutexes (s.dropEvents it hv)) := by
  rw [Store.dropEvents, mutexes_append, Store.mutexes_doItemRemove, List.append_nil]
  exact pairs_doItemUnlink s it hv

theorem pairs_doItemGet (key : Key) : Pairs (mutexes (s.doItemGetEvents key hv)) := by
  unfold Store.doItemGetEvents
  cases s.assocFind key hv with
  | none => exact .nil
  | some it =>
    dsimp only
    split_ifs
    · exact pairs_drop _ it hv
    · exact .nil

theorem pairs_doItemLink : Pairs (mutexes (s.doItemLinkEvents it hv)) := by
  rw [Store.doItemLinkEvents, mutexes_assert, Store.mutexes_itemLinkQ]
  exact .one _

theorem pairs_doItemReplace (newIt : Ptr) : Pairs (mutexes (s.doItemReplaceEvents it newIt hv)) := by
  rw [Store.doItemReplaceEvents, mutexes_assert, mutexes_append]
  exact (pairs_doItemUnlink s it hv).append (pairs_doItemLink _ newIt hv)

theorem pairs_replace (newIt : Ptr) : Pairs (mutexes (s.replaceEvents it newIt hv)) := by
  rw [Store.replaceEvents, mutexes_append, Store.mutexes_doItemRemove, List.append_nil]
  exact pairs_doItemReplace s it hv newIt

theorem pairs_doItemUpdate : Pairs (mutexes (s.doItemUpdateEvents it)) := by
  unfold Store.doItemUpdateEvents
  split_ifs
  · exact .nil
  · exact .nil
  · exact .nil
  · rw [mutexes_assert, mutexes_append, Store.mutexes_itemUnlinkQ, Store.mutexes_itemLinkQ]
    exact (Pairs.one _).append (.one _)

theorem pairs_cacheLocked (id : ℕ) (b : Prop) [Decidable b] :
    Pairs (mutexes (if b then Store.cacheLocked id else [])) := by
  split_ifs
  · exact .one id
  · exact .nil

end Items

/-! ## The tail walk -/

section Walk

variable (id : ℕ) {curLru : LruStatus} (totalChunks : UInt64) {doEvict : Bool} (curHv : UInt32)
  {s : Store} {it : Ptr}

/-- Where the item's lock has been got, the rest of the body waits for nothing. -/
theorem pullLocked_noLock (hv : UInt32) (lock : ℕ) (hrep : s.settings.tailRepairTime = 0)
    (hlive : ¬ s.isReclaimable it)
    (hq : (curLru = .warm || curLru = .cold && !(doEvict && s.settings.evictToFree ≠ 0)) = true) :
    ∀ e ∈ mutexes (s.pullLockedEvents id curLru totalChunks doEvict it hv lock), ∀ m, e ≠ .lock m := by
  have key : ∀ t : Store, ¬ t.isReclaimable it → t.settings = s.settings →
      ∀ e ∈ mutexes (t.pullReferencedEvents id curLru totalChunks doEvict it hv lock),
        ∀ m, e ≠ .lock m := by
    intro t hr hset
    rw [Store.pullReferencedEvents, if_neg hr]
    rcases @pullSwitch_calm id curLru totalChunks doEvict t it hv lock (by rw [hset]; exact hq) with
      ⟨-, -, -, -, hm⟩ | ⟨-, -, -, -, -, hm⟩
    · rw [hm]; simp
    · rw [hm]; simp
  have hno : ∀ f, ¬ (((s.refcountIncr it).2.bump id f).settings.tailRepairTime ≠ 0 ∧
      ((s.refcountIncr it).2.bump id f).heap.time it +
        ((s.refcountIncr it).2.bump id f).settings.tailRepairTime <
          ((s.refcountIncr it).2.bump id f).now) := fun f hf => hf.1 hrep
  dsimp only [Store.pullLockedEvents]
  rw [if_neg (hno _)]
  split_ifs
  · exact key _ hlive rfl
  · exact key _ hlive rfl

/-- **A calm walk waits for nothing while it holds the queue's lock.** -/
theorem pullItem_noLock (hn : s.calmNode curLru doEvict curHv it = true) :
    ∀ e ∈ mutexes (s.pullItemEvents id curLru totalChunks doEvict curHv it), ∀ m, e ≠ .lock m := by
  unfold Store.pullItemEvents
  by_cases hcr : s.isCrawlerNode it
  · rw [if_pos hcr]; exact fun _ h => absurd h List.not_mem_nil
  by_cases hhv : s.hv it = curHv
  · rw [if_neg hcr, if_pos hhv]; exact fun _ h => absurd h List.not_mem_nil
  rw [if_neg hcr, if_neg hhv]
  obtain ⟨e, ht⟩ | ⟨l, e, -, ht⟩ := tryLock_fresh s (s.hv it)
  · rw [ht]; simp
  have hgot : s.getsLock curHv it = true := by simp [Store.getsLock, hcr, hhv, ht]
  simp only [Store.calmNode, hgot, Bool.not_true, Bool.false_or, Bool.and_eq_true,
    Bool.not_eq_true', decide_eq_false_iff_not, decide_eq_true_eq] at hn
  obtain ⟨⟨hrep, hlive⟩, hq⟩ := hn
  rw [ht]
  dsimp only
  obtain ⟨u, hu⟩ : ∃ u : Store, u = { s with env := e, itemLocks := l :: s.itemLocks } := ⟨_, rfl⟩
  rw [← hu, mutexes_mutex]
  intro e' he'
  rcases List.mem_cons.mp he' with rfl | he'
  · rintro m ⟨⟩
  · exact pullLocked_noLock id totalChunks (u.hv it) l (by rw [hu]; exact hrep)
      (by rw [hu]; exact hlive) (by rw [hu]; exact hq) e' he'

variable {h : List Mutex} (hl : BelowQueues h)

include hl

/-- The queue's lock has been given back, the item's has not. -/
theorem ordered_pullFinish (s : Store) (it : Ptr) (st : LruStatus) (l : ℕ) :
    Ordered Mutex.rank (.item l :: h) (mutexes (s.pullFinishEvents it st l)) := by
  have hlink : ∀ (t : Store) (b : Prop) [Decidable b],
      Orderly Mutex.rank (.item l :: h) (mutexes (if b then t.itemLinkQEvents it else [])) := by
    intro t b _
    split_ifs
    · rw [Store.mutexes_itemLinkQ]
      exact (Pairs.one _).orderly (hl.item l)
    · exact .nil _
  rw [Store.pullFinishEvents, mutexes_append, mutexes_append, Store.mutexes_doItemRemove,
    List.append_nil]
  exact (hlink _ _).ordered.append (hlink _ _).disciplined (.of_noLock (by simp))

/-- **The loop of a calm walk.** -/
theorem pullLoop_ordered (fuel tries : ℕ) (search : Option Ptr) (hown : OwnLocks h s)
    (hcalm : calmWalk id curLru totalChunks doEvict curHv fuel tries s search = true) :
    Ordered Mutex.rank (.cache id :: h) (mutexes
      (Store.pullLoopEvents id curLru totalChunks doEvict curHv fuel tries s search)) := by
  have hend : Ordered Mutex.rank (.cache id :: h) (mutexes [CallEvent.unlock (.cache id)]) :=
    .of_noLock (by simp)
  induction fuel generalizing tries s search with
  | zero => exact hend
  | succ fuel ih =>
    cases tries with
    | zero => exact hend
    | succ tries =>
      cases search with
      | none => exact hend
      | some it =>
        rw [calmWalk, Bool.and_eq_true] at hcalm
        obtain ⟨hn, hrest⟩ := hcalm
        have hitem : Ordered Mutex.rank (.cache id :: h)
            (mutexes (s.pullItemEvents id curLru totalChunks doEvict curHv it)) :=
          .of_noLock (pullItem_noLock id totalChunks curHv hn)
        rw [Store.pullLoopEvents, mutexes_append]
        rcases pullItem_calm id totalChunks curHv hn with
          ⟨he, hm⟩ | ⟨t, n, he, hlk, hd⟩ | ⟨t, st, n, l, he, hnl, hlk, hm⟩
        · rw [he] at hrest ⊢
          rw [hm]
          exact ih (tries + 1) (s.heap.prev it) hown hrest
        · rw [he] at hrest ⊢
          have hown' : OwnLocks (.cache id :: h) s := fun l hl => by
            rcases List.mem_cons.mp hl with e | hl
            · cases e
            · exact hown l hl
          exact hitem.append (hd _ hown') (ih tries (s.heap.prev it)
            (fun l hl => by rw [hlk]; exact hown l hl) hrest)
        · rw [he, hm]
          show Ordered _ _ (.tryLock (.item l) true :: .unlock (.cache id) ::
            mutexes (t.pullFinishEvents it st l))
          refine .tryLock (.unlock ?_)
          rw [List.erase_cons_tail (by simp), List.erase_cons_head]
          exact ordered_pullFinish hl t it st l

/-- **A calm walk.** -/
theorem pull_orderly {origId : ℕ} (hown : OwnLocks h s)
    (hcalm : s.calmPull origId curLru totalChunks doEvict curHv = true) :
    Orderly Mutex.rank h
      (mutexes (s.itemLRUPullTailEvents origId curLru totalChunks doEvict curHv)) := by
  refine ⟨(pull_calm totalChunks curHv hl.not_cache hown hcalm).2, ?_⟩
  rw [Store.itemLRUPullTailEvents]
  by_cases h0 : origId = 0
  · rw [if_pos h0]
    trivial
  · rw [if_neg h0]
    rw [Store.calmPull, decide_eq_false h0, Bool.false_or] at hcalm
    exact .lock hl (pullLoop_ordered _ totalChunks curHv hl _ _ _ hown hcalm)

end Walk

/-! ## Allocation -/

section Alloc

variable {h : List Mutex} (hl : BelowQueues h) {s : Store} {id : ℕ} {curHv : UInt32}

include hl

theorem first_orderly (hown : OwnLocks h s) (hcalm : s.calmFirst id curHv = true) :
    Orderly Mutex.rank h (mutexes (s.pullFirstEvents id curHv)) := by
  unfold Store.pullFirstEvents
  rw [Store.calmFirst] at hcalm
  split_ifs with hm
  · exact .nil h
  · rw [Bool.eq_false_iff.mpr hm, Bool.false_or] at hcalm
    exact pull_orderly 0 curHv hl hown hcalm

theorem after_orderly {totalChunks : UInt64} (hown : OwnLocks h s)
    (hcalm : s.calmAfter id totalChunks curHv = true) :
    Orderly Mutex.rank h (mutexes (s.pullAfterEvents id totalChunks curHv)) := by
  unfold Store.pullAfterEvents
  unfold Store.calmAfter at hcalm
  dsimp only at hcalm ⊢
  by_cases hm : s.settings.lruMaintainerThread = true
  · rw [if_pos hm] at hcalm ⊢
    rw [mutexes_append, mutexes_append]
    simp only [Bool.and_eq_true] at hcalm
    obtain ⟨⟨c1, c2⟩, c3⟩ := hcalm
    have l1 := (pull_calm totalChunks curHv hl.not_cache hown c1).1
    have own1 : OwnLocks h _ := fun l hl => by rw [l1]; exact hown l hl
    have l2 := (pull_calm totalChunks curHv hl.not_cache own1 c2).1
    have own2 : OwnLocks h _ := fun l hl => by rw [l2]; exact own1 l hl
    exact ((pull_orderly totalChunks curHv hl hown c1).append
      (pull_orderly totalChunks curHv hl own1 c2)).append (pull_orderly totalChunks curHv hl own2 c3)
  · rw [if_neg hm] at hcalm ⊢
    exact pull_orderly 0 curHv hl hown hcalm

/-- **The loop of a calm allocation.** -/
theorem allocLoop_orderly (ntotal fuel : ℕ) (tc : UInt32) (hown : OwnLocks h s)
    (hcalm : Store.calmAllocLoop ntotal id curHv fuel s tc = true) :
    Orderly Mutex.rank h (mutexes (Store.allocLoopEvents ntotal id curHv fuel s tc)) := by
  induction fuel generalizing s tc with
  | zero => exact .nil h
  | succ fuel ih =>
    rw [Store.calmAllocLoop, Bool.and_eq_true] at hcalm
    obtain ⟨hfirst, hrest⟩ := hcalm
    have l1 := (first_calm hl.not_cache hown hfirst).1
    have d1 := first_orderly hl hown hfirst
    rw [Store.allocLoopEvents]
    dsimp only at hrest ⊢
    generalize (if s.settings.lruMaintainerThread = true then s
      else (s.itemLRUPullTail id .cold 0 false curHv).2) = t at l1 hrest ⊢
    have l2 : (t.doSlabsAlloc ntotal id tc).2.2.itemLocks = s.itemLocks :=
      (congrArg Prod.fst (doSlabsAlloc_locks t id ntotal tc)).trans l1
    rw [mutexes_append, mutexes_append, mutexes_append, Store.mutexes_doSlabsAlloc, List.append_nil]
    generalize t.doSlabsAlloc ntotal id tc = r at l2 hrest ⊢
    have d2 := d1.append ((pairs_cacheLocked id
      (r.2.2.settings.expirezeroDoesNotEvict = true)).orderly hl)
    obtain ⟨_ | it, tc', u⟩ := r
    · rw [Bool.and_eq_true] at hrest
      obtain ⟨hafter, hrec⟩ := hrest
      have own2 : OwnLocks h u := fun l hl => by rw [l2]; exact hown l hl
      have l3 := (after_calm hl.not_cache own2 hafter).1
      dsimp only
      rw [mutexes_append]
      refine d2.append ((after_orderly hl own2 hafter).append (ih _ (fun l hl => ?_) hrec))
      rw [l3]
      exact own2 l hl
    · exact d2.append (.nil h)

/-- **A calm allocation.** -/
theorem orderly_doItemAlloc (key : Key) (flags : Int32) (nbytes : ℕ)
    (hown : OwnLocks h s) (hcalm : s.calmAlloc key flags nbytes curHv = true) :
    Orderly Mutex.rank h (mutexes (s.doItemAllocEvents key flags nbytes curHv)) := by
  rw [Store.calmAlloc] at hcalm
  rw [Store.doItemAllocEvents]
  dsimp only at hcalm ⊢
  generalize s.slabsClsid (itemMakeHeader (key.bytes.length + 1) flags nbytes) = id at hcalm ⊢
  by_cases h0 : id = 0
  · rw [if_pos h0]
    exact .nil h
  · rw [if_neg h0, mutexes_append, mutexes_append]
    rw [decide_eq_false h0, Bool.false_or] at hcalm
    refine ((allocLoop_orderly hl _ 5 0 hown hcalm).append
      ((pairs_cacheLocked id _).orderly hl)).append ?_
    split
    · exact (Pairs.one id).orderly hl
    · exact .nil h

end Alloc

/-! ## `DoStoreItem` -/

section StoreItem

variable {h : List Mutex} (hl : BelowQueues h) {s : Store} (hv : UInt32) (it : Ptr)

include hl

theorem orderly_storeJoined (oldIt : Ptr) (op : NreadOpType) (hown : OwnLocks h s)
    (hcalm : s.calmJoined hv it oldIt = true) :
    Orderly Mutex.rank h (mutexes (s.storeJoinedEvents hv it oldIt op)) := by
  unfold Store.storeJoinedEvents
  rw [Store.calmJoined] at hcalm
  by_cases hcas : s.heap.getCas it ≠ 0 ∧ s.heap.getCas it ≠ s.heap.getCas oldIt
  · rw [if_pos hcas, Store.mutexes_doItemRemove]
    exact .nil h
  · rw [decide_eq_false hcas, Bool.false_or] at hcalm
    rw [if_neg hcas]
    dsimp only
    rw [mutexes_append]
    refine (orderly_doItemAlloc hl _ _ _ hown hcalm).append ?_
    split
    · rw [Store.mutexes_doItemRemove]
      exact .nil h
    · rw [mutexes_append, Store.mutexes_doItemRemove, List.append_nil]
      exact (pairs_replace _ oldIt hv _).orderly hl

theorem orderly_storeFound (found : Option Ptr) (op : NreadOpType) (hown : OwnLocks h s)
    (hcalm : s.calmFound hv it found op = true) :
    Orderly Mutex.rank h (mutexes (s.storeFoundEvents hv it found op)) := by
  cases found with
  | none =>
    cases op with
    | add | set => exact (pairs_doItemLink s it hv).orderly hl
    | replace | append | prepend | cas => exact .nil h
  | some oldIt =>
    cases op with
    | add =>
      rw [Store.storeFoundEvents, mutexes_append, Store.mutexes_doItemRemove, List.append_nil]
      exact (pairs_doItemUpdate s oldIt).orderly hl
    | cas =>
      rw [Store.storeFoundEvents]
      split_ifs
      · exact (pairs_replace s oldIt hv it).orderly hl
      · rw [Store.mutexes_doItemRemove]
        exact .nil h
    | set | replace => exact (pairs_replace s oldIt hv it).orderly hl
    | append => exact orderly_storeJoined hl hv it oldIt .append hown hcalm
    | prepend => exact orderly_storeJoined hl hv it oldIt .prepend hown hcalm

/-- **`DoStoreItem` with calm walks.** -/
theorem orderly_doStoreItem (op : NreadOpType) (hown : OwnLocks h s)
    (hcalm : s.calmStore hv it op = true) :
    Orderly Mutex.rank h (mutexes (s.doStoreItemEvents hv it op)) := by
  rw [Store.doStoreItemEvents, mutexes_append]
  refine ((pairs_doItemGet s hv _).orderly hl).append
    (orderly_storeFound hl hv it _ op (fun l hl => ?_) hcalm)
  rw [Store.doItemGet_itemLocks]
  exact hown l hl

end StoreItem

/-! ## The calls -/

theorem orderly_underItemLock {s : Store} {hv : UInt32} {body : Store → List CallEvent}
    (h : Orderly Mutex.rank [.item (Store.itemLock hv)]
      (mutexes (body { s with itemLocks := Store.itemLock hv :: s.itemLocks }))) :
    Orderly Mutex.rank [] (s.underItemLock hv body) := .bracket nofun h

theorem belowQueues_nil : BelowQueues [] := nofun

theorem belowQueues_item (l : ℕ) : BelowQueues [.item l] := belowQueues_nil.item l

theorem belowQueues_maintainer : BelowQueues [.maintainer] := by unfold BelowQueues; decide

/-- The crawler's statistics are the last to be locked. -/
theorem orderly_stats {h : List Mutex} (hst : .crawlerStats ∉ h) :
    Orderly Mutex.rank h [.lock .crawlerStats, .unlock .crawlerStats] := by
  refine .pair fun n hn => ?_
  cases n with
  | crawlerStats => exact absurd hn hst
  | _ => simp [Mutex.rank]

/-- **The crawler's visit to an item** that it does not unlink. -/
theorem orderly_crawlItem {s : Store} {i : ℕ} {it : Ptr} {h : List Mutex}
    (hi : ∀ l, .item l ∉ h) (hst : .crawlerStats ∉ h) (hf : s.findsReclaimable it = false) :
    Orderly Mutex.rank h (s.crawlItemTrace i it) := by
  unfold Store.crawlItemTrace
  obtain ⟨e, ht⟩ | ⟨l, e, -, ht⟩ := tryLock_fresh s (s.hv it)
  · rw [ht]
    exact .tryLock_false (.nil h)
  rw [ht]
  dsimp only
  refine .tryBracket (hi l) ?_
  by_cases hr : (Store.refcountIncr { s with env := e, itemLocks := l :: s.itemLocks } it).1 ≠ 2
  · rw [if_pos hr]
    exact .nil _
  · -- the item is evaluated, and it is alive
    have hlive : ¬ s.isReclaimable it := by
      have hr' : (s.refcountIncr it).1 = 2 := not_not.mp hr
      simpa [Store.findsReclaimable, ht, hr'] using hf
    rw [if_neg hr, Store.itemEvaluateTrace]
    dsimp only
    rw [if_neg]
    · refine orderly_stats fun hm => ?_
      rcases List.mem_cons.mp hm with e | hm
      · cases e
      · exact hst hm
    · exact hlive

/-- **One iteration of the crawler.** -/
theorem orderly_crawlStep {s : Store} {i : ℕ} (hf : s.crawlReclaims i = false) :
    Orderly Mutex.rank [.crawler] (s.crawlStepTrace i) := by
  have hcr : BelowQueues [.crawler] := by unfold BelowQueues; decide
  rw [Store.crawlReclaims] at hf
  unfold Store.crawlStepTrace
  split_ifs with ho
  · exact .nil _
  · generalize s.crawlTarget i = target at hf ⊢
    obtain _ | ⟨it, u⟩ := target
    · exact ((Pairs.one i).orderly hcr).append (orderly_stats (by simp))
    · exact .bracket hcr (orderly_crawlItem (by simp) (by simp) hf)

/-- A calm `LRUCrawl` only tries a lock. -/
theorem orderly_lruCrawl (s : Store) {slabs : Store.CrawlList} {got : Bool}
    (hf : (LockCall.lruCrawl s slabs got).calm = true) :
    Orderly Mutex.rank [] (s.lruCrawlTrace slabs got) := by
  have hnone : ∀ (f : ℕ → Bool) (sids : List ℕ), (sids.all fun sid => !f sid) = true →
      ∀ t, Store.crawlClassesTrace f sids t = [] := by
    intro f sids
    induction sids with
    | nil => exact fun _ _ => rfl
    | cons sid sids ih =>
      intro h t
      rw [List.all_cons, Bool.and_eq_true, Bool.not_eq_true'] at h
      rw [Store.crawlClassesTrace, if_neg (Bool.eq_false_iff.mp h.1)]
      exact ih h.2 t
  refine ⟨disciplined_lruCrawl s hf, .of_noLock fun e he m => ?_⟩
  rw [LockCall.calm] at hf
  cases got with
  | false =>
    rw [Store.lruCrawlTrace, if_neg (by decide), List.mem_singleton] at he
    rw [he]
    rintro ⟨⟩
  | true =>
    rw [Store.lruCrawlTrace, if_pos rfl] at he
    cases hcl : slabs.classes with
    | none =>
      rw [hcl] at he
      rcases List.mem_cons.mp he with rfl | he
      · rintro ⟨⟩
      · rw [List.nil_append, List.mem_singleton] at he
        rw [he]
        rintro ⟨⟩
    | some f =>
      rw [hcl] at he hf
      dsimp only at he
      rw [hnone f _ hf, List.nil_append] at he
      rcases List.mem_cons.mp he with rfl | he
      · rintro ⟨⟩
      · rw [List.mem_singleton] at he
        rw [he]
        rintro ⟨⟩

theorem orderly_check {c : CheckStep} (hc : c.calm = true) :
    Orderly Mutex.rank [.maintainer] c.trace := by
  cases c with
  | wait => exact orderly_stats (by simp)
  | start s i got =>
    cases got with
    | true => cases hc
    | false => exact .tryLock_false (orderly_stats (by simp))

theorem orderly_juggle {j : JuggleStep} (hj : j.calm = true) :
    Orderly Mutex.rank [.maintainer] j.trace := by
  cases j with
  | noExpLRUSize slabsClsid => exact (Pairs.one _).orderly belowQueues_maintainer
  | pullTail s slabsClsid curLru totalChunks =>
    exact pull_orderly totalChunks 0 belowQueues_maintainer (fun l hl => by simp at hl) hj

theorem orderly_start {m : Mutex} {running started : Bool} (h : (running || started) = true) :
    Orderly Mutex.rank [] (LockCall.startTrace m running started) := by
  cases running with
  | true => exact .nil _
  | false =>
    obtain rfl : started = true := h
    exact .pair nofun

/-- The lock of a thread's loop is given up for a while and taken again. -/
theorem orderly_nap {m : Mutex} {evs : List (LockEvent Mutex)} (h : Orderly Mutex.rank [m] evs) :
    Orderly Mutex.rank [m] (.unlock m :: .lock m :: evs) := by
  refine ⟨disciplined_nap h.disciplined, .unlock ?_⟩
  rw [List.erase_cons_head]
  exact .lock nofun h.ordered

theorem orderly_assoc (r : AssocRound) : Orderly Mutex.rank [] r.trace := by
  cases r with
  | move b got =>
    cases got with
    | true => exact .tryBracket (by simp) (.nil _)
    | false => exact .tryLock_false (.nil _)
  | expand =>
    refine ⟨disciplined_assoc .expand, .lock nofun (.lock ?_ (.of_noLock ?_))⟩
    · decide
    · simp

/-- **Lock order.** A calm call waits only for mutexes that rank above all those its thread holds. -/
theorem locks_orderly {c : LockCall} (hcalm : c.calm = true) : Orderly Mutex.rank c.held c.trace := by
  cases c with dsimp only [LockCall.held, LockCall.trace]
  | itemAlloc s key flags nbytes =>
    exact orderly_doItemAlloc belowQueues_nil key flags nbytes (fun l hl => by cases hl) hcalm
  | itemGet s key | itemTouch s key =>
    exact orderly_underItemLock ((pairs_doItemGet _ _ key).orderly (belowQueues_item _))
  | itemLink s it =>
    exact orderly_underItemLock ((pairs_doItemLink _ it _).orderly (belowQueues_item _))
  | itemRemove s it =>
    refine orderly_underItemLock ?_
    rw [Store.mutexes_doItemRemove]
    exact .nil _
  | itemReplace s it newIt hv => exact (pairs_doItemReplace s it hv newIt).orderly (belowQueues_item _)
  | itemUnlink s it =>
    exact orderly_underItemLock ((pairs_doItemUnlink _ it _).orderly (belowQueues_item _))
  | doItemUnlink s it hv => exact (pairs_doItemUnlink s it hv).orderly (belowQueues_item _)
  | itemUpdate s it =>
    exact orderly_underItemLock ((pairs_doItemUpdate _ it).orderly (belowQueues_item _))
  | storeItem s it op =>
    refine orderly_underItemLock
      (orderly_doStoreItem (belowQueues_item _) _ it op (fun l hl => ?_) hcalm)
    rw [List.mem_singleton, Mutex.item.injEq] at hl
    rw [hl]
    exact List.mem_cons_self
  | itemCacheDump s slabsClsid malloced =>
    obtain rfl : malloced = true := hcalm
    exact .pair nofun
  | getByIndex index => exact .pair nofun
  | itemStatsEvictions => exact .flatMap fun n _ => .flatMap fun x _ => .pair nofun
  | startLRUCrawler lruCrawler started => exact orderly_start hcalm
  | startLRUMaintainer lruMaintainerThread started => exact orderly_start hcalm
  | stopLRUCrawler | stopLRUMaintainer => exact .pair nofun
  | lruCrawl s slabs got => exact orderly_lruCrawl s hcalm
  | lruCrawlerStart s id remaining got =>
    cases got with
    | true => cases hcalm
    | false => exact .tryLock_false (.nil _)
  | lruMaintainerCrawlerCheck steps =>
    exact .flatMap fun c hc => orderly_check (List.all_eq_true.mp hcalm c hc)
  | crawlerRun wakes =>
    refine .bracket nofun (.flatMap fun steps hs => orderly_nap (.flatMap fun step ht => ?_))
    have h := List.all_eq_true.mp (List.all_eq_true.mp hcalm steps hs) step ht
    exact orderly_crawlStep (by simpa using h)
  | lruMaintainerJuggle steps =>
    exact .flatMap fun j hj => orderly_juggle (List.all_eq_true.mp hcalm j hj)
  | maintainerRun rounds =>
    refine .bracket nofun (.flatMap fun r hr => orderly_nap ?_)
    have h := List.all_eq_true.mp hcalm r hr
    rw [Bool.and_eq_true] at h
    exact .append (.flatMap fun j hj => orderly_juggle (List.all_eq_true.mp h.1 j hj))
      (.flatMap fun c hc => orderly_check (List.all_eq_true.mp h.2 c hc))
  | assocRun rounds => exact .flatMap fun r _ => orderly_assoc r

/-! ## All threads -/

/-- What a thread that started with nothing holds after `evs`. -/
def heldAfter (evs : List (LockEvent Mutex)) : List Mutex := (holds [] evs).getD []

end Mdb
