import Mdb.Store.CrawlRefs

/-!
# Lock discipline

The mutexes are not recursive: a thread that locks one it holds waits for itself. The lemmas are about
any store and a thread that holds no queue's lock; its own item locks are among those taken.

* `CallEvent.mutexes` of the single operations: each locks a queue and unlocks it again, one at a time;
* `Store.calmNode`, `calmWalk`, `Store.calmPull`: a tail walk that gets the lock of no item that it
  unlinks, or whose lock it would keep; `pullItem_calm`, **`pullLoop_calm`**, **`pull_calm`**;
* `Store.calmAlloc`, `Store.calmStore`: the walks of `DoItemAlloc` and `DoStoreItem` are calm;
  **`disciplined_doItemAlloc`**, **`disciplined_doStoreItem`**.
-/

namespace Mdb

open Locks CallEvent Run

/-! ## The item operations -/

section Items

variable {h : List Mutex} (hc : ∀ id, .cache id ∉ h) (s : Store) (it : Ptr) (hv : UInt32)

include hc

theorem disciplined_doItemUnlink : Disciplined h (mutexes (s.doItemUnlinkEvents it hv)) := by
  unfold Store.doItemUnlinkEvents
  split_ifs
  · simpa using Disciplined.pair (hc _)
  · exact .nil h

theorem disciplined_drop : Disciplined h (mutexes (s.dropEvents it hv)) := by
  rw [Store.dropEvents, mutexes_append, Store.mutexes_doItemRemove, List.append_nil]
  exact disciplined_doItemUnlink hc s it hv

theorem disciplined_doItemGet (key : Key) : Disciplined h (mutexes (s.doItemGetEvents key hv)) := by
  unfold Store.doItemGetEvents
  cases s.assocFind key hv with
  | none => exact .nil h
  | some it =>
    dsimp only
    split_ifs
    · exact disciplined_drop hc _ it hv
    · exact .nil h

theorem disciplined_doItemLink : Disciplined h (mutexes (s.doItemLinkEvents it hv)) := by
  rw [Store.doItemLinkEvents, mutexes_assert, Store.mutexes_itemLinkQ]
  exact .pair (hc _)

theorem disciplined_doItemReplace (newIt : Ptr) :
    Disciplined h (mutexes (s.doItemReplaceEvents it newIt hv)) := by
  rw [Store.doItemReplaceEvents, mutexes_assert, mutexes_append]
  exact (disciplined_doItemUnlink hc s it hv).append (disciplined_doItemLink hc _ newIt hv)

theorem disciplined_replace (newIt : Ptr) :
    Disciplined h (mutexes (s.replaceEvents it newIt hv)) := by
  rw [Store.replaceEvents, mutexes_append, Store.mutexes_doItemRemove, List.append_nil]
  exact disciplined_doItemReplace hc s it hv newIt

theorem disciplined_doItemUpdate : Disciplined h (mutexes (s.doItemUpdateEvents it)) := by
  unfold Store.doItemUpdateEvents
  split_ifs
  · exact .nil h
  · exact .nil h
  · exact .nil h
  · rw [mutexes_assert, mutexes_append, Store.mutexes_itemUnlinkQ, Store.mutexes_itemLinkQ]
    exact .append (.pair (hc _)) (.pair (hc _))

end Items

/-! ## The tail walk -/

/-- If the walk gets the lock of `it`, there is no tail repair, the item is neither expired nor flushed,
and its queue is a `WARM` one, or a `COLD` one that nothing is evicted from. -/
def Store.calmNode (s : Store) (curLru : LruStatus) (doEvict : Bool) (curHv : UInt32) (it : Ptr) :
    Bool :=
  !s.getsLock curHv it || (s.settings.tailRepairTime = 0 && !s.isReclaimable it &&
    (curLru = .warm || curLru = .cold && !(doEvict && s.settings.evictToFree ≠ 0)))

/-- Every node of the walk is calm. -/
def calmWalk (id : ℕ) (curLru : LruStatus) (totalChunks : UInt64) (doEvict : Bool)
    (curHv : UInt32) : ℕ → ℕ → Store → Option Ptr → Bool
  | fuel + 1, tries + 1, s, some it =>
    s.calmNode curLru doEvict curHv it &&
    match s.pullItem id curLru totalChunks doEvict curHv it with
    | .skip => calmWalk id curLru totalChunks doEvict curHv fuel (tries + 1) s (s.heap.prev it)
    | .next t _ => calmWalk id curLru totalChunks doEvict curHv fuel tries t (s.heap.prev it)
    | .stop _ _ _ _ => true
  | _, _, _, _ => true

/-- A calm `ItemLRUPullTail`. -/
def Store.calmPull (s : Store) (origId : ℕ) (curLru : LruStatus) (totalChunks : UInt64)
    (doEvict : Bool) (curHv : UInt32) : Bool :=
  let id := origId ||| curLru.val
  origId = 0 || calmWalk id curLru totalChunks doEvict curHv Store.pullFuel 5 s (s.lru.tails id)

/-- The thread's own item locks are among those that are taken. -/
def OwnLocks (h : List Mutex) (s : Store) : Prop := ∀ l, .item l ∈ h → l ∈ s.itemLocks

section Walk

variable (id : ℕ) {curLru : LruStatus} (totalChunks : UInt64) {doEvict : Bool} (curHv : UInt32)
  {s : Store} {it : Ptr} (hv : UInt32) (lock : ℕ)

/-- **The `switch`** of a calm walk: the item's lock is given back here, or after the loop. -/
theorem pullSwitch_calm
    (hq : (curLru = .warm || curLru = .cold && !(doEvict && s.settings.evictToFree ≠ 0)) = true) :
    (∃ t n, s.pullSwitch id curLru totalChunks doEvict it hv lock = .next t n ∧
      t.itemLocks = s.itemLocks.erase lock ∧
      mutexes (s.pullSwitchEvents id curLru totalChunks doEvict it hv lock) =
        [.unlock (.item lock)]) ∨
    ∃ t st n, s.pullSwitch id curLru totalChunks doEvict it hv lock = .stop t st n lock ∧
      t.itemLocks = s.itemLocks ∧
      mutexes (s.pullSwitchEvents id curLru totalChunks doEvict it hv lock) = [] := by
  cases curLru with
  | hot | noexp => simp at hq
  | warm =>
    dsimp only [Store.pullSwitch, Store.pullSwitchEvents]
    split_ifs
    · exact .inr ⟨_, _, _, rfl, rfl, Store.mutexes_doItemUnlinkQ _ it⟩
    · refine .inl ⟨_, _, rfl, ?_, by simp⟩
      show (Store.doItemRemove _ it).itemLocks.erase lock = _
      rw [Store.doItemRemove_itemLocks, (SameTally.doItemUpdateNolock _ it).itemLocks]
      rfl
    · exact .inr ⟨_, _, _, rfl, rfl, rfl⟩
  | cold =>
    dsimp only [Store.pullSwitch, Store.pullSwitchEvents]
    split_ifs with h1 h2
    · exact .inr ⟨_, _, _, rfl, rfl, rfl⟩
    · simp [h1, h2] at hq
    · exact .inr ⟨_, _, _, rfl, rfl, Store.mutexes_doItemUnlinkQ _ it⟩
    · exact .inr ⟨_, _, _, rfl, rfl, rfl⟩

/-- **One node of a calm walk.** -/
theorem pullItem_calm (hn : s.calmNode curLru doEvict curHv it = true) :
    (s.pullItem id curLru totalChunks doEvict curHv it = .skip ∧
      mutexes (s.pullItemEvents id curLru totalChunks doEvict curHv it) = []) ∨
    (∃ t n, s.pullItem id curLru totalChunks doEvict curHv it = .next t n ∧
      t.itemLocks = s.itemLocks ∧ ∀ h, OwnLocks h s →
        Disciplined h (mutexes (s.pullItemEvents id curLru totalChunks doEvict curHv it))) ∨
    ∃ t st n l, s.pullItem id curLru totalChunks doEvict curHv it = .stop t st n l ∧
      l ∉ s.itemLocks ∧ t.itemLocks = l :: s.itemLocks ∧
      mutexes (s.pullItemEvents id curLru totalChunks doEvict curHv it) =
        [.tryLock (.item l) true] := by
  unfold Store.pullItem Store.pullItemEvents
  by_cases hcr : s.isCrawlerNode it
  · rw [if_pos hcr, if_pos hcr]
    exact .inl ⟨rfl, rfl⟩
  rw [if_neg hcr, if_neg hcr]
  by_cases hhv : s.hv it = curHv
  · rw [if_pos hhv, if_pos hhv]
    exact .inr (.inl ⟨s, 0, rfl, rfl, fun h _ => .nil h⟩)
  rw [if_neg hhv, if_neg hhv]
  obtain ⟨e, ht⟩ | ⟨l, e, hl, ht⟩ := tryLock_fresh s (s.hv it)
  · rw [ht]
    exact .inr (.inl ⟨_, _, rfl, rfl, fun h _ => .nil h⟩)
  -- the lock is got
  have hgot : s.getsLock curHv it = true := by simp [Store.getsLock, hcr, hhv, ht]
  simp only [Store.calmNode, hgot, Bool.not_true, Bool.false_or, Bool.and_eq_true,
    Bool.not_eq_true', decide_eq_false_iff_not, decide_eq_true_eq] at hn
  obtain ⟨⟨hrep, hlive⟩, hq⟩ := hn
  rw [ht]
  dsimp only
  obtain ⟨u, hu⟩ : ∃ u : Store, u = { s with env := e, itemLocks := l :: s.itemLocks } := ⟨_, rfl⟩
  have hul : u.itemLocks = l :: s.itemLocks := by rw [hu]
  rw [← hu]
  have key : ∀ t : Store, t.itemLocks = u.itemLocks → ¬ t.isReclaimable it →
      t.settings = s.settings →
      (∃ t' n, t.pullReferenced id curLru totalChunks doEvict it (u.hv it) l = .next t' n ∧
        t'.itemLocks = s.itemLocks ∧
        mutexes (t.pullReferencedEvents id curLru totalChunks doEvict it (u.hv it) l) =
          [.unlock (.item l)]) ∨
      ∃ t' st n, t.pullReferenced id curLru totalChunks doEvict it (u.hv it) l = .stop t' st n l ∧
        t'.itemLocks = l :: s.itemLocks ∧
        mutexes (t.pullReferencedEvents id curLru totalChunks doEvict it (u.hv it) l) = [] := by
    intro t htl hr hset
    rw [Store.pullReferenced, Store.pullReferencedEvents, if_neg hr, if_neg hr]
    have h := @pullSwitch_calm id curLru totalChunks doEvict t it (u.hv it) l
      (by rw [hset]; exact hq)
    rw [htl, hul, List.erase_cons_head] at h
    exact h
  have hlocked : (∃ t n, u.pullLocked id curLru totalChunks doEvict it (u.hv it) l = .next t n ∧
        t.itemLocks = s.itemLocks ∧
        mutexes (u.pullLockedEvents id curLru totalChunks doEvict it (u.hv it) l) =
          [.unlock (.item l)]) ∨
      ∃ t st n, u.pullLocked id curLru totalChunks doEvict it (u.hv it) l = .stop t st n l ∧
        t.itemLocks = l :: s.itemLocks ∧
        mutexes (u.pullLockedEvents id curLru totalChunks doEvict it (u.hv it) l) = [] := by
    have hno : ∀ f, ¬ (((u.refcountIncr it).2.bump id f).settings.tailRepairTime ≠ 0 ∧
        ((u.refcountIncr it).2.bump id f).heap.time it +
          ((u.refcountIncr it).2.bump id f).settings.tailRepairTime <
            ((u.refcountIncr it).2.bump id f).now) := fun f hf => hf.1 (by rw [hu]; exact hrep)
    dsimp only [Store.pullLocked, Store.pullLockedEvents]
    rw [if_neg (hno _), if_neg (hno _)]
    split_ifs
    · exact key _ rfl (by rw [hu]; exact hlive) (by rw [hu]; rfl)
    · exact key _ rfl (by rw [hu]; exact hlive) (by rw [hu]; rfl)
  rw [mutexes_mutex]
  rcases hlocked with ⟨t, n, he, hlk, hm⟩ | ⟨t, st, n, he, hlk, hm⟩
  · refine .inr (.inl ⟨t, n, he, hlk, fun h hown => ?_⟩)
    rw [hm]
    exact .tryBracket (fun hmem => hl (hown l hmem)) (.nil _)
  · refine .inr (.inr ⟨t, st, n, l, he, hl, hlk, ?_⟩)
    rw [hm]

theorem pullFinish_itemLocks (s : Store) (it : Ptr) (st : LruStatus) (l : ℕ) :
    (s.pullFinish it st l).itemLocks = s.itemLocks.erase l := by
  unfold Store.pullFinish
  show (Store.doItemRemove _ it).itemLocks.erase l = _
  rw [Store.doItemRemove_itemLocks]
  split_ifs <;> rfl

variable {h : List Mutex} (hc : ∀ id, .cache id ∉ h)

include hc

/-- The queue's lock has been given back, the item's has not. -/
theorem holds_pullFinish (s : Store) (it : Ptr) (st : LruStatus) (l : ℕ) :
    holds (.item l :: h) (mutexes (s.pullFinishEvents it st l)) = some h := by
  have hc' : ∀ id, .cache id ∉ .item l :: h := fun id hm => by
    rcases List.mem_cons.mp hm with e | hm
    · cases e
    · exact hc id hm
  have hlink : ∀ (t : Store) (b : Prop) [Decidable b],
      Disciplined (.item l :: h) (mutexes (if b then t.itemLinkQEvents it else [])) := by
    intro t b _
    split_ifs
    · rw [Store.mutexes_itemLinkQ]
      exact .pair (hc' _)
    · exact .nil _
  rw [Store.pullFinishEvents, mutexes_append, mutexes_append, Store.mutexes_doItemRemove,
    List.append_nil, holds_append (hlink _ _)]
  exact holds_unlock

/-- **The loop of a calm walk**: the queue's lock is given back, and so are the items'. -/
theorem pullLoop_calm (fuel tries : ℕ) (search : Option Ptr) (removed : ℕ) (hown : OwnLocks h s)
    (hcalm : calmWalk id curLru totalChunks doEvict curHv fuel tries s search = true) :
    (Store.pullLoop id curLru totalChunks doEvict curHv fuel tries s search removed).2.itemLocks =
      s.itemLocks ∧
    holds (.cache id :: h) (mutexes
      (Store.pullLoopEvents id curLru totalChunks doEvict curHv fuel tries s search)) = some h := by
  induction fuel generalizing tries s search removed with
  | zero => exact ⟨rfl, holds_unlock⟩
  | succ fuel ih =>
    cases tries with
    | zero => exact ⟨rfl, holds_unlock⟩
    | succ tries =>
      cases search with
      | none => exact ⟨rfl, holds_unlock⟩
      | some it =>
        rw [calmWalk, Bool.and_eq_true] at hcalm
        obtain ⟨hn, hrest⟩ := hcalm
        rw [Store.pullLoop, Store.pullLoopEvents, mutexes_append]
        rcases pullItem_calm id totalChunks curHv hn with
          ⟨he, hm⟩ | ⟨t, n, he, hlk, hd⟩ | ⟨t, st, n, l, he, hl, hlk, hm⟩
        · rw [he] at hrest ⊢
          rw [hm]
          exact ih (tries + 1) (s.heap.prev it) removed hown hrest
        · rw [he] at hrest ⊢
          have hown' : OwnLocks (.cache id :: h) s := fun l hl => by
            rcases List.mem_cons.mp hl with e | hl
            · cases e
            · exact hown l hl
          obtain ⟨ih1, ih2⟩ := ih tries (s.heap.prev it) (removed + n)
            (fun l hl => by rw [hlk]; exact hown l hl) hrest
          exact ⟨ih1.trans hlk, (holds_append (hd _ hown')).trans ih2⟩
        · rw [he, hm]
          refine ⟨?_, ?_⟩
          · show (t.pullFinish it st l).itemLocks = _
            rw [pullFinish_itemLocks, hlk, List.erase_cons_head]
          · have hl' : Mutex.item l ∉ .cache id :: h := fun hm => by
              rcases List.mem_cons.mp hm with e | hm
              · cases e
              · exact hl (hown l hm)
            show holds (.cache id :: h) (.tryLock (.item l) true :: .unlock (.cache id) ::
              mutexes (t.pullFinishEvents it st l)) = some h
            rw [holds_tryLock hl', holds_unlock_second (by simp)]
            exact holds_pullFinish hc t it st l

/-- **A calm walk.** -/
theorem pull_calm {origId : ℕ} (hown : OwnLocks h s)
    (hcalm : s.calmPull origId curLru totalChunks doEvict curHv = true) :
    (s.itemLRUPullTail origId curLru totalChunks doEvict curHv).2.itemLocks = s.itemLocks ∧
    Disciplined h
      (mutexes (s.itemLRUPullTailEvents origId curLru totalChunks doEvict curHv)) := by
  rw [Store.itemLRUPullTail, Store.itemLRUPullTailEvents]
  by_cases h0 : origId = 0
  · rw [if_pos h0, if_pos h0]
    exact ⟨rfl, .nil h⟩
  · rw [if_neg h0, if_neg h0]
    rw [Store.calmPull, decide_eq_false h0, Bool.false_or] at hcalm
    obtain ⟨h1, h2⟩ := pullLoop_calm (origId ||| curLru.val) totalChunks curHv hc _ _ _ 0 hown hcalm
    exact ⟨h1, (holds_lock (hc _)).trans h2⟩

end Walk

/-! ## Allocation -/

/-- The item locks that are taken, and what `TryLock` will say of the others. -/
def Store.locks (s : Store) : List ℕ × (ℕ → Bool) := (s.itemLocks, s.env.tryLocks)

section Slabs

variable (s : Store) (id : ℕ)

theorem doSlabsFree_locks (it : Ptr) (size : ℕ) :
    (s.doSlabsFree it size id).locks = s.locks := by
  unfold Store.doSlabsFree
  split_ifs <;> rfl

theorem carvePage_locks (ptr len : ℕ) : (s.carvePage ptr id len).locks = s.locks := by
  have hfree : ∀ (cs : List Ptr) (t : Store),
      (cs.foldl (fun s it => s.doSlabsFree it 0 id) t).locks = t.locks := by
    intro cs
    induction cs with
    | nil => exact fun _ => rfl
    | cons it cs ih => exact fun t => (ih _).trans (doSlabsFree_locks t id it 0)
  exact hfree _ _

theorem growSlabList_locks : (s.growSlabList id).2.locks = s.locks := by
  dsimp only [Store.growSlabList]
  split_ifs <;> rfl

theorem memoryAllocator_locks (size : ℕ) :
    (s.memoryAllocator size).2.locks = s.locks := by
  unfold Store.memoryAllocator
  split
  · dsimp only
    split
    · rfl
    · split_ifs <;> rfl
  · split_ifs <;> rfl

theorem doSlabsNewSlab_locks : (s.doSlabsNewSlab id).2.locks = s.locks := by
  unfold Store.doSlabsNewSlab
  dsimp only
  split_ifs
  · rfl
  · have hg := growSlabList_locks s id
    split
    · rename_i t ht
      rwa [ht] at hg
    · rename_i t ht
      rw [ht] at hg
      have hm := memoryAllocator_locks t ((s.slabs.slabclass id).pageLen s.settings)
      split
      · rename_i u hu
        rw [hu] at hm
        exact hm.trans hg
      · rename_i ptr u hu
        rw [hu] at hm
        exact (carvePage_locks u id ptr _).trans (hm.trans hg)

theorem doSlabsAlloc_locks (size : ℕ) (tc : UInt32) :
    (s.doSlabsAlloc size id tc).2.2.locks = s.locks := by
  unfold Store.doSlabsAlloc
  by_cases h1 : s.slabs.InRange id
  · rw [if_pos h1]
    have hr : (if (s.slabs.slabclass id).slCurr ≠ 0 then (true, s)
        else s.doSlabsNewSlab id).2.locks = s.locks := by
      split_ifs
      · rfl
      · exact doSlabsNewSlab_locks s id
    dsimp only
    generalize (if (s.slabs.slabclass id).slCurr ≠ 0 then (true, s)
        else s.doSlabsNewSlab id) = r at hr ⊢
    split
    · split_ifs
      · exact hr
      · exact hr
    · exact hr
  · rw [if_neg h1]

end Slabs

namespace Store

variable (s : Store)

/-- The walk before `DoSlabsAlloc` is calm. -/
def calmFirst (id : ℕ) (curHv : UInt32) : Bool :=
  s.settings.lruMaintainerThread || s.calmPull id .cold 0 false curHv

/-- The walks after a `DoSlabsAlloc` that had no chunk are calm. -/
def calmAfter (id : ℕ) (totalChunks : UInt64) (curHv : UInt32) : Bool :=
  if s.settings.lruMaintainerThread then
    let s₁ := (s.itemLRUPullTail id .hot totalChunks false curHv).2
    let s₂ := (s₁.itemLRUPullTail id .warm totalChunks false curHv).2
    s.calmPull id .hot totalChunks false curHv && s₁.calmPull id .warm totalChunks false curHv &&
      s₂.calmPull id .cold totalChunks true curHv
  else s.calmPull id .cold 0 true curHv

/-- The walks of the loop of `DoItemAlloc` are calm. -/
def calmAllocLoop (ntotal id : ℕ) (curHv : UInt32) : ℕ → Store → UInt32 → Bool
  | 0, _, _ => true
  | fuel + 1, s, totalChunks =>
    let s₁ := if s.settings.lruMaintainerThread then s
      else (s.itemLRUPullTail id .cold 0 false curHv).2
    let r := s₁.doSlabsAlloc ntotal id totalChunks
    let s₂ := r.2.2
    let totalChunks := if s₂.settings.expirezeroDoesNotEvict then
        r.2.1 - s₂.lru.itemSizes (clearLru id) else r.2.1
    s.calmFirst id curHv &&
    match r.1 with
    | some _ => true
    | none =>
      let s₃ := if s₂.settings.lruMaintainerThread then
          let s := (s₂.itemLRUPullTail id .hot totalChunks.toUInt64 false curHv).2
          let s := (s.itemLRUPullTail id .warm totalChunks.toUInt64 false curHv).2
          (s.itemLRUPullTail id .cold totalChunks.toUInt64 true curHv).2
        else (s₂.itemLRUPullTail id .cold 0 true curHv).2
      s₂.calmAfter id totalChunks.toUInt64 curHv &&
        calmAllocLoop ntotal id curHv fuel s₃ totalChunks

/-- Every walk that `DoItemAlloc(key, nkey, flags, exptime, nbytes, cur_hv)` makes is calm. -/
def calmAlloc (key : Key) (flags : Int32) (nbytes : ℕ) (curHv : UInt32) : Bool :=
  let ntotal := itemMakeHeader (key.bytes.length + 1) flags nbytes
  let id := s.slabsClsid ntotal
  id = 0 ||
    calmAllocLoop (if s.settings.useCas then ntotal + 8 else ntotal) id curHv 5 s 0

end Store

section Alloc

variable {h : List Mutex} (hc : ∀ id, .cache id ∉ h) {s : Store} {id : ℕ} {curHv : UInt32}

include hc

theorem disciplined_cacheLocked (id : ℕ) (b : Prop) [Decidable b] :
    Disciplined h (mutexes (if b then Store.cacheLocked id else [])) := by
  split_ifs
  · exact .pair (hc id)
  · exact .nil h

theorem first_calm (hown : OwnLocks h s) (hcalm : s.calmFirst id curHv = true) :
    (if s.settings.lruMaintainerThread then s
      else (s.itemLRUPullTail id .cold 0 false curHv).2).itemLocks = s.itemLocks ∧
    Disciplined h (mutexes (s.pullFirstEvents id curHv)) := by
  unfold Store.pullFirstEvents
  rw [Store.calmFirst] at hcalm
  split_ifs with hm
  · exact ⟨rfl, .nil h⟩
  · rw [Bool.eq_false_iff.mpr hm, Bool.false_or] at hcalm
    exact pull_calm 0 curHv hc hown hcalm

theorem after_calm {totalChunks : UInt64} (hown : OwnLocks h s)
    (hcalm : s.calmAfter id totalChunks curHv = true) :
    (if s.settings.lruMaintainerThread then
        let s := (s.itemLRUPullTail id .hot totalChunks false curHv).2
        let s := (s.itemLRUPullTail id .warm totalChunks false curHv).2
        (s.itemLRUPullTail id .cold totalChunks true curHv).2
      else (s.itemLRUPullTail id .cold 0 true curHv).2).itemLocks = s.itemLocks ∧
    Disciplined h (mutexes (s.pullAfterEvents id totalChunks curHv)) := by
  unfold Store.pullAfterEvents
  unfold Store.calmAfter at hcalm
  dsimp only at hcalm ⊢
  by_cases hm : s.settings.lruMaintainerThread = true
  · rw [if_pos hm] at hcalm
    rw [if_pos hm, if_pos hm, mutexes_append, mutexes_append]
    simp only [Bool.and_eq_true] at hcalm
    obtain ⟨⟨c1, c2⟩, c3⟩ := hcalm
    obtain ⟨l1, d1⟩ := pull_calm totalChunks curHv hc hown c1
    obtain ⟨l2, d2⟩ := pull_calm totalChunks curHv hc
      (fun l hl => by rw [l1]; exact hown l hl) c2
    obtain ⟨l3, d3⟩ := pull_calm totalChunks curHv hc
      (fun l hl => by rw [l2, l1]; exact hown l hl) c3
    exact ⟨l3.trans (l2.trans l1), (d1.append d2).append d3⟩
  · rw [if_neg hm] at hcalm
    rw [if_neg hm, if_neg hm]
    exact pull_calm 0 curHv hc hown hcalm

/-- **The loop of a calm allocation.** -/
theorem allocLoop_calm (ntotal fuel : ℕ) (tc : UInt32) (hown : OwnLocks h s)
    (hcalm : Store.calmAllocLoop ntotal id curHv fuel s tc = true) :
    Disciplined h (mutexes (Store.allocLoopEvents ntotal id curHv fuel s tc)) := by
  induction fuel generalizing s tc with
  | zero => exact .nil h
  | succ fuel ih =>
    rw [Store.calmAllocLoop, Bool.and_eq_true] at hcalm
    obtain ⟨hfirst, hrest⟩ := hcalm
    obtain ⟨l1, d1⟩ := first_calm hc hown hfirst
    rw [Store.allocLoopEvents]
    dsimp only at hrest ⊢
    generalize (if s.settings.lruMaintainerThread = true then s
      else (s.itemLRUPullTail id .cold 0 false curHv).2) = t at l1 hrest ⊢
    have l2 : (t.doSlabsAlloc ntotal id tc).2.2.itemLocks = s.itemLocks :=
      (congrArg Prod.fst (doSlabsAlloc_locks t id ntotal tc)).trans l1
    rw [mutexes_append, mutexes_append, mutexes_append, Store.mutexes_doSlabsAlloc, List.append_nil]
    generalize t.doSlabsAlloc ntotal id tc = r at l2 hrest ⊢
    have d2 := d1.append (disciplined_cacheLocked hc id (r.2.2.settings.expirezeroDoesNotEvict = true))
    obtain ⟨_ | it, tc', u⟩ := r
    · rw [Bool.and_eq_true] at hrest
      obtain ⟨hafter, hrec⟩ := hrest
      obtain ⟨l3, d3⟩ := after_calm hc (fun l hl => by rw [l2]; exact hown l hl) hafter
      dsimp only
      rw [mutexes_append]
      refine d2.append (d3.append (ih _ (fun l hl => ?_) hrec))
      rw [l3, l2]
      exact hown l hl
    · exact d2.append (.nil h)

/-- **A calm allocation.** -/
theorem disciplined_doItemAlloc (key : Key) (flags : Int32) (nbytes : ℕ)
    (hown : OwnLocks h s) (hcalm : s.calmAlloc key flags nbytes curHv = true) :
    Disciplined h (mutexes (s.doItemAllocEvents key flags nbytes curHv)) := by
  rw [Store.calmAlloc] at hcalm
  rw [Store.doItemAllocEvents]
  dsimp only at hcalm ⊢
  generalize s.slabsClsid (itemMakeHeader (key.bytes.length + 1) flags nbytes) = id at hcalm ⊢
  by_cases h0 : id = 0
  · rw [if_pos h0]
    exact .nil h
  · rw [if_neg h0, mutexes_append, mutexes_append]
    rw [decide_eq_false h0, Bool.false_or] at hcalm
    refine ((allocLoop_calm hc _ 5 0 hown hcalm).append
      (disciplined_cacheLocked hc id _)).append ?_
    split
    · exact .pair (hc id)
    · exact .nil h

end Alloc

/-! ## `DoStoreItem` -/

namespace Store

variable (s : Store)

/-- The allocation of the last branch of `DoStoreItem` is calm, if it is reached. -/
def calmJoined (hv : UInt32) (it oldIt : Ptr) : Bool :=
  (s.heap.getCas it ≠ 0 ∧ s.heap.getCas it ≠ s.heap.getCas oldIt) ||
    s.calmAlloc (s.heap.key it) (Int32.ofInt (strtol (s.heap.suffix oldIt)))
      (s.heap.nbytes it + s.heap.nbytes oldIt - 2) hv

/-- `DoStoreItem` after its `DoItemGet` makes calm walks. -/
def calmFound (hv : UInt32) (it : Ptr) : Option Ptr → NreadOpType → Bool
  | some oldIt, .append | some oldIt, .prepend => s.calmJoined hv it oldIt
  | _, _ => true

/-- Every walk that `DoStoreItem(hv, it, op)` makes is calm. -/
def calmStore (hv : UInt32) (it : Ptr) (op : NreadOpType) : Bool :=
  let r := s.doItemGet (s.heap.key it) hv
  r.2.calmFound hv it r.1 op

theorem doItemGet_itemLocks (key : Key) (hv : UInt32) :
    (s.doItemGet key hv).2.itemLocks = s.itemLocks := by
  unfold doItemGet
  cases s.assocFind key hv with
  | none => rfl
  | some it =>
    dsimp only
    split_ifs
    · show (Store.doItemRemove _ it).itemLocks = _
      rw [doItemRemove_itemLocks, doItemUnlink_itemLocks]
      rfl
    · rfl

end Store

section StoreItem

variable {h : List Mutex} (hc : ∀ id, .cache id ∉ h) {s : Store} (hv : UInt32) (it : Ptr)

include hc

theorem disciplined_storeJoined (oldIt : Ptr) (op : NreadOpType) (hown : OwnLocks h s)
    (hcalm : s.calmJoined hv it oldIt = true) :
    Disciplined h (mutexes (s.storeJoinedEvents hv it oldIt op)) := by
  unfold Store.storeJoinedEvents
  rw [Store.calmJoined] at hcalm
  by_cases hcas : s.heap.getCas it ≠ 0 ∧ s.heap.getCas it ≠ s.heap.getCas oldIt
  · rw [if_pos hcas, Store.mutexes_doItemRemove]
    exact .nil h
  · rw [decide_eq_false hcas, Bool.false_or] at hcalm
    rw [if_neg hcas]
    dsimp only
    rw [mutexes_append]
    refine (disciplined_doItemAlloc hc _ _ _ hown hcalm).append ?_
    split
    · rw [Store.mutexes_doItemRemove]
      exact .nil h
    · rw [mutexes_append, Store.mutexes_doItemRemove, List.append_nil]
      exact disciplined_replace hc _ oldIt hv _

theorem disciplined_storeFound (found : Option Ptr) (op : NreadOpType) (hown : OwnLocks h s)
    (hcalm : s.calmFound hv it found op = true) :
    Disciplined h (mutexes (s.storeFoundEvents hv it found op)) := by
  cases found with
  | none =>
    cases op with
    | add | set => exact disciplined_doItemLink hc s it hv
    | replace | append | prepend | cas => exact .nil h
  | some oldIt =>
    cases op with
    | add =>
      rw [Store.storeFoundEvents, mutexes_append, Store.mutexes_doItemRemove, List.append_nil]
      exact disciplined_doItemUpdate hc s oldIt
    | cas =>
      rw [Store.storeFoundEvents]
      split_ifs
      · exact disciplined_replace hc s oldIt hv it
      · rw [Store.mutexes_doItemRemove]
        exact .nil h
    | set | replace => exact disciplined_replace hc s oldIt hv it
    | append => exact disciplined_storeJoined hc hv it oldIt .append hown hcalm
    | prepend => exact disciplined_storeJoined hc hv it oldIt .prepend hown hcalm

/-- **`DoStoreItem` with calm walks.** -/
theorem disciplined_doStoreItem (op : NreadOpType) (hown : OwnLocks h s)
    (hcalm : s.calmStore hv it op = true) :
    Disciplined h (mutexes (s.doStoreItemEvents hv it op)) := by
  rw [Store.doStoreItemEvents, mutexes_append]
  refine (disciplined_doItemGet hc s hv _).append
    (disciplined_storeFound hc hv it _ op (fun l hl => ?_) hcalm)
  rw [Store.doItemGet_itemLocks]
  exact hown l hl

end StoreItem

end Mdb
