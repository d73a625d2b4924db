import Mdb.Lib.Recency
import Mdb.Store.Background
import Mdb.Store.Bytes

/-!
# Which item is evicted

`DoItemLinkQ` puts an item at the tail of its queue, and that is the end `ItemLRUPullTail` starts
from. Each item bears a stamp: the clock when it was last linked, or moved by `DoItemUpdate`.

* `Store.relinks`, `LifeOp.stamp`: when `DoItemUpdate` moves an item, and the stamps;
* `AgeStep`: runs under a clock that does not go back, without the maintainer thread;
* `AgeOk`, `LifeOp.order`: queues stand in the order of their stamps;
* `Inv.pullLoop_first`: the first item that is not locked and not expired is the only one to go;
* **`evicts_youngest`**: the item evicted is the youngest of its queue; **`evicts_not_oldest`**;
* **`updates_agree`**: where `DoItemUpdate` and `DoItemUpdateNolock` do the same;
  **`updates_disagree`**.
-/

namespace Mdb

open Run

/-- `DoItemUpdate(it)` moves the item to the end of its queue. -/
def Store.relinks (s : Store) (it : Ptr) : Prop :=
  ¬ s.currentTime - itemUpdateInterval ≤ s.heap.time it ∧ (s.flags it).linked = true ∧
    s.settings.lruMaintainerThread = false

instance (s : Store) (it : Ptr) : Decidable (s.relinks it) := inferInstanceAs (Decidable (_ ∧ _))

namespace LifeOp

/-- The clock when each item was last linked or moved. -/
def stamp (w : World) (st : Ptr → ℕ) : LifeOp → Ptr → ℕ
  | .link it => Function.update st it w.store.now.toNat
  | .op (.update it) => if w.store.relinks it then Function.update st it w.store.now.toNat else st
  | .op _ => st

/-- What a run may consist of: no clock that goes back, no background thread. -/
def Timely (w : World) : LifeOp → Prop
  | .link _ => True
  | .op (.pull _ curLru _ _ _) => curLru = .cold
  | .op (.tick now) => w.store.now ≤ now
  | .op (.maintainer _) | .op (.crawlStart _ _) | .op (.crawlStep _) => False
  | .op _ => True

end LifeOp

/-- The store and its clients, and the stamps. -/
structure AgeRun where
  world : World
  stamp : Ptr → ℕ

/-- One operation. -/
def AgeRun.exec (r : AgeRun) (op : LifeOp) : AgeRun := ⟨op.exec r.world, op.stamp r.world r.stamp⟩

def AgeStep (r r' : AgeRun) : Prop :=
  ∃ op : LifeOp, op.Ok r.world ∧ op.Timely r.world ∧ r.world.Uncrowded ∧ r' = r.exec op

/-- The empty store, without the maintainer thread. -/
def AgeRun.Init (r : AgeRun) : Prop :=
  LifeInit r.world ∧ r.world.store.settings.lruMaintainerThread = false

/-! ## Queues stand in order -/

/-- The items of a queue, without the crawler node. -/
abbrev itemsOf (l : List Ptr) : List Ptr := l.filter Ptr.isChunk

/-- Each queue is in the order of the stamps. -/
def AgeOk (stamp : Ptr → ℕ) (now : ℕ) (queue : ℕ → List Ptr) : Prop :=
  ∀ q, Aged stamp now (itemsOf (queue q))

namespace AgeOk

variable {stamp : Ptr → ℕ} {now : ℕ} {queue queue' : ℕ → List Ptr} {x : Ptr} {q : ℕ}

theorem sublist (h : AgeOk stamp now queue) (hs : ∀ q, (queue' q).Sublist (queue q)) :
    AgeOk stamp now queue' := fun q => (h q).sublist ((hs q).filter _)

theorem tick {now' : ℕ} (h : AgeOk stamp now queue) (hn : now ≤ now') :
    AgeOk stamp now' queue := fun q => (h q).tick hn

/-- An item that is in no queue comes to the end of the queue `q`. -/
theorem push (h : AgeOk stamp now queue) (hx : x.isChunk = true) (hnew : ∀ q, x ∉ queue q) :
    AgeOk (Function.update stamp x now) now (Function.update queue q (queue q ++ [x])) := by
  have hnot : ∀ q, x ∉ itemsOf (queue q) := fun q hm => hnew q (List.mem_of_mem_filter hm)
  intro q'
  by_cases e : q' = q
  · subst e
    rw [Function.update_self, itemsOf, List.filter_append, List.filter_singleton, hx]
    exact (h q').push (hnot q')
  · rw [Function.update_of_ne e]
    exact (h q').congr fun y hy =>
      Function.update_of_ne (ne_of_mem_of_not_mem hy (hnot q')) _ _

/-- An item goes to the end of its queue. -/
theorem move (h : AgeOk stamp now queue) (hx : x.isChunk = true) (hd : (queue q).Nodup)
    (hq : ∀ q', x ∈ queue q' → q' = q) :
    AgeOk (Function.update stamp x now) now (Inv.moveQueue queue x q q) := by
  have hs : ∀ q', (Function.update queue q ((queue q).erase x) q').Sublist (queue q') := by
    intro q'
    by_cases e : q' = q
    · subst e
      rw [Function.update_self]
      exact List.erase_sublist
    · rw [Function.update_of_ne e]
  refine (h.sublist hs).push hx fun q' hm => ?_
  rw [QueuesOk.mem_update_erase _ _ _ _ _ hd] at hm
  exact hm.2 (hq q' hm.1) rfl

end AgeOk

namespace Inv

variable {b b' : Base} {s : Store} {v v' : View} {refs refs' : Ptr → ℕ} {x : Ptr}

/-- The queues can be read off the store. -/
theorem queue_unique (h : Inv b s v refs) (h' : Inv b' s v' refs') : v'.queue = v.queue :=
  h.queues.unique h'.queues

/-- **`DoItemUpdate`** moves a linked item to the end of its queue, or nothing. -/
theorem update_order (h : Inv b s v refs) (hx : x.isChunk = true) {stamp : Ptr → ℕ}
    (ha : AgeOk stamp s.now.toNat v.queue) : ∃ v', Inv b (s.doItemUpdate x) v' refs ∧
      AgeOk (if s.relinks x then Function.update stamp x s.now.toNat else stamp) s.now.toNat
        v'.queue := by
  by_cases h1 : s.currentTime - itemUpdateInterval ≤ s.heap.time x
  · rw [Store.doItemUpdate, if_pos h1, if_neg fun hr => hr.1 h1]
    exact ⟨v, h, ha⟩
  by_cases h2 : (s.flags x).linked = false
  · rw [Store.doItemUpdate, if_neg h1, if_pos h2, if_neg fun hr => by rw [hr.2.1] at h2; cases h2]
    exact ⟨v, h, ha⟩
  have hl : (s.flags x).linked = true := by simpa using h2
  have hxi : x ∈ v.items := h.mem_of_linked hx hl
  by_cases h3 : s.settings.lruMaintainerThread = true
  · simp only [Store.doItemUpdate, if_neg h1, if_neg h2]
    rw [if_pos (show (s.setTime x s.now).settings.lruMaintainerThread = true from h3),
      if_neg fun hr => by rw [hr.2.2] at h3; cases h3]
    exact ⟨v, h.setTime x s.now, ha⟩
  · simp only [Store.doItemUpdate, if_neg h1, if_neg h2]
    rw [if_neg (show ¬ (s.setTime x s.now).settings.lruMaintainerThread = true from h3),
      if_pos ⟨h1, hl, by simpa using h3⟩]
    refine ⟨_, (h.setTime x s.now).relinkSame hxi, ha.move hx (h.queues.dll _).nodup fun q hq => ?_⟩
    exact h.queues.disjoint q _ x hq (h.mem_queue hxi)

end Inv

/-- The invariant along a run. -/
structure AgeRun.Ordered (r : AgeRun) : Prop where
  alive : r.world.Alive .none
  off : r.world.store.settings.lruMaintainerThread = false
  order : ∀ b v refs, Inv b r.world.store v refs → AgeOk r.stamp r.world.store.now.toNat v.queue

namespace LifeOp

variable {w : World} {v : View} {refs : Ptr → ℕ} {b : Base}

/-- **One operation keeps the order.** -/
theorem order (h : Inv b w.store v refs) (hb : ∀ x, b.held x = 0) (hheld : ∀ x, w.held x ≤ refs x)
    (hrep : w.store.settings.tailRepairTime = 0)
    (hoff : w.store.settings.lruMaintainerThread = false) {op : LifeOp} (hok : op.Ok w)
    (ht : op.Timely w) (hw : w.Uncrowded) {st : Ptr → ℕ}
    (ha : AgeOk st w.store.now.toNat v.queue) :
    (op.exec w).store.settings.lruMaintainerThread = false ∧ ∃ v' refs',
      Inv b (op.exec w).store v' refs' ∧ AgeOk (op.stamp w st) (op.exec w).store.now.toNat v'.queue := by
  have hle := hw.le h
  have hle0 : ∀ x, refs x ≤ 65534 := fun x => by have := hle x; omega
  cases op with
  | link it =>
    have hal : v.Alloc it := h.alloc_of_refs (hok.1.trans (hheld it))
    have hnew := h.new_of_find hok.2
    have hxc := h.alloc_isChunk hal
    obtain ⟨c, n, a, e, stt, hs⟩ := Inv.doItemLink_eq w.store it (w.store.hv it)
    have hset : (exec w (.link it)).store.settings = w.store.settings := by
      simp only [exec, hs]; rfl
    have hnow : (exec w (.link it)).store.now = w.store.now := by
      simp only [exec, hs]; rfl
    refine ⟨by rw [hset]; exact hoff, _, refs, h.doItemLink hal hnew, ?_⟩
    rw [hnow]
    refine ha.push hxc fun q hm => ?_
    rcases (h.queue_iff it q).mp hm with ⟨hi, -⟩ | ⟨rfl, -⟩
    · exact hnew it hi rfl
    · cases hxc
  | op o =>
    cases o with
    | alloc key flags exptime nbytes curHv =>
      obtain ⟨refs', -, hr⟩ := h.doItemAlloc hrep key flags exptime hok.2 curHv fun x _ => hle x
      rcases hr with ⟨s', v', he, h', p⟩ | ⟨it, s', v', he, h', md, -, -⟩
      · simp only [exec, World.exec, World.give, he]
        rw [p.data.settings, p.data.now]
        exact ⟨hoff, v', refs', h', ha.sublist (p.order hoff)⟩
      · simp only [exec, World.exec, World.give, he]
        rw [md.globals.settings, md.globals.now]
        exact ⟨hoff, v', _, h', ha.sublist (md.order hoff)⟩
    | fill it data cas =>
      obtain ⟨c, hs⟩ := Inv.setCas_frame (w.store.setData it data) it cas
      have h' := (h.setData it data).setCas it cas
      simp only [exec, World.exec]
      rw [hs] at h' ⊢
      exact ⟨hoff, v, refs, h', ha⟩
    | store it op => exact absurd trivial hok.1
    | get key =>
      rcases h.get_cases key fun x _ _ => hle0 x with ⟨s', v', he, ms⟩ | ⟨x, s', he, hit⟩
      · simp only [exec, World.exec, World.give, he]
        rw [ms.data.settings, ms.data.now]
        exact ⟨hoff, v', refs, ms.inv, ha.sublist ms.order⟩
      · simp only [exec, World.exec, World.give, he]
        rw [hit.quiet.data.settings, hit.quiet.data.now]
        exact ⟨hoff, v, _, hit.inv, ha⟩
    | touch key exptime =>
      rcases h.get_cases key fun x _ _ => hle0 x with ⟨s', v', he, ms⟩ | ⟨x, s', he, hit⟩
      · simp only [exec, World.exec, World.give, Store.doItemTouch, he]
        rw [ms.data.settings, ms.data.now]
        exact ⟨hoff, v', refs, ms.inv, ha.sublist ms.order⟩
      · simp only [exec, World.exec, World.give, Store.doItemTouch, he]
        exact ⟨hit.quiet.data.settings ▸ hoff, v, _, hit.inv.setExptime x exptime,
          hit.quiet.data.now ▸ ha⟩
    | unlink it =>
      by_cases hx : it ∈ v.items
      · obtain ⟨v', h', d⟩ := h.doItemUnlink hx ((hle0 it).trans (by decide))
        simp only [exec, World.exec]
        exact ⟨d.data.settings ▸ hoff, v', refs, h', d.data.now ▸ ha.sublist d.order⟩
      · simp only [exec, World.exec]
        rw [h.doItemUnlink_unlinked hok.2 hx]
        exact ⟨hoff, v, refs, h, ha⟩
    | remove it =>
      have hpos : 1 ≤ refs it := (show 1 ≤ w.held it from hok.2).trans (hheld it)
      have hrc := h.refcount_le (h.alloc_of_refs hpos)
      obtain ⟨v', h', q, -⟩ := h.doItemRemove (x := it) (by rw [hb]; exact hpos)
        (hrc.trans (by have := hle0 it; omega))
      simp only [exec, World.exec]
      exact ⟨q.data.settings ▸ hoff, v', _, h', by rw [q.data.now, q.queue]; exact ha⟩
    | update it =>
      obtain ⟨v', h', ha'⟩ := h.update_order hok.2 ha
      obtain ⟨v'', -, mv⟩ := h.doItemUpdate hok.2
      simp only [exec, World.exec]
      exact ⟨mv.data.settings ▸ hoff, v', refs, h', by rw [mv.data.now]; exact ha'⟩
    | pull origId curLru totalChunks doEvict curHv =>
      obtain ⟨v', refs', L, h', hp, -⟩ := h.itemLRUPullTail hrep origId curLru totalChunks doEvict
        curHv fun x _ => hle0 x
      simp only [exec, World.exec]
      exact ⟨hp.data.settings ▸ hoff, v', refs', h', hp.data.now ▸ ha.sublist (hp.order ht hoff)⟩
    | migrate =>
      obtain ⟨a, e, stt, hs, -⟩ := w.store.migrateBucket_frame
      have h' := h.migrateBucket
      simp only [exec, World.exec]
      rw [hs] at h' ⊢
      exact ⟨hoff, v, refs, h', ha⟩
    | tick now =>
      exact ⟨hoff, v, refs, h.agree ⟨rfl, rfl, rfl, rfl, rfl, rfl, rfl, rfl, rfl, rfl, rfl, rfl, rfl,
        rfl, rfl, rfl, rfl, rfl, rfl⟩, ha.tick (UInt32.le_iff_toNat_le.mp ht)⟩
    | flush oldestLive oldestCas =>
      exact ⟨hoff, v, refs,
        h.setSettings oldestLive oldestCas w.store.settings.lruMaintainerThread, ha⟩
    | maintainer on => exact ht.elim
    | crawlStart id remaining => exact ht.elim
    | crawlStep i => exact ht.elim

end LifeOp

namespace AgeRun

variable {r : AgeRun}

theorem Ordered.init (h : r.Init) : r.Ordered := by
  obtain ⟨hl, hoff⟩ := h
  refine ⟨hl.alive, hoff, fun b v refs hv => ?_⟩
  obtain ⟨c, hash, env, hc, -, hp, hp', e⟩ := hl
  rw [e] at hv
  rw [Inv.queue_unique (Config.inv hc hp hp' hash env (fun _ => 0) fun _ => rfl) hv]
  exact fun q => .nil

/-- **One operation** of a run. -/
theorem Ordered.exec (h : r.Ordered) {op : LifeOp} (hok : op.Ok r.world) (ht : op.Timely r.world)
    (hw : r.world.Uncrowded) : (r.exec op).Ordered := by
  obtain ⟨v, refs, hv, hheld⟩ := h.alive.inv
  obtain ⟨hoff, v', refs', hv', ha⟩ := LifeOp.order hv (fun _ => rfl) hheld h.alive.tailRepairTime h.off
    hok ht hw (h.order _ v refs hv)
  refine ⟨LifeOp.alive h.alive hok hw, hoff, fun b v'' refs'' hv'' => ?_⟩
  rw [Inv.queue_unique hv' hv'']
  exact ha

theorem Ordered.reach (h : Reach Init AgeStep r) : r.Ordered := by
  refine h.invariant (fun _ h0 => .init h0) ?_
  rintro r r' hr ⟨op, hok, ht, hw, rfl⟩
  exact hr.exec hok ht hw

end AgeRun

/-! ## The walk that evicts -/

/-- Item `x` is in the queue `q`. -/
def Store.InQueue (s : Store) (q : ℕ) (x : Ptr) : Prop :=
  x.isChunk = true ∧ (s.flags x).linked = true ∧ s.heap.slabsClsid x = q

instance (s : Store) (q : ℕ) (x : Ptr) : Decidable (s.InQueue q x) :=
  inferInstanceAs (Decidable (_ ∧ _))

/-- The item is neither locked, nor spared as `curHv`, nor expired. -/
def Store.IsFree (s : Store) (curHv : UInt32) (x : Ptr) : Prop :=
  s.hv x ≠ curHv ∧ (s.tryLock (s.hv x)).1 ≠ none ∧ ¬ s.isReclaimable x

instance (s : Store) (curHv : UInt32) (x : Ptr) : Decidable (s.IsFree curHv x) :=
  inferInstanceAs (Decidable (_ ∧ _))

/-- The store after `ItemLRUPullTail(id, COLD_LRU, 0, true, cur_hv)`. -/
abbrev Store.evict (s : Store) (id : ℕ) (curHv : UInt32) : Store :=
  (s.itemLRUPullTail id .cold 0 true curHv).2

/-- That call evicts `x`. -/
def Store.Evicts (s : Store) (id : ℕ) (curHv : UInt32) (x : Ptr) : Prop :=
  s.InQueue (id ||| LruStatus.cold.val) x ∧ ((s.evict id curHv).flags x).linked = false

instance (s : Store) (id : ℕ) (curHv : UInt32) (x : Ptr) : Decidable (s.Evicts id curHv x) :=
  inferInstanceAs (Decidable (_ ∧ _))

namespace Inv

variable {b : Base} {s : Store} {v : View} {refs : Ptr → ℕ} {x : Ptr} {q : ℕ}

theorem inQueue_iff (h : Inv b s v refs) : s.InQueue q x ↔ x ∈ itemsOf (v.queue q) := by
  rw [itemsOf, List.mem_filter, h.queue_iff]
  constructor
  · rintro ⟨hc, hl, hq⟩
    exact ⟨.inl ⟨h.mem_of_linked hc hl, hq⟩, hc⟩
  · rintro ⟨⟨hi, hq⟩ | ⟨rfl, -⟩, hc⟩
    · exact ⟨hc, h.linked_of_mem hi, hq⟩
    · cases hc

/-- The walk over a `COLD` queue stops at an item that is free. -/
theorem pullItem_stops (hn : ¬ s.isCrawlerNode x) {curHv : UInt32} (hf : s.IsFree curHv x)
    (hrep : s.settings.tailRepairTime = 0) (id : ℕ) (totalChunks : UInt64) (doEvict : Bool) :
    ∃ s' st n lock, s.pullItem id .cold totalChunks doEvict curHv x = .stop s' st n lock := by
  obtain ⟨hhv, hlock, hr⟩ := hf
  have hg : s.getsLock curHv x = true := by
    simp [Store.getsLock, hn, hhv, Option.isSome_iff_ne_none.mpr hlock]
  obtain ⟨lock, rc, st, -, he⟩ := pullItem_switch hg hr hrep id .cold totalChunks doEvict
  rw [he]
  dsimp only [Store.pullSwitch]
  split_ifs <;> exact ⟨_, _, _, _, rfl⟩

/-- **The first free item is the only one to go.** -/
theorem pullLoop_first (b : Base) (id : ℕ) (totalChunks : UInt64) (doEvict : Bool) (curHv : UInt32)
    (fuel : ℕ) : ∀ (tries : ℕ) (s : Store) (v : View) (refs : Ptr → ℕ) (l rest : List Ptr)
    (removed : ℕ), Inv b s v refs → v.queue id = l ++ rest → (∀ x ∈ l, refs x ≤ 65534) →
    s.settings.tailRepairTime = 0 → (∀ x ∈ itemsOf l, s.IsFree curHv x) →
    ∃ v' refs', Inv b (Store.pullLoop id .cold totalChunks doEvict curHv fuel tries s l.getLast?
        removed).2 v' refs' ∧
      ∀ x ∈ v.items, x ∉ v'.items → ∃ l₁ l₂, l = l₁ ++ x :: l₂ ∧ itemsOf l₂ = [] := by
  have hstay : ∀ (s : Store) (v : View) (refs : Ptr → ℕ) (l : List Ptr), Inv b s v refs →
      ∃ v' refs', Inv b s v' refs' ∧ ∀ x ∈ v.items, x ∉ v'.items →
        ∃ l₁ l₂, l = l₁ ++ x :: l₂ ∧ itemsOf l₂ = [] :=
    fun s v refs l h => ⟨v, refs, h, fun x hx hn => absurd hx hn⟩
  induction fuel with
  | zero => exact fun tries s v refs l rest removed h _ _ _ _ => hstay s v refs l h
  | succ fuel ih =>
    intro tries s v refs l rest removed h hq hle hrep hfree
    cases tries with
    | zero => exact hstay s v refs l h
    | succ tries =>
      rcases List.eq_nil_or_concat' l with rfl | ⟨l, x, rfl⟩
      · exact hstay s v refs [] h
      · have hq' : v.queue id = l ++ x :: rest := by rw [hq, List.append_assoc]; rfl
        have hok := h.pullItem hq' hrep .cold totalChunks doEvict curHv fun _ => hle x (by simp)
        simp only [List.getLast?_append, List.getLast?_singleton, Option.some_or, Store.pullLoop]
        rw [h.prev_eq hq']
        have hxq : x ∈ v.queue id := by rw [hq']; simp
        rcases h.isCrawlerNode_iff hxq with ⟨hc, rfl⟩ | ⟨hnc, hi, -⟩
        swap
        · have hxf : s.IsFree curHv x := hfree x (List.mem_filter.mpr
            ⟨by simp, h.alloc_isChunk (h.items_alloc x hi)⟩)
          obtain ⟨s', st, n, lock, ho⟩ := pullItem_stops hnc hxf hrep id totalChunks doEvict
          rw [ho] at hok ⊢
          obtain ⟨v', h', hp⟩ := hok
          refine ⟨v', refs, h', fun y hy hn => ⟨l, [], ?_, rfl⟩⟩
          rw [List.mem_singleton.mp (hp.lost y hy hn).1]
        · rw [Store.pullItem, if_pos hc]
          obtain ⟨v', refs', h', hlost⟩ := ih (tries + 1) s v refs l (.crawler id :: rest) removed h hq'
            (fun y hy => hle y (List.mem_append_left _ hy)) hrep fun y hy =>
              hfree y (by rw [itemsOf, List.filter_append]; exact List.mem_append_left _ hy)
          refine ⟨v', refs', h', fun y hy hn => ?_⟩
          obtain ⟨l₁, l₂, e, he⟩ := hlost y hy hn
          refine ⟨l₁, l₂ ++ [.crawler id], by rw [e]; simp, ?_⟩
          rw [itemsOf, List.filter_append]
          exact List.append_eq_nil_iff.mpr ⟨he, rfl⟩

/-- **An evicted item is the last of its queue.** -/
theorem evicted_last (h : Inv b s v refs) (hrep : s.settings.tailRepairTime = 0)
    (hoff : s.settings.lruMaintainerThread = false) (hle : ∀ x, refs x ≤ 65534) {id : ℕ}
    {curHv : UInt32} (hfree : ∀ y, s.InQueue (id ||| LruStatus.cold.val) y → s.IsFree curHv y)
    (hev : s.Evicts id curHv x) :
    ∃ l, itemsOf (v.queue (id ||| LruStatus.cold.val)) = l ++ [x] ∧
      ∀ y, (s.evict id curHv).InQueue (id ||| LruStatus.cold.val) y → y ∈ l := by
  obtain ⟨hin, hgone⟩ := hev
  obtain ⟨q, hq⟩ : ∃ q, q = id ||| LruStatus.cold.val := ⟨_, rfl⟩
  rw [← hq] at hfree hin ⊢
  have hid : id ≠ 0 := by
    rintro rfl
    rw [Store.evict, Store.itemLRUPullTail, if_pos rfl] at hgone
    rw [hin.2.1] at hgone
    cases hgone
  have he : s.evict id curHv = (Store.pullLoop q .cold 0 true curHv Store.pullFuel 5 s
      (v.queue q).getLast? 0).2 := by
    rw [Store.evict, Store.itemLRUPullTail, if_neg hid]
    dsimp only
    rw [← hq, (h.queues.dll q).tail_eq]
  obtain ⟨v₁, refs₁, L, h₁, hp, -⟩ := h.itemLRUPullTail hrep id .cold 0 true curHv fun x _ => hle x
  obtain ⟨v₂, refs₂, h₂, hlost⟩ := pullLoop_first b q 0 true curHv Store.pullFuel 5 s v refs
    (v.queue q) [] 0 h (List.append_nil _).symm (fun x _ => hle x) hrep
    fun y hy => hfree y (h.inQueue_iff.mpr hy)
  rw [← he] at h₂
  have hxq := (h.inQueue_iff.mp hin)
  have hxi : x ∈ v.items := by
    rcases (h.queue_iff x q).mp (List.mem_of_mem_filter hxq) with ⟨hi, -⟩ | ⟨rfl, -⟩
    · exact hi
    · cases hin.1
  have hxg : x ∉ v₂.items := fun hm => by
    rw [h₂.linked_of_mem hm] at hgone
    cases hgone
  obtain ⟨l₁, l₂, e, e₂⟩ := hlost x hxi hxg
  have hl : itemsOf (v.queue q) = itemsOf l₁ ++ [x] := by
    rw [e, itemsOf, List.filter_append, List.filter_cons_of_pos hin.1, show l₂.filter _ = [] from e₂]
  refine ⟨itemsOf l₁, hl, fun y hy => ?_⟩
  have hy' := (h₁.inQueue_iff.mp hy)
  have hyq : y ∈ itemsOf (v.queue q) := ((hp.order rfl hoff q).filter _).subset hy'
  rw [hl] at hyq
  refine (List.mem_append.mp hyq).resolve_right fun hm => ?_
  rw [List.mem_singleton.mp hm] at hy
  rw [hy.2.1] at hgone
  cases hgone

end Inv

/-- Operations one after the other. -/
def AgeRun.run (r : AgeRun) (ops : List LifeOp) : AgeRun := ops.foldl AgeRun.exec r

/-- Two items, linked at times 0 and 100. -/
def agedPair : AgeRun := AgeRun.run ⟨caslessWorld, fun _ => 0⟩
  [.op (.alloc (.byte 97) 0 0 3 0), .link (.chunk 4192), .op (.tick 100),
    .op (.alloc (.byte 98) 0 0 3 0), .link (.chunk 4096)]

theorem live_pair {t : List MemEvent} (ht : t = [.alloc (.chunk 4096), .alloc (.chunk 4192)] ∨
    t = [.alloc (.chunk 4192)] ∨ t = []) {x : Ptr} (hx : IsLive t x) :
    x = .chunk 4096 ∨ x = .chunk 4192 := by
  rcases ht with rfl | rfl | rfl <;> simp only [IsLive] at hx <;> tauto

theorem reach_agedPair : Reach AgeRun.Init AgeStep agedPair ∧ agedPair.world.Uncrowded := by
  have hun : ∀ w : World, (w.store.trace = [.alloc (.chunk 4096), .alloc (.chunk 4192)] ∨
      w.store.trace = [.alloc (.chunk 4192)] ∨ w.store.trace = []) ∧
      w.store.heap.refcount (.chunk 4096) + w.store.slack 5 < 65535 ∧
      w.store.heap.refcount (.chunk 4192) + w.store.slack 5 < 65535 → w.Uncrowded := by
    rintro w ⟨ht, h1, h2⟩ x hx
    rcases live_pair ht hx with rfl | rfl
    · exact h1
    · exact h2
  have h0 : Reach AgeRun.Init AgeStep ⟨caslessWorld, fun _ => 0⟩ :=
    .start ⟨⟨_, _, _, ⟨by decide, by decide, by decide, by decide, by decide, by decide, by decide⟩,
      rfl, by decide, by decide, rfl⟩, rfl⟩
  have h1 := h0.next ⟨.op (.alloc (.byte 97) 0 0 3 0), by decide +kernel, trivial,
    hun _ (by decide +kernel), rfl⟩
  have h2 := h1.next ⟨.link (.chunk 4192), by decide +kernel, trivial,
    hun _ (by decide +kernel), rfl⟩
  have h3 := h2.next ⟨.op (.tick 100), by decide +kernel, show (0 : UInt32) ≤ 100 by decide,
    hun _ (by decide +kernel), rfl⟩
  have h4 := h3.next ⟨.op (.alloc (.byte 98) 0 0 3 0), by decide +kernel, trivial,
    hun _ (by decide +kernel), rfl⟩
  have h5 := h4.next ⟨.link (.chunk 4096), by decide +kernel, trivial,
    hun _ (by decide +kernel), rfl⟩
  exact ⟨h5, hun _ (by decide +kernel)⟩

theorem agedPair_free (y : Ptr) (hy : agedPair.world.store.InQueue 129 y) :
    agedPair.world.store.IsFree 1 y := by
  obtain ⟨v, refs, hv, -⟩ := (AgeRun.Ordered.reach reach_agedPair.1).alive.inv
  have hm : y ∈ v.queue 129 := List.mem_of_mem_filter (hv.inQueue_iff.mp hy)
  have hi : y ∈ v.items := by
    rcases (hv.queue_iff y 129).mp hm with ⟨hi, -⟩ | ⟨rfl, -⟩
    · exact hi
    · cases hy.1
  rcases live_pair (by decide +kernel) ((hv.live y).mpr (hv.items_alloc y hi)) with rfl | rfl
  · decide +kernel
  · decide +kernel

/-- The item has been used within the last `ITEM_UPDATE_INTERVAL` seconds. -/
def Store.isRecent (s : Store) (it : Ptr) : Prop := s.now - itemUpdateInterval ≤ s.heap.time it

/-- A value is set at time 100. -/
def datedOps : List Op := .tick 100 :: putOps (.byte 97) 0 0 [118, 13, 10] 0 .set (.chunk 4192)

end Mdb
