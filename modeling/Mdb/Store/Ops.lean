import Mdb.Store.Steps

/-!
# Get, touch, unlink, update

What the operations on one item do, from the elementary steps.

* `Drops s s' v v' x`: item `x` is gone from table and queue and nothing else has changed;
* `Moves s s' v v' x`: item `x` has a new place in the queues and a new time, at most;
* **`Inv.doItemUnlink`**, **`Inv.doItemGet_none`**, **`Inv.doItemGet_dead`**, **`Inv.doItemGet_hit`**,
  **`Inv.doItemUpdate`**.
-/

namespace Mdb

/-- Item `x` is gone, and nothing else has changed. -/
structure Drops (s s' : Store) (v v' : View) (x : Ptr) : Prop where
  data : SameData s s'
  time : s'.heap.time = s.heap.time
  items : v'.items = v.items.erase x
  queue : v'.queue = Function.update v.queue (s.heap.slabsClsid x)
    ((v.queue (s.heap.slabsClsid x)).erase x)

theorem Drops.order {s s' : Store} {v v' : View} {x : Ptr} (h : Drops s s' v v' x) (q : ℕ) :
    (v'.queue q).Sublist (v.queue q) := by
  rw [h.queue]
  by_cases e : q = s.heap.slabsClsid x
  · subst e
    rw [Function.update_self]
    exact List.erase_sublist
  · rw [Function.update_of_ne e]

/-- Item `x` may have a new place in the queues and a new time. -/
structure Moves (s s' : Store) (v v' : View) (x : Ptr) : Prop where
  data : SameData s s'
  time : ∀ y, y ≠ x → s'.heap.time y = s.heap.time y
  items : v'.items = v.items

theorem SameData.isFlushed {s s' : Store} (h : SameData s s') {x : Ptr}
    (ht : s'.heap.time x = s.heap.time x) : s'.isFlushed x = s.isFlushed x := by
  have hc : s'.heap.getCas x = s.heap.getCas x := by
    simp only [Heap.getCas, h.casBit, h.cas]
  simp only [Store.isFlushed, h.settings, h.now, ht, hc]

theorem SameData.isReclaimable {s s' : Store} (h : SameData s s') {x : Ptr}
    (ht : s'.heap.time x = s.heap.time x) : s'.isReclaimable x ↔ s.isReclaimable x := by
  simp only [Store.isReclaimable, h.isFlushed ht, h.now, h.exptime]

theorem SameData.hv {s s' : Store} (h : SameData s s') (x : Ptr) : s'.hv x = s.hv x := by
  simp only [Store.hv, h.hash, h.key]

namespace Inv

variable {b : Base} {s t : Store} {v : View} {refs : Ptr → ℕ} {x : Ptr} {k : Key}

/-! ## What no invariant reads -/

theorem setTime (h : Inv b s v refs) (x : Ptr) (n : UInt32) : Inv b (s.setTime x n) v refs :=
  h.agree ⟨rfl, rfl, rfl, rfl, rfl, rfl, rfl, rfl, rfl, rfl, rfl, rfl, rfl, rfl, rfl, rfl, rfl, rfl, rfl⟩

theorem setExptime (h : Inv b s v refs) (x : Ptr) (n : UInt32) : Inv b (s.setExptime x n) v refs :=
  h.agree ⟨rfl, rfl, rfl, rfl, rfl, rfl, rfl, rfl, rfl, rfl, rfl, rfl, rfl, rfl, rfl, rfl, rfl, rfl, rfl⟩

theorem setData (h : Inv b s v refs) (x : Ptr) (d : ℕ → UInt8) : Inv b (s.setData x d) v refs :=
  h.agree ⟨rfl, rfl, rfl, rfl, rfl, rfl, rfl, rfl, rfl, rfl, rfl, rfl, rfl, rfl, rfl, rfl, rfl, rfl, rfl⟩

theorem setCas (h : Inv b s v refs) (x : Ptr) (c : UInt64) : Inv b (s.setCas x c) v refs := by
  unfold Store.setCas
  split_ifs
  · exact h.agree ⟨rfl, rfl, rfl, rfl, rfl, rfl, rfl, rfl, rfl, rfl, rfl, rfl, rfl, rfl, rfl, rfl, rfl,
      rfl, rfl⟩
  · exact h

/-- Counters, locks and the environment's answers. -/
theorem aux (h : Inv b s v refs) (st : ℕ → ItemStats) (cr : Crawlers) (l : List ℕ) (e : Env)
    (hcr : cr.crawlerCount = s.crawlers.crawlerCount) :
    Inv b { s with itemStats := st, crawlers := cr, itemLocks := l, env := e } v refs :=
  h.agree ⟨rfl, rfl, rfl, rfl, rfl, rfl, rfl, rfl, rfl, rfl, rfl, rfl, rfl, rfl, rfl, rfl, rfl, rfl, hcr⟩

theorem aux_quiet (s : Store) (v : View) (st : ℕ → ItemStats) (cr : Crawlers) (l : List ℕ)
    (e : Env) : Quiet s { s with itemStats := st, crawlers := cr, itemLocks := l, env := e } v v :=
  ⟨⟨rfl, rfl, rfl, rfl, rfl, rfl, fun _ => rfl, rfl, rfl, rfl, rfl, rfl, fun _ => .refl _, rfl⟩,
    rfl, rfl, rfl⟩

theorem bump (h : Inv b s v refs) (id : ℕ) (f : ItemStats → ItemStats) :
    Inv b (s.bump id f) v refs := h.aux _ _ _ _ rfl

theorem bump_quiet (s : Store) (v : View) (id : ℕ) (f : ItemStats → ItemStats) :
    Quiet s (s.bump id f) v v := aux_quiet s v _ _ _ _

/-! ## References, linked or not -/

theorem refcount_le (h : Inv b s v refs) (hx : v.Alloc x) : s.heap.refcount x ≤ refs x + 1 := by
  obtain ⟨c, hc⟩ := hx
  have := (h.alloc_ok c x hc).refcount
  split_ifs at this <;> omega

theorem refcount_item (h : Inv b s v refs) (hx : x ∈ v.items) : s.heap.refcount x = 1 + refs x := by
  obtain ⟨c, hc⟩ := h.items_alloc x hx
  rw [(h.alloc_ok c x hc).refcount, if_pos (h.linked_of_mem hx)]

theorem refcount_unlinked (h : Inv b s v refs) (hx : v.Alloc x) (hl : x ∉ v.items) :
    s.heap.refcount x = refs x := by
  obtain ⟨c, hc⟩ := hx
  have := (h.alloc_ok c x hc).refcount
  rw [if_neg fun hlk => hl ((h.mem_items ⟨c, hc⟩).mpr hlk)] at this
  omega

theorem update_back (refs : Ptr → ℕ) (x : Ptr) :
    Function.update (Function.update refs x (refs x + 1)) x (refs x + 1 - 1) = refs := by
  rw [Function.update_idem, Nat.add_sub_cancel, Function.update_eq_self]

/-- **Giving back** the reference that was taken. -/
theorem release (h : Inv b s v (Function.update refs x (refs x + 1))) (hheld : b.held x ≤ refs x)
    (hle : s.heap.refcount x ≤ 2 ^ 16) :
    ∃ v', Inv b (s.doItemRemove x) v' refs ∧ Quiet s (s.doItemRemove x) v v' := by
  obtain ⟨v', hv', hq, -⟩ := h.doItemRemove (x := x)
    (by rw [Function.update_self]; omega) hle
  rw [Function.update_self, update_back] at hv'
  exact ⟨v', hv', hq⟩

/-! ## `DoItemUnlink` -/

theorem unlinkCore_sameData (s : Store) (x : Ptr) (hv : UInt32) :
    SameData s (s.unlinkCore x hv) ∧ (s.unlinkCore x hv).heap.time = s.heap.time := by
  obtain ⟨a, ha, -⟩ := (s.markUnlinked x).assocDelete_frame (s.heap.key x) hv
  unfold Store.unlinkCore
  rw [ha]
  refine ⟨⟨rfl, rfl, rfl, rfl, rfl, rfl, fun y => ?_, rfl, rfl, rfl, rfl, rfl, fun _ => .refl _, rfl⟩, rfl⟩
  by_cases e : y = x
  · subst e; simp [Store.doItemUnlinkQ, Store.markUnlinked, Store.setFlags]
  · simp [Store.doItemUnlinkQ, Store.markUnlinked, Store.setFlags, e]

theorem unlinkCore_clsid (s : Store) (x : Ptr) (hv : UInt32) :
    (s.unlinkCore x hv).heap.slabsClsid = s.heap.slabsClsid ∧ (s.unlinkCore x hv).slabs = s.slabs ∧
      (s.unlinkCore x hv).heap.refcount = s.heap.refcount := by
  obtain ⟨a, ha, -⟩ := (s.markUnlinked x).assocDelete_frame (s.heap.key x) hv
  rw [Store.unlinkCore, ha]
  exact ⟨rfl, rfl, rfl⟩

theorem doItemUnlink_unlinked (h : Inv b s v refs) (hx : x.isChunk = true) (hl : x ∉ v.items)
    (hv : UInt32) : s.doItemUnlink x hv = s := by
  unfold Store.doItemUnlink
  rw [if_neg fun hlk => hl (h.mem_of_linked hx hlk)]

/-- **`DoItemUnlink`** drops a linked item; its references stay. -/
theorem doItemUnlink (h : Inv b s v refs) (hx : x ∈ v.items) (hle : refs x ≤ 65535) :
    ∃ v', Inv b (s.doItemUnlink x (s.hash (s.heap.key x))) v' refs ∧
      Drops s (s.doItemUnlink x (s.hash (s.heap.key x))) v v' x := by
  have h1 := h.unlinkCore hx
  obtain ⟨d1, t1⟩ := unlinkCore_sameData s x (s.hash (s.heap.key x))
  have hni : x ∉ v.items.erase x := h.table.holds.nodup.not_mem_erase
  have hrc := h1.refcount_unlinked (h.items_alloc x hx) hni
  rw [Function.update_self] at hrc
  obtain ⟨v', hv', hq⟩ := h1.release (h.held_le x) (by omega)
  unfold Store.doItemUnlink
  rw [if_pos (h.linked_of_mem hx)]
  exact ⟨v', hv', d1.trans hq.data, hq.time.trans t1, hq.items, hq.queue⟩

/-- Unlinking an item and giving back a reference to it, as all those do that find it expired. -/
theorem drop (h : Inv b s v (Function.update refs x (refs x + 1))) (hx : x ∈ v.items)
    (hheld : b.held x ≤ refs x) (hle : refs x ≤ 65534) :
    ∃ v', Inv b ((s.doItemUnlink x (s.hash (s.heap.key x))).doItemRemove x) v' refs ∧
      Drops s ((s.doItemUnlink x (s.hash (s.heap.key x))).doItemRemove x) v v' x := by
  obtain ⟨v1, h1, d1⟩ := h.doItemUnlink hx (by rw [Function.update_self]; omega)
  have hni : x ∉ v1.items := by rw [d1.items]; exact h.table.holds.nodup.not_mem_erase
  have ha : v1.Alloc x := h1.alloc_of_refs (by rw [Function.update_self]; omega)
  have hrc := h1.refcount_unlinked ha hni
  rw [Function.update_self] at hrc
  obtain ⟨v', hv', hq⟩ := h1.release hheld (by omega)
  exact ⟨v', hv', d1.data.trans hq.data, hq.time.trans d1.time, hq.items.trans d1.items,
    hq.queue.trans d1.queue⟩

/-! ## `DoItemGet` -/

theorem isDead_congr {s s' : Store} (h : SameData s s') {x : Ptr}
    (ht : s'.heap.time x = s.heap.time x) : s'.isDead x ↔ s.isDead x := by
  simp only [Store.isDead, h.isFlushed ht, h.now, h.exptime]

theorem assocFind_iff (h : Inv b s v refs) : s.assocFind k (s.hash k) = some x ↔
    x ∈ v.items ∧ s.heap.key x = k := h.table.assocFind_eq_some_iff k x

theorem new_of_find (h : Inv b s v refs) (hf : s.assocFind k (s.hash k) = none) :
    ∀ y ∈ v.items, s.heap.key y ≠ k := fun y hy e => by
  rw [h.assocFind_iff.mpr ⟨hy, e⟩] at hf
  cases hf

theorem doItemGet_none (h : Inv b s v refs) (hk : ∀ x ∈ v.items, s.heap.key x ≠ k) :
    s.doItemGet k (s.hash k) = (none, s) := by
  have hf : s.assocFind k (s.hash k) = none := by
    rw [Option.eq_none_iff_forall_ne_some]
    intro x hx
    obtain ⟨hx, e⟩ := h.assocFind_iff.mp hx
    exact hk x hx e
  simp only [Store.doItemGet, hf]

/-- **`DoItemGet` of a dead item** drops it. -/
theorem doItemGet_dead (h : Inv b s v refs) (hx : x ∈ v.items) (hk : s.heap.key x = k)
    (hd : s.isDead x) (hle : refs x ≤ 65534) :
    ∃ s' v', s.doItemGet k (s.hash k) = (none, s') ∧ Inv b s' v' refs ∧ Drops s s' v v' x := by
  have hf := h.assocFind_iff.mpr ⟨hx, hk⟩
  have hq := incr_quiet s v x
  have hd' : (s.refcountIncr x).2.isDead x := (isDead_congr hq.data (by rw [hq.time])).mpr hd
  obtain ⟨v', hv', d⟩ := (h.incr (h.items_alloc x hx)).drop hx (h.held_le x) hle
  have he : s.hash k = (s.refcountIncr x).2.hash ((s.refcountIncr x).2.heap.key x) := by
    rw [← hk]; rfl
  rw [← he] at hv' d
  refine ⟨_, v', ?_, hv', hq.data.trans d.data, d.time, d.items, d.queue⟩
  simp only [Store.doItemGet, hf, if_pos hd']

/-- **`DoItemGet` of a live item** returns it, with a reference. -/
theorem doItemGet_hit (h : Inv b s v refs) (hx : x ∈ v.items) (hk : s.heap.key x = k)
    (hd : ¬ s.isDead x) :
    ∃ s', s.doItemGet k (s.hash k) = (some x, s') ∧
      Inv b s' v (Function.update refs x (refs x + 1)) ∧ Quiet s s' v v := by
  have hf := h.assocFind_iff.mpr ⟨hx, hk⟩
  have hq := incr_quiet s v x
  have hd' : ¬ (s.refcountIncr x).2.isDead x := fun hd' =>
    hd ((isDead_congr hq.data (by rw [hq.time])).mp hd')
  have h1 := h.incr (h.items_alloc x hx)
  refine ⟨(s.refcountIncr x).2.setFlags x
    { (s.refcountIncr x).2.flags x with fetched := true, active := true }, ?_,
    h1.setFlags (h.items_alloc x hx) rfl rfl rfl, hq.trans (setFlags_quiet _ v x rfl)⟩
  simp only [Store.doItemGet, hf, if_neg hd']

/-! ## New places in the queues -/

theorem setClsid_self (s : Store) (x : Ptr) : s.setClsid x (s.heap.slabsClsid x) = s := by
  simp only [Store.setClsid, Function.update_eq_self]

/-- Relinking at the end of the same queue. -/
theorem relinkSame (h : Inv b s v refs) (hx : x ∈ v.items) :
    Inv b ((s.doItemUnlinkQ x false).doItemLinkQ x false)
      { v with queue := moveQueue v.queue x (s.heap.slabsClsid x) (s.heap.slabsClsid x) } refs := by
  obtain ⟨c, hc⟩ := h.items_alloc x hx
  have := h.relink hx rfl (h.alloc_ok c x hc).clsid_lt
  rwa [show (s.doItemUnlinkQ x false).setClsid x (s.heap.slabsClsid x) = s.doItemUnlinkQ x false from
    setClsid_self (s.doItemUnlinkQ x false) x] at this

theorem setTime_moves (s : Store) (v : View) (x : Ptr) (n : UInt32) (queue : ℕ → List Ptr) :
    Moves s (s.setTime x n) v { v with queue := queue } x :=
  ⟨⟨rfl, rfl, rfl, rfl, rfl, rfl, fun _ => rfl, rfl, rfl, rfl, rfl, rfl, fun _ => .refl _, rfl⟩,
    fun _ hy => Function.update_of_ne hy _ _, rfl⟩

/-- **`DoItemUpdate`.** -/
theorem doItemUpdate (h : Inv b s v refs) (hx : x.isChunk = true) :
    ∃ v', Inv b (s.doItemUpdate x) v' refs ∧ Moves s (s.doItemUpdate x) v v' x := by
  have hrefl : Moves s s v v x := ⟨.refl s, fun _ _ => rfl, rfl⟩
  unfold Store.doItemUpdate
  split_ifs with h1 h2
  · exact ⟨v, h, hrefl⟩
  · exact ⟨v, h, hrefl⟩
  · have ht := h.setTime x s.now
    have hm := setTime_moves s v x s.now
    have hxi : x ∈ v.items := h.mem_of_linked hx (by simpa using h2)
    dsimp only
    split_ifs
    · exact ⟨v, ht, hm v.queue⟩
    · exact ⟨_, ht.relinkSame hxi, (hm (fun _ => [])).data.trans
        ⟨rfl, rfl, rfl, rfl, rfl, rfl, fun _ => rfl, rfl, rfl, rfl, rfl, rfl, fun _ => .refl _, rfl⟩,
        (hm v.queue).time, rfl⟩

end Inv

end Mdb
