import Mdb.Store.Inv

/-!
# The elementary steps

What the pieces of the item operations do to the invariant.

* `Inv.agree`: what the invariant does not read; `Inv.touch`: a step at one item;
* `Inv.incr`, `Inv.freeItem`, `Inv.doItemRemove`: references;
* `Inv.setFlags`, `Inv.relink`: flags and queues;
* `Inv.unlinkCore`, `Inv.doItemLink`, `Inv.migrateBucket`: the table.
-/

namespace Mdb

open Dll

namespace Inv

variable {b : Base} {s : Store} {v : View} {refs : Ptr → ℕ} {x : Ptr}

/-- Two stores agree on all that the invariant reads. -/
structure Agree (s t : Store) : Prop where
  next : t.heap.next = s.heap.next
  prev : t.heap.prev = s.heap.prev
  nbytes : t.heap.nbytes = s.heap.nbytes
  refcount : t.heap.refcount = s.heap.refcount
  itFlags : t.heap.itFlags = s.heap.itFlags
  slabsClsid : t.heap.slabsClsid = s.heap.slabsClsid
  key : t.heap.key = s.heap.key
  lru : t.lru = s.lru
  assoc : t.assoc = s.assoc
  slabs : t.slabs = s.slabs
  settings : t.settings = s.settings
  hash : t.hash = s.hash
  trace : t.trace = s.trace
  suffix : t.heap.suffix = s.heap.suffix
  currItems : t.stats.currItems = s.stats.currItems
  currBytes : t.stats.currBytes = s.stats.currBytes
  hashBytes : t.stats.hashBytes = s.stats.hashBytes
  hashIsExpanding : t.stats.hashIsExpanding = s.stats.hashIsExpanding
  crawlerCount : t.crawlers.crawlerCount = s.crawlers.crawlerCount

theorem agree {t : Store} (h : Inv b s v refs) (e : Agree s t) : Inv b t v refs where
  queues := by rw [e.next, e.prev, e.lru]; exact h.queues
  table := by rw [e.key, e.hash, e.assoc]; exact h.table
  hashpower_le := by rw [e.assoc]; exact h.hashpower_le
  slabs := by
    simp only [Store.SlabsOk, e.next, e.prev, e.itFlags, e.slabsClsid, e.slabs, e.settings]
    exact h.slabs
  linked_iff := by rw [e.itFlags]; exact h.linked_iff
  items_alloc := h.items_alloc
  queue_iff := by rw [e.itFlags, e.slabsClsid]; exact h.queue_iff
  crawler := by rw [e.itFlags, e.slabsClsid, e.nbytes, e.key]; exact h.crawler
  alloc_ok c y hy := by
    have hc := h.alloc_ok c y hy
    exact ⟨by rw [e.slabsClsid]; exact hc.clsid, by rw [e.slabsClsid]; exact hc.clsid_lt,
      by rw [e.itFlags]; exact hc.slabbed, by rw [e.nbytes]; exact hc.nbytes,
      by rw [e.refcount, e.itFlags]; exact hc.refcount, by rw [e.refcount]; exact hc.pos⟩
  refs_zero := h.refs_zero
  live := by rw [e.trace]; exact h.live
  trace := by rw [e.trace]; exact h.trace
  held_le := h.held_le
  events := by rw [e.trace]; exact h.events
  casBit := by rw [e.itFlags, e.settings]; exact h.casBit
  gone c y hy := (h.gone c y hy).congr (by rw [e.slabsClsid]) (by rw [e.refcount])
    (by rw [e.itFlags])
  counters := by
    have hn : ∀ y, t.heap.ntotal y = s.heap.ntotal y := fun y => by
      simp only [Heap.ntotal, Heap.nkey, e.key, e.suffix, e.nbytes, e.itFlags]
    refine h.counters.congr ⟨e.currItems, e.currBytes⟩ ⟨?_, ?_⟩
      (fun c => by rw [e.slabs]; exact ⟨rfl, rfl⟩) (fun y _ => hn y) fun _ y _ => hn y
    · rw [e.hashIsExpanding, e.assoc]; exact h.counters.hash.expanding
    · rw [e.hashBytes, e.assoc]; exact h.counters.hash.bytes
  crawlers := h.crawlers.congr e.crawlerCount fun q => by rw [e.itFlags]

/-! ## Steps at one item -/

/-- Of the items only `x` was touched, apart from the links of the queues. -/
structure Touches (s t : Store) (v : View) (x : Ptr) : Prop where
  itFlags : ∀ y, y ≠ x → t.heap.itFlags y = s.heap.itFlags y
  slabsClsid : ∀ y, y ≠ x → t.heap.slabsClsid y = s.heap.slabsClsid y
  refcount : ∀ y, y ≠ x → t.heap.refcount y = s.heap.refcount y
  cas : (t.heap.itFlags x).cas = (s.heap.itFlags x).cas
  links : ∀ c, ∀ y ∈ v.free c, t.heap.next y = s.heap.next y ∧ t.heap.prev y = s.heap.prev y
  key : t.heap.key = s.heap.key
  nbytes : t.heap.nbytes = s.heap.nbytes
  suffix : t.heap.suffix = s.heap.suffix
  slabs : t.slabs = s.slabs
  settings : t.settings = s.settings
  trace : t.trace = s.trace
  crawlerCount : t.crawlers.crawlerCount = s.crawlers.crawlerCount

theorem Touches.casBit {t : Store} (e : Touches s t v x) (y : Ptr) :
    (t.heap.itFlags y).cas = (s.heap.itFlags y).cas := by
  by_cases ey : y = x
  · subst ey; exact e.cas
  · rw [e.itFlags y ey]

theorem Touches.ntotal {t : Store} (e : Touches s t v x) (y : Ptr) :
    t.heap.ntotal y = s.heap.ntotal y := by
  simp only [Heap.ntotal, Heap.nkey, e.key, e.suffix, e.nbytes, e.casBit]

theorem Touches.counters {t : Store} (e : Touches s t v x) (h : Inv b s v refs)
    (hst : t.stats = s.stats) (ha : t.assoc = s.assoc) :
    Counters t v.items v.alloc b.moved.lost := by
  refine h.counters.congr ⟨by rw [hst], by rw [hst]⟩ (by rw [hst, ha]; exact h.counters.hash)
    (fun _ => by rw [e.slabs]; exact ⟨rfl, rfl⟩) (fun y _ => e.ntotal y) fun _ y _ => e.ntotal y

/-- **A step at one item that is handed out**: what is left to show is about its place in the
table and the queues, and about its references. -/
theorem touch (h : Inv b s v refs) {t : Store} {queue : ℕ → List Ptr} {items : List Ptr}
    {refs' : Ptr → ℕ} (hx : v.Alloc x) (e : Touches s t v x)
    (hqueues : QueuesOk t.heap.next t.heap.prev t.lru queue)
    (hqueue : ∀ y q, y ≠ x → (y ∈ queue q ↔ y ∈ v.queue q))
    (hqueuex : ∀ q, x ∈ queue q ↔ x ∈ items ∧ t.heap.slabsClsid x = q)
    (htable : TableOk t.heap.key t.hash t.assoc items) (hp : t.assoc.hashpower ≤ 31)
    (hitems : ∀ y, y ≠ x → (y ∈ items ↔ y ∈ v.items))
    (hlinked : (t.heap.itFlags x).linked = true ↔ x ∈ items)
    (hrefs : ∀ y, y ≠ x → refs' y = refs y) (hheld : b.held x ≤ refs' x)
    (hok : ∀ c, x ∈ v.alloc c → ChunkOk t.heap refs' c x)
    (hcount : Counters t items v.alloc b.moved.lost) :
    Inv b t { v with queue := queue, items := items } refs' := by
  have hxc := h.alloc_isChunk hx
  have hcr : ∀ q, .crawler q ≠ x := by rintro q rfl; cases hxc
  refine ⟨hqueues, htable, hp, ?_, fun a => ?_, fun y hy => ?_, fun y q => ?_, fun q hq => ?_,
    fun c y hy => ?_, fun y hy => ?_, ?_, ?_, fun y => ?_, ?_, fun y hy => ?_, fun c y hy => ?_,
    hcount, h.crawlers.congr e.crawlerCount fun q => e.itFlags _ (hcr q)⟩
  · simp only [Store.SlabsOk, e.slabs, e.settings]
    refine h.slabs.congr fun c y hy => ?_
    have hne : y ≠ x := by
      rintro rfl
      obtain ⟨c', hc⟩ := hx
      exact h.alloc_not_free hc c hy
    exact ⟨(e.links c y hy).1, (e.links c y hy).2, e.itFlags y hne, e.slabsClsid y hne⟩
  · by_cases ey : .chunk a = x
    · rw [ey]; exact hlinked
    · rw [e.itFlags _ ey, hitems _ ey]; exact h.linked_iff a
  · by_cases ey : y = x
    · exact ey ▸ hx
    · exact h.items_alloc y ((hitems y ey).mp hy)
  · by_cases ey : y = x
    · subst ey
      rw [hqueuex]
      exact (or_iff_left fun hc => hcr q hc.1.symm).symm
    · simp only
      rw [hqueue y q ey, h.queue_iff, hitems y ey, e.slabsClsid y ey, e.itFlags y ey]
  · rw [e.itFlags _ (hcr q)] at hq
    rw [e.slabsClsid _ (hcr q), e.nbytes, e.key]
    exact h.crawler q hq
  · by_cases ey : y = x
    · subst ey; exact hok c hy
    · have hc := h.alloc_ok c y hy
      exact ⟨by rw [e.slabsClsid y ey]; exact hc.clsid, by rw [e.slabsClsid y ey]; exact hc.clsid_lt,
        by rw [e.itFlags y ey]; exact hc.slabbed, by rw [e.nbytes]; exact hc.nbytes,
        by rw [e.refcount y ey, e.itFlags y ey, hrefs y ey]; exact hc.refcount,
        by rw [e.refcount y ey]; exact hc.pos⟩
  · rw [hrefs y fun ey => hy (ey ▸ hx)]
    exact h.refs_zero y hy
  · rw [e.trace]; exact h.live
  · rw [e.trace]; exact h.trace
  · by_cases ey : y = x
    · subst ey; exact hheld
    · rw [hrefs y ey]; exact h.held_le y
  · rw [e.trace]; exact h.events
  · rw [e.casBit, e.settings]; exact h.casBit y hy
  · have hne := h.gone_ne hy hx
    exact (h.gone c y hy).congr (e.slabsClsid y hne) (e.refcount y hne) (e.itFlags y hne)

/-! ## References -/

theorem chunkOk_congr {h h' : Heap} {refs refs' : Ptr → ℕ} {c : ℕ} (hc : ChunkOk h refs c x)
    (e : h.SameAt h' x) (er : refs' x = refs x) : ChunkOk h' refs' c x where
  clsid := by rw [e.slabsClsid]; exact hc.clsid
  clsid_lt := by rw [e.slabsClsid]; exact hc.clsid_lt
  slabbed := by rw [e.itFlags]; exact hc.slabbed
  nbytes := by rw [e.nbytes]; exact hc.nbytes
  refcount := by rw [e.refcount, e.itFlags, er]; exact hc.refcount
  pos := by rw [e.refcount]; exact hc.pos

/-- Setting one reference count, and what it is said to count. -/
theorem setRefcount (h : Inv b s v refs) (hx : v.Alloc x) {n r : ℕ}
    (hn : n = (if (s.heap.itFlags x).linked then 1 else 0) + r) (hpos : 1 ≤ n)
    (hheld : b.held x ≤ r) :
    Inv b (s.setRefcount x n) v (Function.update refs x r) := by
  have ht : Touches s (s.setRefcount x n) v x :=
    ⟨fun _ _ => rfl, fun _ _ => rfl, fun _ hy => Function.update_of_ne hy _ _, rfl,
      fun _ _ _ => ⟨rfl, rfl⟩, rfl, rfl, rfl, rfl, rfl, rfl, rfl⟩
  have hrc : (s.setRefcount x n).heap.refcount x = n := Function.update_self _ _ _
  refine h.touch hx ht h.queues (fun _ _ _ => Iff.rfl) (h.mem_queue_iff hx) h.table h.hashpower_le
    (fun _ _ => Iff.rfl) (h.mem_items hx).symm (fun y hy => Function.update_of_ne hy _ _)
    (by rw [Function.update_self]; exact hheld) (fun c hc => ?_) (ht.counters h rfl rfl)
  have hok := h.alloc_ok c x hc
  refine ⟨hok.clsid, hok.clsid_lt, hok.slabbed, hok.nbytes, ?_, by rw [hrc]; exact hpos⟩
  rw [hrc, Function.update_self]
  exact hn

/-- **`RefcountIncr`.** -/
theorem incr (h : Inv b s v refs) (hx : v.Alloc x) :
    Inv b (s.refcountIncr x).2 v (Function.update refs x (refs x + 1)) := by
  obtain ⟨c, hc⟩ := hx
  have hok := h.alloc_ok c x hc
  refine h.setRefcount ⟨c, hc⟩ ?_ (by omega) ((h.held_le x).trans (Nat.le_succ _))
  rw [hok.refcount]
  omega

theorem incr_quiet (s : Store) (v : View) (x : Ptr) : Quiet s (s.refcountIncr x).2 v v :=
  ⟨⟨rfl, rfl, rfl, rfl, rfl, rfl, fun _ => rfl, rfl, rfl, rfl, rfl, rfl, fun _ => .refl _, rfl⟩,
    rfl, rfl, rfl⟩

theorem freeItem_sameData (s : Store) (x : Ptr) :
    SameData s (s.freeItem x) ∧ (s.freeItem x).heap.time = s.heap.time := by
  unfold Store.freeItem Store.doSlabsFree
  split_ifs
  · refine ⟨⟨rfl, rfl, rfl, rfl, rfl, rfl, fun y => ?_, rfl, rfl, rfl, rfl, rfl, fun c => ?_, rfl⟩, rfl⟩
    · by_cases e : y = x
      · subst e; simp [Store.setFlags, Store.setClsid, Store.setClass]
      · simp [Store.setFlags, Store.setClsid, Store.setClass, e]
    · by_cases e : c = clearLru (s.heap.slabsClsid x)
      · subst e
        simp only [Store.setClass, Function.update_self]
        exact ⟨rfl, rfl, rfl, rfl, le_rfl⟩
      · simp only [Store.setClass, Function.update_of_ne e]
        exact .refl _
  · exact ⟨⟨rfl, rfl, rfl, rfl, rfl, rfl, fun _ => rfl, rfl, rfl, rfl, rfl, rfl, fun _ => .refl _, rfl⟩,
      rfl⟩

/-- The items handed out, without `x`. -/
theorem mem_alloc_erase (h : Inv b s v refs) {c : ℕ} (hx : x ∈ v.alloc c) (c' : ℕ) (y : Ptr) :
    y ∈ Function.update v.alloc c ((v.alloc c).erase x) c' ↔ y ∈ v.alloc c' ∧ y ≠ x := by
  rw [QueuesOk.mem_update_erase _ _ _ _ _ (h.alloc_nodup c)]
  refine and_congr_right fun hy => ⟨fun himp e => ?_, fun hne _ => hne⟩
  subst e
  exact himp (h.alloc_unique hy hx) rfl

/-- Chunk `x` and the freelists were written, and nothing else that the invariant reads. -/
structure Aside (s t : Store) (v : View) (x : Ptr) : Prop where
  same : ∀ y, y ≠ x → s.heap.SameAt t.heap y
  links : ∀ q, ∀ y ∈ v.queue q, t.heap.next y = s.heap.next y ∧ t.heap.prev y = s.heap.prev y
  unlinked : (t.heap.itFlags x).linked = false
  lru : t.lru = s.lru
  assoc : t.assoc = s.assoc
  hash : t.hash = s.hash
  settings : t.settings = s.settings
  crawlers : t.crawlers = s.crawlers

/-- **A chunk that is not linked is put aside**, on a freelist or to the rebalancer: what is left to
show is about the allocator. -/
theorem aside (h : Inv b s v refs) {t : Store} {free alloc : ℕ → List Ptr} {m : Moved}
    (e : Aside s t v x) (hxc : x.isChunk = true) (hl : x ∉ v.items) (hheld : b.held x = 0)
    (halloc : ∀ c y, y ∈ alloc c ↔ y ∈ v.alloc c ∧ y ≠ x)
    (hslabs : t.SlabsOk free (Base.taken ⟨b.held, b.trace, m⟩ ⟨v.queue, free, alloc, v.items⟩))
    (hgone : ∀ c, ∀ y ∈ m.gone c, Killed t.heap y)
    (hlive : ∀ y, IsLive t.trace y ↔ IsLive s.trace y ∧ y ≠ x) (htrace : TraceOk t.trace)
    (hev : ∃ evs, t.trace = evs ++ s.trace ∧ ∀ ev ∈ evs, ev.Ok b.held)
    (hcount : Counters t v.items alloc m.lost) :
    Inv ⟨b.held, b.trace, m⟩ t ⟨v.queue, free, alloc, v.items⟩ (Function.update refs x 0) := by
  have hne : ∀ y ∈ v.items, y ≠ x := fun y hy => ne_of_mem_of_not_mem hy hl
  have hcr : ∀ q, .crawler q ≠ x := by rintro q rfl; cases hxc
  have hAlloc : ∀ y, (∃ c, y ∈ alloc c) ↔ v.Alloc y ∧ y ≠ x := fun y => by
    simp only [halloc, exists_and_right]
    rfl
  refine ⟨?_, ?_, ?_, hslabs, fun a => ?_, fun y hy => ?_, fun y q => ?_, fun q hq => ?_,
    fun c y hy => ?_, fun y hy => ?_, fun y => ?_, htrace, fun y => ?_, ?_, fun y hy => ?_, hgone,
    hcount, ?_⟩
  · rw [e.lru]
    exact h.queues.congr e.links
  · rw [e.assoc, e.hash]
    exact h.table.congr fun y hy => (e.same y (hne y hy)).key
  · rw [e.assoc]; exact h.hashpower_le
  · by_cases ex : .chunk a = x
    · rw [ex, e.unlinked]
      exact iff_of_false Bool.false_ne_true hl
    · rw [(e.same _ ex).itFlags]; exact h.linked_iff a
  · exact (hAlloc y).mpr ⟨h.items_alloc y hy, hne y hy⟩
  · simp only
    rw [h.queue_iff]
    refine or_congr (and_congr_right fun hy => ?_) (and_congr_right fun hy => ?_)
    · rw [(e.same y (hne y hy)).slabsClsid]
    · subst hy
      rw [(e.same _ (hcr q)).itFlags]
  · have es := e.same (.crawler q) (hcr q)
    rw [es.itFlags] at hq
    rw [es.slabsClsid, es.nbytes, es.key]
    exact h.crawler q hq
  · obtain ⟨hy, hyx⟩ := (halloc c y).mp hy
    exact chunkOk_congr (h.alloc_ok c y hy) (e.same y hyx) (Function.update_of_ne hyx _ _)
  · by_cases ey : y = x
    · subst ey; rw [Function.update_self]
    · rw [Function.update_of_ne ey]
      exact h.refs_zero y fun ha => hy ((hAlloc y).mpr ⟨ha, ey⟩)
  · rw [hlive, h.live]
    exact (hAlloc y).symm
  · by_cases ey : y = x
    · subst ey
      show b.held y ≤ _
      rw [hheld]; exact Nat.zero_le _
    · rw [Function.update_of_ne ey]; exact h.held_le y
  · obtain ⟨evs, he, hok⟩ := h.events
    obtain ⟨evs', he', hok'⟩ := hev
    refine ⟨evs' ++ evs, by rw [he', he, List.append_assoc], fun ev hm => ?_⟩
    exact (List.mem_append.mp hm).elim (hok' ev) (hok ev)
  · obtain ⟨ha, hyx⟩ := (hAlloc y).mp hy
    rw [(e.same y hyx).itFlags, e.settings]
    exact h.casBit y ha
  · exact h.crawlers.congr (by rw [e.crawlers]) fun q => (e.same _ (hcr q)).itFlags

theorem unlinked_of_not_mem (h : Inv b s v refs) (hx : v.Alloc x) (hl : x ∉ v.items) :
    (s.heap.itFlags x).linked = false := by
  cases hb : (s.heap.itFlags x).linked with
  | false => rfl
  | true => exact absurd ((h.mem_items hx).mpr hb) hl

/-- A release is noted. -/
theorem free_trace (h : Inv b s v refs) {t : Store} (hx : v.Alloc x)
    (ht : t.trace = .free x false :: s.trace) (hheld : b.held x = 0) :
    (∀ y, IsLive t.trace y ↔ IsLive s.trace y ∧ y ≠ x) ∧ TraceOk t.trace ∧
      ∃ evs, t.trace = evs ++ s.trace ∧ ∀ ev ∈ evs, ev.Ok b.held := by
  rw [ht]
  refine ⟨fun y => and_comm, ⟨(h.live x).mpr hx, rfl, h.trace⟩, [.free x false], rfl, fun ev hm => ?_⟩
  rw [List.mem_singleton.mp hm]
  exact ⟨rfl, hheld⟩

/-- **`FreeItem`** of an unlinked item without references: its chunk goes back. -/
theorem freeItem (h : Inv b s v refs) {c : ℕ} (hx : x ∈ v.alloc c) (hl : x ∉ v.items)
    (hheld : b.held x = 0) :
    Inv b ((s.setRefcount x 0).freeItem x)
      { v with
        free := Function.update v.free c (x :: v.free c)
        alloc := Function.update v.alloc c ((v.alloc c).erase x) }
      (Function.update refs x 0) := by
  have hcls := (h.alloc_ok c x hx).clsid
  have hunl := h.unlinked_of_not_mem ⟨c, hx⟩ hl
  obtain ⟨t, ht⟩ : ∃ t, t = ({ s.setRefcount x 0 with
      trace := .free x ((s.setRefcount x 0).flags x).linked :: s.trace } : Store) := ⟨_, rfl⟩
  have hsl : t.SlabsOk v.free (b.taken v) := by rw [ht]; exact h.slabs
  have hid : t.slabs.InRange c := hsl.inRange (.inr (mem_taken hx))
  have hok := hsl.doSlabsFree (mem_taken hx) (t.heap.ntotal x)
  rw [taken_erase b v hx (Function.update v.free c (x :: v.free c))] at hok
  have hfr := hsl.freelists.doSlabsFree_frame x hid (t.heap.ntotal x)
  have he : (s.setRefcount x 0).freeItem x = t.doSlabsFree x (t.heap.ntotal x) c := by
    rw [Store.freeItem, ← hcls, ht]; rfl
  obtain ⟨hp, cls, hs⟩ := hfr.store
  have hn := (freeItem_sameData (s.setRefcount x 0) x).1.ntotal
  rw [he] at hn
  have hxc : x.isChunk = true := h.alloc_isChunk ⟨c, hx⟩
  have hsame : ∀ y, y ≠ x → s.heap.SameAt (t.doSlabsFree x (t.heap.ntotal x) c).heap y := by
    intro y hy
    refine Heap.SameAt.trans ?_ (hfr.same y (by simpa using hy))
    rw [ht]
    exact ⟨rfl, rfl, rfl, Function.update_of_ne hy _ _, rfl, rfl, rfl, rfl, rfl, rfl⟩
  have haside : Aside s (t.doSlabsFree x (t.heap.ntotal x) c) v x := by
    refine ⟨hsame, fun q y hy => ?_, ?_, by rw [hs, ht]; rfl, by rw [hs, ht]; rfl,
      by rw [hs, ht]; rfl, by rw [hs, ht]; rfl, by rw [hs, ht]; rfl⟩
    · have hne : y ∉ [x] := by
        rw [List.mem_singleton]
        rintro rfl
        exact hl ((h.mem_queue_iff ⟨c, hx⟩ q).mp hy).1
      have h1 := hfr.next y hne
      have h2 := hfr.prev y hne (h.queue_not_free hy c)
      rw [ht] at h1 h2 ⊢
      exact ⟨h1, h2⟩
    · rw [hfr.linked, ht]; exact hunl
  obtain ⟨hlive, htrace, hev⟩ := h.free_trace (t := t.doSlabsFree x (t.heap.ntotal x) c) ⟨c, hx⟩
    (by rw [hs, ht]; simp only [Store.setRefcount, Store.flags, hunl]) hheld
  rw [he]
  refine h.aside haside hxc hl hheld (h.mem_alloc_erase hx) hok (fun c' y hy => ?_) hlive htrace hev ?_
  · have e := hsame y (h.gone_ne hy ⟨c, hx⟩)
    exact (h.gone c' y hy).congr e.slabsClsid e.refcount e.itFlags
  · refine h.counters.free hx (by rw [hs, ht]; rfl) (by rw [hs, ht]; rfl) (fun c' => ?_)
      (fun c' => ?_) hn
    · rw [FreelistsOk.doSlabsFree_requested t x _ hid, ht]; rfl
    · obtain ⟨_, _, _, e⟩ := hfr.cls c'
      rw [e, ht]; rfl

theorem doItemRemove_sameData (s : Store) (x : Ptr) :
    SameData s (s.doItemRemove x) ∧ (s.doItemRemove x).heap.time = s.heap.time := by
  have h1 : SameData s (s.refcountDecr x).2 :=
    ⟨rfl, rfl, rfl, rfl, rfl, rfl, fun _ => rfl, rfl, rfl, rfl, rfl, rfl, fun _ => .refl _, rfl⟩
  unfold Store.doItemRemove
  split_ifs
  · obtain ⟨h2, ht⟩ := freeItem_sameData (s.refcountDecr x).2 x
    exact ⟨h1.trans h2, ht⟩
  · exact ⟨h1, rfl⟩

/-- **`DoItemRemove`**: one reference less. The item's chunk goes back if that was the last one. -/
theorem doItemRemove (h : Inv b s v refs) (hheld : b.held x < refs x)
    (hle : s.heap.refcount x ≤ 2 ^ 16) :
    ∃ v', Inv b (s.doItemRemove x) v' (Function.update refs x (refs x - 1)) ∧
      Quiet s (s.doItemRemove x) v v' ∧
      ∀ y, v'.Alloc y ↔ v.Alloc y ∧ (y = x → x ∈ v.items ∨ 2 ≤ refs x) := by
  obtain ⟨hdata, htime⟩ := doItemRemove_sameData s x
  obtain ⟨c, hc⟩ := h.alloc_of_refs (x := x) (by omega)
  have hok := h.alloc_ok c x hc
  have hmem := h.mem_items ⟨c, hc⟩
  have hn0 : s.heap.refcount x ≠ 0 := by have := hok.pos; omega
  have hdec : s.refcountDecr x = ((s.heap.refcount x - 1) % 2 ^ 16,
      s.setRefcount x (s.heap.refcount x - 1)) := by
    simp only [Store.refcountDecr, if_neg hn0]
  have hrc := hok.refcount
  unfold Store.doItemRemove at hdata htime ⊢
  rw [hdec] at hdata htime ⊢
  by_cases hlast : s.heap.refcount x = 1
  · -- the last reference, and no link
    have hunl : (s.heap.itFlags x).linked = false := by
      cases hl : (s.heap.itFlags x).linked with
      | false => rfl
      | true => simp only [hl, if_true] at hrc; omega
    simp only [hunl, Bool.false_eq_true, if_false] at hrc
    have hni : x ∉ v.items := fun hm => by rw [hmem.mp hm] at hunl; cases hunl
    simp only [hlast, Nat.sub_self, Nat.zero_mod, if_true] at hdata htime ⊢
    have hinv := h.freeItem hc hni (by omega)
    have hr : refs x - 1 = 0 := by omega
    rw [hr]
    refine ⟨_, hinv, ⟨hdata, htime, rfl, rfl⟩, fun y => ?_⟩
    constructor
    · rintro ⟨c', hy⟩
      obtain ⟨hy, hne⟩ := (h.mem_alloc_erase hc c' y).mp hy
      exact ⟨⟨c', hy⟩, fun e => absurd e hne⟩
    · rintro ⟨⟨c', hy⟩, himp⟩
      refine ⟨c', (h.mem_alloc_erase hc c' y).mpr ⟨hy, fun e => ?_⟩⟩
      rcases himp e with hm | hm
      · exact hni hm
      · omega
  · have hmod : ¬ (s.heap.refcount x - 1) % 2 ^ 16 = 0 := by omega
    simp only [if_neg hmod] at hdata htime ⊢
    refine ⟨v, h.setRefcount ⟨c, hc⟩ (by omega) (by omega) (by omega), ⟨hdata, htime, rfl, rfl⟩,
      fun y => ⟨fun hy => ⟨hy, fun _ => ?_⟩, fun hy => hy.1⟩⟩
    by_cases hl : (s.heap.itFlags x).linked = true
    · exact .inl (hmem.mpr hl)
    · simp only [hl, Bool.false_eq_true, if_false] at hrc
      exact .inr (by omega)

/-! ## Flags and queues -/

/-- Flags other than the linked and slabbed bits. -/
theorem setFlags (h : Inv b s v refs) (hx : v.Alloc x) {f : ItemFlags}
    (hl : f.linked = (s.heap.itFlags x).linked) (hs : f.slabbed = (s.heap.itFlags x).slabbed)
    (hc : f.cas = (s.heap.itFlags x).cas) : Inv b (s.setFlags x f) v refs := by
  have hfx : (s.setFlags x f).heap.itFlags x = f := Function.update_self _ _ _
  have ht : Touches s (s.setFlags x f) v x :=
    ⟨fun _ hy => Function.update_of_ne hy _ _, fun _ _ => rfl, fun _ _ => rfl, by rw [hfx, hc],
      fun _ _ _ => ⟨rfl, rfl⟩, rfl, rfl, rfl, rfl, rfl, rfl, rfl⟩
  refine h.touch hx ht h.queues (fun _ _ _ => Iff.rfl) (h.mem_queue_iff hx) h.table h.hashpower_le
    (fun _ _ => Iff.rfl) (by rw [hfx, hl]; exact (h.mem_items hx).symm) (fun _ _ => rfl)
    (h.held_le x) (fun c hxc => ?_) (ht.counters h rfl rfl)
  have hok := h.alloc_ok c x hxc
  refine ⟨hok.clsid, hok.clsid_lt, by rw [hfx, hs]; exact hok.slabbed, hok.nbytes, ?_, hok.pos⟩
  rw [hfx, hl]
  exact hok.refcount

theorem setFlags_quiet (s : Store) (v : View) (x : Ptr) {f : ItemFlags}
    (hc : f.cas = (s.heap.itFlags x).cas) : Quiet s (s.setFlags x f) v v := by
  refine ⟨⟨rfl, rfl, rfl, rfl, rfl, rfl, fun y => ?_, rfl, rfl, rfl, rfl, rfl, fun _ => .refl _, rfl⟩,
    rfl, rfl, rfl⟩
  by_cases e : y = x
  · subst e; simp only [Store.setFlags, Function.update_self]; exact hc
  · simp only [Store.setFlags, Function.update_of_ne e]

/-- The queues after item `x` has gone from the queue `q` to the end of the queue `n`. -/
def moveQueue (queue : ℕ → List Ptr) (x : Ptr) (q n : ℕ) : ℕ → List Ptr :=
  let queue' := Function.update queue q ((queue q).erase x)
  Function.update queue' n (queue' n ++ [x])

theorem mem_queue_erase (h : Inv b s v refs) (hx : x ∈ v.items) (y : Ptr) (q : ℕ) :
    y ∈ Function.update v.queue (s.heap.slabsClsid x) ((v.queue (s.heap.slabsClsid x)).erase x) q ↔
      y ∈ v.queue q ∧ y ≠ x := by
  rw [QueuesOk.mem_update_erase _ _ _ _ _ (h.queues.dll (s.heap.slabsClsid x)).nodup]
  refine and_congr_right fun hy => ⟨fun himp e => ?_, fun hne _ => hne⟩
  subst e
  exact himp (h.queues.disjoint _ _ y hy (h.mem_queue hx)) rfl

theorem free_not_queue (h : Inv b s v refs) {c : ℕ} (hx : x ∈ v.free c) (q : ℕ) : x ∉ v.queue q :=
  fun hm => h.queue_not_free hm c hx

/-- **Relinking** a linked item, at the end of a queue of its class. -/
theorem relink (h : Inv b s v refs) (hx : x ∈ v.items) {n : ℕ}
    (hn : clearLru n = clearLru (s.heap.slabsClsid x)) (hlt : n < largestId) :
    Inv b (((s.doItemUnlinkQ x false).setClsid x n).doItemLinkQ x false)
      { v with queue := moveQueue v.queue x (s.heap.slabsClsid x) n } refs := by
  have hxa := h.items_alloc x hx
  have hq := h.mem_queue hx
  have hnot : (!x.isChunk) = false := by rw [h.alloc_isChunk hxa]; rfl
  have hmem := h.mem_queue_erase hx
  have h1 := h.queues.unlinkQ hq
  rw [hnot] at h1
  obtain ⟨t, ht⟩ : ∃ t, t = (s.doItemUnlinkQ x false).setClsid x n := ⟨_, rfl⟩
  have h2 : QueuesOk t.heap.next t.heap.prev t.lru (Function.update v.queue (s.heap.slabsClsid x)
      ((v.queue (s.heap.slabsClsid x)).erase x)) := by rw [ht]; exact h1
  have hcls : t.heap.slabsClsid = Function.update s.heap.slabsClsid x n := by rw [ht]; rfl
  have hclsx : t.heap.slabsClsid x = n := by rw [hcls, Function.update_self]
  have h3 := h2.linkQ (show ∀ q, x ∉ _ from fun q hm => ((hmem x q).mp hm).2 rfl)
  rw [hnot, hclsx] at h3
  have hmemq : ∀ y q, y ∈ moveQueue v.queue x (s.heap.slabsClsid x) n q ↔
      y ∈ v.queue q ∧ y ≠ x ∨ q = n ∧ y = x := by
    intro y q
    unfold moveQueue
    rw [QueuesOk.mem_update_append, hmem]
  have hlinks : ∀ c, ∀ y ∈ v.free c, (t.doItemLinkQ x false).heap.next y = s.heap.next y ∧
      (t.doItemLinkQ x false).heap.prev y = s.heap.prev y := by
    intro c y hy
    have hyq := h.free_not_queue hy
    have e1 := h.queues.unlinkQ_frame hq false (hyq _)
    have e2 := h2.linkQ_frame false (ne_of_mem_of_not_mem hq (hyq _)).symm
      fun hm => hyq _ ((hmem y _).mp hm).1
    rw [ht] at e2 ⊢
    exact ⟨e2.1.trans e1.1, e2.2.trans e1.2⟩
  have hclst : (t.doItemLinkQ x false).heap.slabsClsid x = n := hclsx
  have htouch : Touches s (t.doItemLinkQ x false) v x := by
    refine ⟨?_, fun y hy => ?_, ?_, ?_, hlinks, ?_, ?_, ?_, ?_, ?_, ?_, ?_⟩
    case refine_2 =>
      rw [show (t.doItemLinkQ x false).heap.slabsClsid y = t.heap.slabsClsid y from rfl, hcls,
        Function.update_of_ne hy]
    all_goals rw [ht]
    exacts [fun _ _ => rfl, fun _ _ => rfl, rfl, rfl, rfl, rfl, rfl, rfl, rfl, rfl]
  rw [← ht]
  refine h.touch hxa htouch h3 (fun y q hy => ?_) (fun q => ?_) (by rw [ht]; exact h.table)
    (by rw [ht]; exact h.hashpower_le) (fun _ _ => Iff.rfl) ?_ (fun _ _ => rfl) (h.held_le x)
    (fun c hc => ?_) (htouch.counters h (by rw [ht]; rfl) (by rw [ht]; rfl))
  · rw [hmemq]
    simp [hy]
  · rw [hmemq, hclst]
    simp [hx, eq_comm]
  · rw [ht]; exact (h.mem_items hxa).symm
  · have hok := h.alloc_ok c x hc
    refine ⟨by rw [hclst, hn]; exact hok.clsid, by rw [hclst]; exact hlt, ?_, ?_, ?_, ?_⟩
    all_goals rw [ht]
    exacts [hok.slabbed, hok.nbytes, hok.refcount, hok.pos]

/-! ## Unlinking and linking -/

/-- **Unlinking** takes the item out of table and queue; the reference of the link becomes an
ordinary one. -/
theorem unlinkCore (h : Inv b s v refs) (hx : x ∈ v.items) :
    Inv b (s.unlinkCore x (s.hash (s.heap.key x)))
      { v with
        items := v.items.erase x
        queue := Function.update v.queue (s.heap.slabsClsid x)
          ((v.queue (s.heap.slabsClsid x)).erase x) }
      (Function.update refs x (refs x + 1)) := by
  have hxa := h.items_alloc x hx
  have hq := h.mem_queue hx
  have hnot : (!x.isChunk) = false := by rw [h.alloc_isChunk hxa]; rfl
  -- the state after the table has let go of the item
  obtain ⟨a, ha, hp⟩ :=
    (s.markUnlinked x).assocDelete_frame (s.heap.key x) (s.hash (s.heap.key x))
  have htab : TableOk s.heap.key s.hash a (v.items.erase x) := by
    have := TableOk.assocDelete (s := s.markUnlinked x) h.table hx
    rw [show ((s.markUnlinked x).heap.key x) = s.heap.key x from rfl,
      show (s.markUnlinked x).hash = s.hash from rfl, ha] at this
    exact this
  have hhc : HashCounts (s.markUnlinked x).stats a := by
    have hm : HashCounts (s.markUnlinked x).stats (s.markUnlinked x).assoc :=
      ⟨h.counters.hash.expanding, h.counters.hash.bytes⟩
    have := hm.assocDelete (s.heap.key x) (s.hash (s.heap.key x))
    rw [ha] at this
    exact this
  obtain ⟨t, ht⟩ : ∃ t, t = ({ s.markUnlinked x with assoc := a } : Store) := ⟨_, rfl⟩
  have hu : s.unlinkCore x (s.hash (s.heap.key x)) = t.doItemUnlinkQ x false := by
    rw [Store.unlinkCore, ha, ht]
  have h1 : QueuesOk t.heap.next t.heap.prev t.lru v.queue := by rw [ht]; exact h.queues
  have hcls : t.heap.slabsClsid = s.heap.slabsClsid := by rw [ht]; rfl
  have hq' : x ∈ v.queue (t.heap.slabsClsid x) := by rw [hcls]; exact hq
  have h2 := h1.unlinkQ hq'
  rw [hnot, hcls] at h2
  have hflagx : (t.doItemUnlinkQ x false).heap.itFlags x = { s.flags x with linked := false } := by
    rw [ht]; exact Function.update_self _ _ _
  have hlinks : ∀ c, ∀ y ∈ v.free c, (t.doItemUnlinkQ x false).heap.next y = s.heap.next y ∧
      (t.doItemUnlinkQ x false).heap.prev y = s.heap.prev y := by
    intro c y hy
    obtain ⟨e1, e2⟩ := h1.unlinkQ_frame hq' false (h.free_not_queue hy _)
    rw [ht] at e1 e2 ⊢
    exact ⟨e1, e2⟩
  have htouch : Touches s (t.doItemUnlinkQ x false) v x := by
    refine ⟨?_, ?_, ?_, by rw [hflagx], hlinks, ?_, ?_, ?_, ?_, ?_, ?_, ?_⟩
    all_goals rw [ht]
    exacts [fun _ hy => Function.update_of_ne hy _ _, fun _ _ => rfl, fun _ _ => rfl, rfl, rfl, rfl,
      rfl, rfl, rfl, rfl]
  have hnd := h.table.holds.nodup
  have hcount : Counters (t.doItemUnlinkQ x false) (v.items.erase x) v.alloc b.moved.lost := by
    refine h.counters.unlink hx ?_ ?_ ?_ htouch.slabs htouch.ntotal
    · rw [ht]; rfl
    · rw [← htouch.ntotal x, ht]; rfl
    · rw [ht]; exact hhc
  rw [hu]
  refine h.touch hxa htouch h2 (fun y q hy => ?_) (fun q => ?_) (by rw [ht]; exact htab)
    (by rw [ht]; exact hp.trans_le h.hashpower_le) (fun y hy => ?_) ?_
    (fun y hy => Function.update_of_ne hy _ _) ?_ (fun c hc => ?_) hcount
  · rw [h.mem_queue_erase hx]
    exact and_iff_left hy
  · rw [h.mem_queue_erase hx, hnd.mem_erase_iff]
    simp
  · rw [hnd.mem_erase_iff]
    exact and_iff_right hy
  · rw [hflagx, hnd.mem_erase_iff]
    simp
  · rw [Function.update_self]
    exact (h.held_le x).trans (Nat.le_succ _)
  · have hok := h.alloc_ok c x hc
    have hrc : (t.doItemUnlinkQ x false).heap.refcount x = s.heap.refcount x := by rw [ht]; rfl
    refine ⟨by rw [ht]; exact hok.clsid, by rw [ht]; exact hok.clsid_lt,
      by rw [hflagx]; exact hok.slabbed, by rw [ht]; exact hok.nbytes, ?_, by rw [hrc]; exact hok.pos⟩
    rw [hrc, hflagx, Function.update_self, hok.refcount, h.linked_of_mem hx]
    simp [add_comm]

/-- There are few items: they fit in the memory. -/
theorem items_length_lt (h : Inv b s v refs) : v.items.length < 2 ^ 31 - 1 := by
  have hsub : v.items ⊆ (List.range maxNumberOfSlabClasses).flatMap v.alloc := by
    intro x hx
    obtain ⟨c, hc⟩ := h.items_alloc x hx
    have hr := h.alloc_inRange hc
    exact List.mem_flatMap.mpr
      ⟨c, List.mem_range.mpr (hr.2.trans_lt h.slabs.valid.powerLargest_lt), hc⟩
  have h1 := (h.table.holds.nodup.subperm hsub).length_le
  have h2 : ∀ c, (v.alloc c).length ≤ 2 ^ 30 / sizeofItem := fun c => by
    have hle : (v.alloc c).length ≤ (s.slabs.chunks c).length := by
      rw [← (h.slabs.perm c).length_eq, List.length_append, Base.taken, List.length_append]
      omega
    have := h.slabs.pages.chunks_length_mul_le h.slabs.valid c
    rw [Nat.le_div_iff_mul_le (by decide), Nat.mul_comm]
    exact (Nat.mul_le_mul_left _ hle).trans this
  have h3 : ((List.range maxNumberOfSlabClasses).flatMap v.alloc).length ≤
      maxNumberOfSlabClasses * (2 ^ 30 / sizeofItem) := by
    rw [List.length_flatMap]
    refine (List.sum_le_card_nsmul _ (2 ^ 30 / sizeofItem) ?_).trans ?_
    · intro n hn
      obtain ⟨c, -, rfl⟩ := List.mem_map.mp hn
      exact h2 c
    · simp
  calc v.items.length ≤ _ := h1
    _ ≤ maxNumberOfSlabClasses * (2 ^ 30 / sizeofItem) := h3
    _ < 2 ^ 31 - 1 := by decide

theorem setFreshCas_frame (s : Store) (x : Ptr) : ∃ cas n,
    s.setFreshCas x = { s with heap := { s.heap with cas := cas }, casId := n } := by
  unfold Store.setFreshCas
  split_ifs with h1 h2
  · exact ⟨_, _, if_pos h1⟩
  · exact ⟨_, _, if_pos h1⟩
  · exact ⟨_, _, rfl⟩

/-- An insertion finds a table that may still grow. -/
theorem assocInsert_hashpower (h : Inv b s v refs) {t : Store} (ha : t.assoc = s.assoc) (x : Ptr)
    (hv : UInt32) : (t.assocInsert x hv).assoc.hashpower ≤ 31 := by
  refine t.assocInsert_hashpower_le x hv (by rw [ha]; exact h.hashpower_le) ?_
  have hlen := h.items_length_lt
  have e : t.assoc.hashItems + 1 = UInt32.ofNat (v.items.length + 1) := by
    rw [ha, h.table.count, UInt32.ofNat_add]; rfl
  rw [e, UInt32.toNat_ofNat_of_lt' (lt_of_lt_of_le (by omega) (by decide : 2 ^ 31 ≤ UInt32.size))]
  omega

/-- **Linking** puts an unlinked item into table and queue. -/
theorem doItemLink (h : Inv b s v refs) (hxa : v.Alloc x)
    (hnew : ∀ y ∈ v.items, s.heap.key y ≠ s.heap.key x) :
    Inv b (s.doItemLink x (s.hash (s.heap.key x)))
      { v with
        items := x :: v.items
        queue := Function.update v.queue (s.heap.slabsClsid x)
          (v.queue (s.heap.slabsClsid x) ++ [x]) } refs := by
  have hx : x ∉ v.items := fun hm => hnew x hm rfl
  have hnot : (!x.isChunk) = false := by rw [h.alloc_isChunk hxa]; rfl
  obtain ⟨cas, n, h1⟩ := setFreshCas_frame (s.markLinked x) x
  obtain ⟨t, ht⟩ : ∃ t, t = (s.markLinked x).setFreshCas x := ⟨_, rfl⟩
  rw [← ht] at h1
  -- the table takes the item
  have htab : TableOk t.heap.key t.hash t.assoc v.items := by rw [h1]; exact h.table
  have hkey : t.heap.key = s.heap.key := by rw [h1]; rfl
  have hhash : t.hash = s.hash := by rw [h1]; rfl
  have hp := h.assocInsert_hashpower (t := t) (by rw [h1]; rfl) x (s.hash (s.heap.key x))
  have htab' := htab.assocInsert (show ∀ y ∈ v.items, t.heap.key y ≠ t.heap.key x by
    rw [hkey]; exact hnew)
  rw [hkey, hhash] at htab'
  obtain ⟨hhc, hsc⟩ := HashCounts.assocInsert (s := t)
    (by rw [h1]; exact ⟨h.counters.hash.expanding, h.counters.hash.bytes⟩) x (s.hash (s.heap.key x))
  rw [show t.stats = (s.markLinked x).stats by rw [h1]] at hsc
  obtain ⟨a, e, st, ha, -⟩ := t.assocInsert_frame x (s.hash (s.heap.key x))
  rw [ha] at htab' hp hhc hsc
  obtain ⟨u, hu⟩ : ∃ u, u = t.assocInsert x (s.hash (s.heap.key x)) := ⟨_, rfl⟩
  have hd : s.doItemLink x (s.hash (s.heap.key x)) = ((u.doItemLinkQ x false).refcountIncr x).2 := by
    rw [hu, ht]; rfl
  have hu : u = { s.markLinked x with
      heap := { (s.markLinked x).heap with cas := cas }
      casId := n, assoc := a, env := e, stats := st } := by
    rw [hu, ha, h1]
  have hq1 : QueuesOk u.heap.next u.heap.prev u.lru v.queue := by rw [hu]; exact h.queues
  have hcls : u.heap.slabsClsid = s.heap.slabsClsid := by rw [hu]; rfl
  have hxq : ∀ q, x ∉ v.queue q := fun q hm => hx ((h.mem_queue_iff hxa q).mp hm).1
  have hq2 := hq1.linkQ hxq
  rw [hnot, hcls] at hq2
  rw [hd]
  obtain ⟨w, hw⟩ : ∃ w, w = ((u.doItemLinkQ x false).refcountIncr x).2 := ⟨_, rfl⟩
  have hflagx : w.heap.itFlags x = { s.flags x with linked := true } := by
    rw [hw, hu]; exact Function.update_self _ _ _
  have hrcx : w.heap.refcount x = s.heap.refcount x + 1 := by
    rw [hw, hu]; exact Function.update_self _ _ _
  have hlinks : ∀ c, ∀ y ∈ v.free c, w.heap.next y = s.heap.next y ∧
      w.heap.prev y = s.heap.prev y := by
    intro c y hy
    have hyx : y ≠ x := by
      rintro rfl
      obtain ⟨c', hc⟩ := hxa
      exact h.alloc_not_free hc c hy
    obtain ⟨e1, e2⟩ := hq1.linkQ_frame false hyx (h.free_not_queue hy _)
    rw [hu] at e1 e2
    rw [hw, hu]
    exact ⟨e1, e2⟩
  have htouch : Touches s w v x := by
    refine ⟨?_, ?_, ?_, by rw [hflagx], hlinks, ?_, ?_, ?_, ?_, ?_, ?_, ?_⟩
    all_goals rw [hw, hu]
    exacts [fun _ hy => Function.update_of_ne hy _ _, fun _ _ => rfl,
      fun _ hy => Function.update_of_ne hy _ _, rfl, rfl, rfl, rfl, rfl, rfl, rfl]
  have hcount : Counters w (x :: v.items) v.alloc b.moved.lost := by
    have hnx : (s.markLinked x).stats.currBytes =
        s.stats.currBytes + UInt64.ofNat (s.heap.ntotal x) := by
      rw [← htouch.ntotal x, hw, hu]; rfl
    refine h.counters.link ?_ ?_ ?_ htouch.slabs htouch.ntotal <;> rw [hw, hu]
    · exact hsc.currItems
    · exact hsc.currBytes.trans hnx
    · exact hhc
  rw [← hw]
  refine h.touch hxa htouch (by rw [hw]; exact hq2) (fun y q hy => ?_) (fun q => ?_)
    (by rw [hw, hu]; exact htab') (by rw [hw, hu]; exact hp) (fun y hy => ?_) ?_ (fun _ _ => rfl)
    (h.held_le x) (fun c hc => ?_) hcount
  · rw [QueuesOk.mem_update_append]
    simp [hy]
  · rw [QueuesOk.mem_update_append, show w.heap.slabsClsid = s.heap.slabsClsid by rw [hw, hu]; rfl]
    simp [hxq, eq_comm]
  · simp [hy]
  · rw [hflagx]
    simp
  · have hok := h.alloc_ok c x hc
    refine ⟨by rw [hw, hu]; exact hok.clsid, by rw [hw, hu]; exact hok.clsid_lt,
      by rw [hflagx]; exact hok.slabbed, by rw [hw, hu]; exact hok.nbytes, ?_, by rw [hrcx]; omega⟩
    rw [hrcx, hflagx, hok.refcount, h.unlinked_of_not_mem hxa hx]
    simp [add_comm]

/-- The table has changed, and holds the same items. -/
theorem ofTable (h : Inv b s v refs) {a : Assoc} {e : Env} {st : Stats}
    (htab : TableOk s.heap.key s.hash a v.items) (hp : a.hashpower ≤ 31) (hhc : HashCounts st a)
    (hsc : SameCounts s.stats st) : Inv b { s with assoc := a, env := e, stats := st } v refs :=
  ⟨h.queues, htab, hp, h.slabs, h.linked_iff, h.items_alloc, h.queue_iff, h.crawler, h.alloc_ok,
    h.refs_zero, h.live, h.trace, h.held_le, h.events, h.casBit, h.gone,
    h.counters.congr hsc hhc (fun _ => ⟨rfl, rfl⟩) (fun _ _ => rfl) fun _ _ _ => rfl,
    h.crawlers.congr rfl fun _ => rfl⟩

/-- **One migration step.** -/
theorem migrateBucket (h : Inv b s v refs) : Inv b s.migrateBucket v refs := by
  have htab := h.table.migrateBucket h.hashpower_le
  obtain ⟨hhc, hsc⟩ := h.counters.hash.migrateBucket
  obtain ⟨a, e, st, hs, hp⟩ := s.migrateBucket_frame
  rw [hs] at htab hhc hsc ⊢
  exact h.ofTable htab (hp.trans_le h.hashpower_le) hhc hsc

/-- **`AssocExpand`** when no expansion is under way. -/
theorem assocExpand (h : Inv b s v refs) (he : s.assoc.expanding = false)
    (hp : s.assoc.hashpower < 31) : Inv b s.assocExpand v refs := by
  have htab := h.table.assocExpand he
  obtain ⟨hhc, hsc⟩ := h.counters.hash.assocExpand he
  have hp' : s.assocExpand.assoc.hashpower ≤ 31 := by
    unfold Store.assocExpand
    split_ifs
    · exact hp
    · exact hp.le
  obtain ⟨a, e, st, hs, -⟩ := s.assocExpand_frame
  rw [hs] at htab hhc hsc hp' ⊢
  exact h.ofTable htab hp' hhc hsc

end Inv

end Mdb
