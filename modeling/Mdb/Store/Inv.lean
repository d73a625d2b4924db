import Mdb.Slabs.Conserve
import Mdb.Store.Model

/-!
# The invariant of the store

Hash table, queues, freelists and reference counts are tied together by one invariant `Inv b s v refs`:

* `v : View` are the lists the linked structures represent;
* `refs x` is the number of references to item `x` other than the one its link is worth;
* `b : Base` is where the current operation started: the references its callers hold throughout, the
  calls to the item memory before it, and what the slab rebalancer has taken away.

Part of the invariant are the counters (`Counters`): items, bytes, requested bytes, table sizes.

`SameData s s'` says that no item's value, key, expiry or CAS id was written, `Quiet s s' v v'` that
only references moved.
-/

namespace Mdb

open Dll

/-- The lists that the pointer structures of a store represent. -/
structure View where
  queue : ℕ → List Ptr
  free : ℕ → List Ptr
  alloc : ℕ → List Ptr
  items : List Ptr

/-- `x` is handed out. -/
def View.Alloc (v : View) (x : Ptr) : Prop := ∃ c, x ∈ v.alloc c

/-- What the slab rebalancer has taken: per class, chunks, and bytes it has never credited. -/
structure Moved where
  gone : ℕ → List Ptr
  lost : ℕ → ℕ

/-- No page is being moved. -/
def Moved.none : Moved := ⟨fun _ => [], fun _ => 0⟩

/-- Where an operation started. -/
structure Base where
  held : Ptr → ℕ
  trace : List MemEvent
  moved : Moved

/-- The chunks of class `c` that are not free. -/
def Base.taken (b : Base) (v : View) (c : ℕ) : List Ptr := v.alloc c ++ b.moved.gone c

/-! ## The calls to the item memory -/

/-- A `FreeItem` is right: the item is unlinked and nobody holds it. -/
def MemEvent.Ok (held : Ptr → ℕ) : MemEvent → Prop
  | .alloc _ => True
  | .free it linked => linked = false ∧ held it = 0

/-- After these calls, newest first, `x` is allocated. -/
def IsLive : List MemEvent → Ptr → Prop
  | [], _ => False
  | .alloc y :: t, x => x = y ∨ IsLive t x
  | .free y _ :: t, x => x ≠ y ∧ IsLive t x

/-- **Allocations and releases match**: only what is free is handed out, only what is handed out is
freed, and never a linked item. -/
def TraceOk : List MemEvent → Prop
  | [] => True
  | .alloc y :: t => ¬ IsLive t y ∧ TraceOk t
  | .free y linked :: t => IsLive t y ∧ linked = false ∧ TraceOk t

/-! ## The invariant -/

/-- A chunk of class `c` that is handed out. -/
structure ChunkOk (h : Heap) (refs : Ptr → ℕ) (c : ℕ) (x : Ptr) : Prop where
  clsid : clearLru (h.slabsClsid x) = c
  clsid_lt : h.slabsClsid x < largestId
  slabbed : (h.itFlags x).slabbed = false
  nbytes : 2 ≤ h.nbytes x
  refcount : h.refcount x = (if (h.itFlags x).linked then 1 else 0) + refs x
  pos : 1 ≤ h.refcount x

/-- A chunk that the slab rebalancer has taken. -/
structure Killed (h : Heap) (x : Ptr) : Prop where
  clsid : h.slabsClsid x = 255
  refcount : h.refcount x = 0
  itFlags : h.itFlags x = .none

/-- The queues whose crawler is enabled. -/
def Heap.crawling (h : Heap) : List ℕ :=
  (List.range largestId).filter fun q => h.itFlags (.crawler q) = .one

/-- The enabled crawlers are counted, and are those of the queues. -/
structure CrawlersOk (s : Store) : Prop where
  lt : ∀ q, s.heap.itFlags (.crawler q) = .one → q < largestId
  count : s.crawlers.crawlerCount = s.heap.crawling.length

/-- **The counters**: of `g_stats` for the linked items and the table, and of each class for the items
handed out. An item is at most its CAS field larger than its chunk. -/
structure Counters (s : Store) (items : List Ptr) (alloc : ℕ → List Ptr) (lost : ℕ → ℕ) : Prop where
  currItems : s.stats.currItems = UInt32.ofNat items.length
  currBytes : s.stats.currBytes = UInt64.ofNat (items.map s.heap.ntotal).sum
  hash : HashCounts s.stats s.assoc
  requested : ∀ c, (s.slabs.slabclass c).requested =
    UInt64.ofNat (((alloc c).map s.heap.ntotal).sum + lost c)
  fits : ∀ c, ∀ x ∈ alloc c, s.heap.ntotal x ≤ (s.slabs.slabclass c).size + 8

/-- **The invariant.** -/
structure Inv (b : Base) (s : Store) (v : View) (refs : Ptr → ℕ) : Prop where
  queues : QueuesOk s.heap.next s.heap.prev s.lru v.queue
  table : TableOk s.heap.key s.hash s.assoc v.items
  hashpower_le : s.assoc.hashpower ≤ 31
  slabs : s.SlabsOk v.free (b.taken v)
  linked_iff : ∀ a, (s.heap.itFlags (.chunk a)).linked = true ↔ .chunk a ∈ v.items
  items_alloc : ∀ x ∈ v.items, v.Alloc x
  queue_iff : ∀ x q, x ∈ v.queue q ↔
    x ∈ v.items ∧ s.heap.slabsClsid x = q ∨ x = .crawler q ∧ s.heap.itFlags x = .one
  crawler : ∀ q, s.heap.itFlags (.crawler q) = .one → s.heap.slabsClsid (.crawler q) = q ∧
    s.heap.nbytes (.crawler q) = 0 ∧ s.heap.key (.crawler q) = .empty
  alloc_ok : ∀ c, ∀ x ∈ v.alloc c, ChunkOk s.heap refs c x
  refs_zero : ∀ x, ¬ v.Alloc x → refs x = 0
  live : ∀ x, IsLive s.trace x ↔ v.Alloc x
  trace : TraceOk s.trace
  held_le : ∀ x, b.held x ≤ refs x
  events : ∃ evs, s.trace = evs ++ b.trace ∧ ∀ ev ∈ evs, ev.Ok b.held
  casBit : ∀ x, v.Alloc x → (s.heap.itFlags x).cas = s.settings.useCas
  gone : ∀ c, ∀ x ∈ b.moved.gone c, Killed s.heap x
  counters : Counters s v.items v.alloc b.moved.lost
  crawlers : CrawlersOk s

/-- No item's key, value, expiry or CAS id was written, nor any setting, the clock, the counter of CAS
ids or the pages. -/
structure SameData (s s' : Store) : Prop where
  key : s'.heap.key = s.heap.key
  nbytes : s'.heap.nbytes = s.heap.nbytes
  exptime : s'.heap.exptime = s.heap.exptime
  cas : s'.heap.cas = s.heap.cas
  suffix : s'.heap.suffix = s.heap.suffix
  data : s'.heap.data = s.heap.data
  casBit : ∀ x, (s'.heap.itFlags x).cas = (s.heap.itFlags x).cas
  settings : s'.settings = s.settings
  hash : s'.hash = s.hash
  now : s'.now = s.now
  currentTime : s'.currentTime = s.currentTime
  casId : s'.casId = s.casId
  pages : ∀ c, (s.slabs.slabclass c).SamePages (s'.slabs.slabclass c)
  powerLargest : s'.slabs.powerLargest = s.slabs.powerLargest

theorem SameData.ntotal {s s' : Store} (h : SameData s s') (x : Ptr) :
    s'.heap.ntotal x = s.heap.ntotal x := by
  simp only [Heap.ntotal, Heap.nkey, h.key, h.suffix, h.nbytes, h.casBit]

theorem Heap.SameAt.ntotal {h h' : Heap} {x : Ptr} (e : h.SameAt h' x) :
    h'.ntotal x = h.ntotal x := by
  simp only [Heap.ntotal, Heap.nkey, e.key, e.suffix, e.nbytes, e.itFlags]

/-- What the counters read. -/
theorem Counters.congr {s t : Store} {items : List Ptr} {alloc : ℕ → List Ptr} {lost : ℕ → ℕ}
    (h : Counters s items alloc lost) (hst : SameCounts s.stats t.stats)
    (hh : HashCounts t.stats t.assoc)
    (hsl : ∀ c, (t.slabs.slabclass c).requested = (s.slabs.slabclass c).requested ∧
      (t.slabs.slabclass c).size = (s.slabs.slabclass c).size)
    (hi : ∀ x ∈ items, t.heap.ntotal x = s.heap.ntotal x)
    (ha : ∀ c, ∀ x ∈ alloc c, t.heap.ntotal x = s.heap.ntotal x) : Counters t items alloc lost where
  currItems := hst.currItems.trans h.currItems
  currBytes := by rw [hst.currBytes, h.currBytes, List.map_congr_left hi]
  hash := hh
  requested c := by rw [(hsl c).1, h.requested, List.map_congr_left (ha c)]
  fits c x hx := by rw [ha c x hx, (hsl c).2]; exact h.fits c x hx

/-- An item is linked. -/
theorem Counters.link {s t : Store} {items : List Ptr} {alloc : ℕ → List Ptr} {lost : ℕ → ℕ} {x : Ptr}
    (h : Counters s items alloc lost) (hi : t.stats.currItems = s.stats.currItems + 1)
    (hb : t.stats.currBytes = s.stats.currBytes + UInt64.ofNat (s.heap.ntotal x))
    (hh : HashCounts t.stats t.assoc) (hsl : t.slabs = s.slabs)
    (hn : ∀ y, t.heap.ntotal y = s.heap.ntotal y) : Counters t (x :: items) alloc lost where
  currItems := by rw [hi, h.currItems, List.length_cons, UInt32.ofNat_add]; rfl
  currBytes := by
    rw [hb, h.currBytes, funext hn, List.map_cons, List.sum_cons, UInt64.ofNat_add, add_comm]
  hash := hh
  requested c := by rw [hsl, funext hn]; exact h.requested c
  fits c y hy := by rw [hsl, hn]; exact h.fits c y hy

/-- An item is unlinked. -/
theorem Counters.unlink {s t : Store} {items : List Ptr} {alloc : ℕ → List Ptr} {lost : ℕ → ℕ}
    {x : Ptr} (h : Counters s items alloc lost) (hx : x ∈ items)
    (hi : t.stats.currItems = s.stats.currItems - 1)
    (hb : t.stats.currBytes = s.stats.currBytes - UInt64.ofNat (s.heap.ntotal x))
    (hh : HashCounts t.stats t.assoc) (hsl : t.slabs = s.slabs)
    (hn : ∀ y, t.heap.ntotal y = s.heap.ntotal y) : Counters t (items.erase x) alloc lost where
  currItems := by
    have hlen : items.length = (items.erase x).length + 1 := by
      rw [List.length_erase_of_mem hx]
      have := List.length_pos_of_mem hx
      omega
    rw [hi, h.currItems, hlen, UInt32.ofNat_add]
    exact add_sub_cancel_right _ _
  currBytes := by
    rw [hb, h.currBytes, funext hn, ← List.sum_map_erase s.heap.ntotal hx, UInt64.ofNat_add]
    exact add_sub_cancel_left _ _
  hash := hh
  requested c := by rw [hsl, funext hn]; exact h.requested c
  fits c y hy := by rw [hsl, hn]; exact h.fits c y hy

/-- An item is handed out: what is charged is its size. -/
theorem Counters.alloc {s t : Store} {items : List Ptr} {alloc : ℕ → List Ptr} {lost : ℕ → ℕ}
    {it : Ptr} {size id : ℕ} (h : Counters s items alloc lost) (hst : t.stats = s.stats)
    (ha : t.assoc = s.assoc) (hsize : size = t.heap.ntotal it)
    (hfit : size ≤ (s.slabs.slabclass id).size + 8)
    (hreq : ∀ c, (t.slabs.slabclass c).requested =
      (s.slabs.slabclass c).requested + if c = id then UInt64.ofNat size else 0)
    (hsz : ∀ c, (t.slabs.slabclass c).size = (s.slabs.slabclass c).size)
    (hi : ∀ y ∈ items, t.heap.ntotal y = s.heap.ntotal y)
    (hn : ∀ c, ∀ y ∈ alloc c, t.heap.ntotal y = s.heap.ntotal y) :
    Counters t items (Function.update alloc id (it :: alloc id)) lost where
  currItems := by rw [hst]; exact h.currItems
  currBytes := by rw [hst, List.map_congr_left hi]; exact h.currBytes
  hash := by rw [hst, ha]; exact h.hash
  requested c := by
    rw [hreq, h.requested]
    by_cases e : c = id
    · subst e
      rw [if_pos rfl, Function.update_self, List.map_cons, List.sum_cons,
        List.map_congr_left (hn c), ← hsize, ← UInt64.ofNat_add]
      congr 1
      omega
    · rw [if_neg e, Function.update_of_ne e, List.map_congr_left (hn c), add_zero]
  fits c y hy := by
    rw [hsz]
    by_cases e : c = id
    · subst e
      rw [Function.update_self, List.mem_cons] at hy
      rcases hy with rfl | hy
      · rw [← hsize]; exact hfit
      · rw [hn c y hy]; exact h.fits c y hy
    · rw [Function.update_of_ne e] at hy
      rw [hn c y hy]; exact h.fits c y hy

/-- An item is given back: what is credited is its size. -/
theorem Counters.free {s t : Store} {items : List Ptr} {alloc : ℕ → List Ptr} {lost : ℕ → ℕ}
    {x : Ptr} {id : ℕ} (h : Counters s items alloc lost) (hx : x ∈ alloc id)
    (hst : t.stats = s.stats) (ha : t.assoc = s.assoc)
    (hreq : ∀ c, (t.slabs.slabclass c).requested =
      (s.slabs.slabclass c).requested - if c = id then UInt64.ofNat (s.heap.ntotal x) else 0)
    (hsz : ∀ c, (t.slabs.slabclass c).size = (s.slabs.slabclass c).size)
    (hn : ∀ y, t.heap.ntotal y = s.heap.ntotal y) :
    Counters t items (Function.update alloc id ((alloc id).erase x)) lost where
  currItems := by rw [hst]; exact h.currItems
  currBytes := by rw [hst, funext hn]; exact h.currBytes
  hash := by rw [hst, ha]; exact h.hash
  requested c := by
    rw [hreq, h.requested, funext hn]
    by_cases e : c = id
    · subst e
      rw [if_pos rfl, Function.update_self, ← List.sum_map_erase s.heap.ntotal hx, add_assoc,
        UInt64.ofNat_add]
      exact add_sub_cancel_left _ _
    · rw [if_neg e, Function.update_of_ne e, sub_zero]
  fits c y hy := by
    rw [hsz, hn]
    by_cases e : c = id
    · subst e
      rw [Function.update_self] at hy
      exact h.fits c y (List.mem_of_mem_erase hy)
    · rw [Function.update_of_ne e] at hy
      exact h.fits c y hy

theorem Killed.congr {h h' : Heap} {x : Ptr} (k : Killed h x)
    (hc : h'.slabsClsid x = h.slabsClsid x) (hr : h'.refcount x = h.refcount x)
    (hf : h'.itFlags x = h.itFlags x) : Killed h' x :=
  ⟨hc.trans k.clsid, hr.trans k.refcount, hf.trans k.itFlags⟩

theorem Heap.crawling_congr {h h' : Heap}
    (he : ∀ q, h'.itFlags (.crawler q) = h.itFlags (.crawler q)) : h'.crawling = h.crawling := by
  unfold Heap.crawling
  simp only [he]

theorem CrawlersOk.congr {s t : Store} (h : CrawlersOk s)
    (hc : t.crawlers.crawlerCount = s.crawlers.crawlerCount)
    (hf : ∀ q, t.heap.itFlags (.crawler q) = s.heap.itFlags (.crawler q)) : CrawlersOk t where
  lt q hq := h.lt q (by rw [← hf]; exact hq)
  count := by rw [hc, h.count, Heap.crawling_congr hf]

theorem Heap.mem_crawling {h : Heap} {q : ℕ} :
    q ∈ h.crawling ↔ q < largestId ∧ h.itFlags (.crawler q) = .one := by
  simp [Heap.crawling]

/-- A crawler is enabled. -/
theorem Heap.crawling_enable {h h' : Heap} {sid : ℕ} (hlt : sid < largestId)
    (hoff : h.itFlags (.crawler sid) ≠ .one) (hon : h'.itFlags (.crawler sid) = .one)
    (he : ∀ q, q ≠ sid → h'.itFlags (.crawler q) = h.itFlags (.crawler q)) :
    h'.crawling.length = h.crawling.length + 1 := by
  have hnd : ∀ h : Heap, h.crawling.Nodup := fun h => List.nodup_range.filter _
  have hperm : h'.crawling.Perm (sid :: h.crawling) := by
    refine (List.perm_ext_iff_of_nodup (hnd h')
      (List.nodup_cons.mpr ⟨fun hm => ?_, hnd h⟩)).mpr fun q => ?_
    · exact hoff (Heap.mem_crawling.mp hm).2
    · rw [List.mem_cons, Heap.mem_crawling, Heap.mem_crawling]
      by_cases e : q = sid
      · subst e
        simp [hon, hlt]
      · rw [he q e]
        simp [e]
  rw [hperm.length_eq, List.length_cons]

/-- The crawler of queue `sid` is enabled, and counted. -/
theorem CrawlersOk.enable {s t : Store} (h : CrawlersOk s) {sid : ℕ} (hlt : sid < largestId)
    (hoff : s.heap.itFlags (.crawler sid) ≠ .one)
    (hc : t.crawlers.crawlerCount = s.crawlers.crawlerCount + 1)
    (hf : ∀ q, t.heap.itFlags (.crawler q) =
      Function.update s.heap.itFlags (.crawler sid) .one (.crawler q)) : CrawlersOk t where
  lt q hq := by
    by_cases e : q = sid
    · rw [e]; exact hlt
    · rw [hf, Function.update_of_ne (by simpa using e)] at hq
      exact h.lt q hq
  count := by
    rw [hc, h.count, @Heap.crawling_enable s.heap t.heap sid hlt hoff]
    · push_cast; rfl
    · rw [hf, Function.update_self]
    · exact fun q e => by rw [hf, Function.update_of_ne (by simpa using e)]

/-- The crawler of queue `i` is disabled, and no longer counted. -/
theorem CrawlersOk.disable {s t : Store} (h : CrawlersOk s) {i : ℕ}
    (hon : s.heap.itFlags (.crawler i) = .one)
    (hc : t.crawlers.crawlerCount = s.crawlers.crawlerCount - 1)
    (hf : ∀ q, t.heap.itFlags (.crawler q) =
      Function.update s.heap.itFlags (.crawler i) .none (.crawler q)) : CrawlersOk t where
  lt q hq := by
    by_cases e : q = i
    · rw [e]; exact h.lt i hon
    · rw [hf, Function.update_of_ne (by simpa using e)] at hq
      exact h.lt q hq
  count := by
    have hne : ∀ q, q ≠ i → s.heap.itFlags (.crawler q) = t.heap.itFlags (.crawler q) :=
      fun q e => by rw [hf, Function.update_of_ne (by simpa using e)]
    have hoff : t.heap.itFlags (.crawler i) ≠ .one := by
      rw [hf, Function.update_self]; decide
    rw [hc, h.count, Heap.crawling_enable (h.lt i hon) hoff hon hne]
    push_cast; ring

theorem taken_erase (b : Base) (v : View) {x : Ptr} {c : ℕ} (hx : x ∈ v.alloc c) (free : ℕ → List Ptr) :
    Function.update (b.taken v) c ((b.taken v c).erase x) =
      b.taken { v with free := free, alloc := Function.update v.alloc c ((v.alloc c).erase x) } := by
  funext c'
  by_cases e : c' = c
  · subst e
    simp only [Base.taken, Function.update_self]
    exact List.erase_append_left _ hx
  · simp only [Base.taken, Function.update_of_ne e]

theorem taken_cons (b : Base) (v : View) (x : Ptr) (c : ℕ) (free : ℕ → List Ptr) :
    Function.update (b.taken v) c (x :: b.taken v c) =
      b.taken { v with free := free, alloc := Function.update v.alloc c (x :: v.alloc c) } := by
  funext c'
  by_cases e : c' = c
  · subst e
    simp only [Base.taken, Function.update_self, List.cons_append]
  · simp only [Base.taken, Function.update_of_ne e]

theorem SameData.refl (s : Store) : SameData s s :=
  ⟨rfl, rfl, rfl, rfl, rfl, rfl, fun _ => rfl, rfl, rfl, rfl, rfl, rfl, fun _ => .refl _, rfl⟩

theorem SameData.trans {s₁ s₂ s₃ : Store} (h : SameData s₁ s₂) (h' : SameData s₂ s₃) :
    SameData s₁ s₃ where
  key := h'.key.trans h.key
  nbytes := h'.nbytes.trans h.nbytes
  exptime := h'.exptime.trans h.exptime
  cas := h'.cas.trans h.cas
  suffix := h'.suffix.trans h.suffix
  data := h'.data.trans h.data
  casBit x := (h'.casBit x).trans (h.casBit x)
  settings := h'.settings.trans h.settings
  hash := h'.hash.trans h.hash
  now := h'.now.trans h.now
  currentTime := h'.currentTime.trans h.currentTime
  casId := h'.casId.trans h.casId
  pages c := (h.pages c).trans (h'.pages c)
  powerLargest := h'.powerLargest.trans h.powerLargest

/-- Only references moved: besides the data, time stamps, linked items and queues are the same. -/
structure Quiet (s s' : Store) (v v' : View) : Prop where
  data : SameData s s'
  time : s'.heap.time = s.heap.time
  items : v'.items = v.items
  queue : v'.queue = v.queue

theorem Quiet.refl (s : Store) (v : View) : Quiet s s v v := ⟨.refl s, rfl, rfl, rfl⟩

theorem Quiet.trans {s₁ s₂ s₃ : Store} {v₁ v₂ v₃ : View} (h : Quiet s₁ s₂ v₁ v₂)
    (h' : Quiet s₂ s₃ v₂ v₃) : Quiet s₁ s₃ v₁ v₃ :=
  ⟨h.data.trans h'.data, h'.time.trans h.time, h'.items.trans h.items, h'.queue.trans h.queue⟩

namespace Inv

variable {b : Base} {s : Store} {v : View} {refs : Ptr → ℕ} {x : Ptr}

/-! ## Reading the invariant -/

theorem mem_taken {c : ℕ} (hx : x ∈ v.alloc c) : x ∈ b.taken v c := List.mem_append_left _ hx

theorem mem_taken_of_gone {c : ℕ} (hx : x ∈ b.moved.gone c) : x ∈ b.taken v c :=
  List.mem_append_right _ hx

/-- A chunk that is handed out is on no freelist. -/
theorem alloc_not_free (h : Inv b s v refs) {c : ℕ} (hx : x ∈ v.alloc c) (c' : ℕ) : x ∉ v.free c' :=
  h.slabs.alloc_not_free (mem_taken hx) c'

theorem alloc_unique (h : Inv b s v refs) {c c' : ℕ} (hx : x ∈ v.alloc c) (hx' : x ∈ v.alloc c') :
    c = c' := h.slabs.alloc_unique (mem_taken hx) (mem_taken hx')

theorem alloc_nodup (h : Inv b s v refs) (c : ℕ) : (v.alloc c).Nodup :=
  (List.nodup_append.mp (h.slabs.alloc_nodup c)).1

theorem alloc_inRange (h : Inv b s v refs) {c : ℕ} (hx : x ∈ v.alloc c) : s.slabs.InRange c :=
  h.slabs.inRange (.inr (mem_taken hx))

/-- A chunk the rebalancer has taken is not handed out. -/
theorem gone_not_alloc (h : Inv b s v refs) {c : ℕ} (hx : x ∈ b.moved.gone c) : ¬ v.Alloc x := by
  rintro ⟨c', hx'⟩
  obtain rfl := h.slabs.alloc_unique (mem_taken_of_gone (v := v) hx) (mem_taken hx')
  exact (List.nodup_append.mp (h.slabs.alloc_nodup c)).2.2 x hx' x hx rfl

theorem gone_ne (h : Inv b s v refs) {c : ℕ} {y : Ptr} (hy : y ∈ b.moved.gone c) (hx : v.Alloc x) :
    y ≠ x := by
  rintro rfl
  exact h.gone_not_alloc hy hx

theorem gone_chunk (h : Inv b s v refs) {c : ℕ} (hx : x ∈ b.moved.gone c) : ∃ a, x = .chunk a :=
  h.slabs.isChunk (.inr (mem_taken_of_gone (v := v) hx))

theorem alloc_chunk (h : Inv b s v refs) (hx : v.Alloc x) : ∃ a, x = .chunk a := by
  obtain ⟨c, hx⟩ := hx
  exact h.slabs.isChunk (.inr (mem_taken hx))

theorem alloc_isChunk (h : Inv b s v refs) (hx : v.Alloc x) : x.isChunk = true := by
  obtain ⟨a, rfl⟩ := h.alloc_chunk hx
  rfl

theorem mem_items (h : Inv b s v refs) (hx : v.Alloc x) :
    x ∈ v.items ↔ (s.heap.itFlags x).linked = true := by
  obtain ⟨a, rfl⟩ := h.alloc_chunk hx
  exact (h.linked_iff a).symm

theorem linked_of_mem (h : Inv b s v refs) (hx : x ∈ v.items) :
    (s.heap.itFlags x).linked = true := (h.mem_items (h.items_alloc x hx)).mp hx

theorem mem_of_linked (h : Inv b s v refs) (hx : x.isChunk = true)
    (hl : (s.heap.itFlags x).linked = true) : x ∈ v.items := by
  cases x with
  | crawler q => cases hx
  | chunk a => exact (h.linked_iff a).mp hl

/-- A linked item is in the queue of its class and in no other. -/
theorem mem_queue (h : Inv b s v refs) (hx : x ∈ v.items) : x ∈ v.queue (s.heap.slabsClsid x) :=
  (h.queue_iff x _).mpr (.inl ⟨hx, rfl⟩)

theorem mem_queue_iff (h : Inv b s v refs) (hx : v.Alloc x) (q : ℕ) :
    x ∈ v.queue q ↔ x ∈ v.items ∧ s.heap.slabsClsid x = q := by
  obtain ⟨a, rfl⟩ := h.alloc_chunk hx
  rw [h.queue_iff]
  simp

/-- A queued node is handed out, or a crawler node. -/
theorem queue_cases (h : Inv b s v refs) {q : ℕ} (hx : x ∈ v.queue q) :
    v.Alloc x ∨ x.isChunk = false := by
  rcases (h.queue_iff x q).mp hx with ⟨hx, -⟩ | ⟨rfl, -⟩
  · exact .inl (h.items_alloc x hx)
  · exact .inr rfl

theorem queue_not_free (h : Inv b s v refs) {q : ℕ} (hx : x ∈ v.queue q) (c : ℕ) :
    x ∉ v.free c := fun hf => by
  rcases h.queue_cases hx with ⟨c', hc⟩ | hc
  · exact h.alloc_not_free hc c hf
  · obtain ⟨a, rfl⟩ := h.slabs.isChunk (.inl hf)
    cases hc

theorem alloc_of_refs (h : Inv b s v refs) (hx : 1 ≤ refs x) : v.Alloc x := by
  by_contra hn
  rw [h.refs_zero x hn] at hx
  omega

end Inv

end Mdb
