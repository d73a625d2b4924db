import Mdb.Store.Bytes

/-!
# Moving a page

`SlabsRebalancerMove` goes over the chunks of a page, a few at each call, and takes them away: from
the freelist, or by unlinking the item. Chunks that are in use make it go over the page again.

* `moveStatus`, `moveChunk`, `moveLoop`, `slabsRebalancerMove`;
* `Inv.takeSlot`, `Inv.wipe`: a free chunk, and an item, go to the rebalancer; `Inv.moveChunk`;
* `Slab.Scan`: where the scan is; `Inv.moveLoop`, `MoveOp.moving`: what a call and a run keep;
* **`page_emptied`**: if every item that a call looks at is linked, a finished move leaves an empty
  page; **`page_not_empty`**: an item that is allocated but not linked is passed over.
-/

namespace Mdb

open Run Dll

/-- `struct Slab`, the type of `g_slab_rebal`, without `d_clsid`, which only a message reads. -/
structure Slab where
  slabStart : ℕ
  slabEnd : ℕ
  slabPos : ℕ
  sClsid : ℕ
  busyItems : ℕ
  done : ℕ
  deriving DecidableEq, Repr

/-- `enum MoveStatus`; the lock is `hold_lock`. -/
inductive MoveStatus where
  | pass
  | fromSlab
  | fromLru (holdLock : ℕ)
  | busy
  | locked
  deriving DecidableEq, Repr

namespace Store

variable (s : Store)

/-- The first half of the loop's body: how the chunk `it` of class `id` is found. -/
def moveStatus (it : Ptr) (id : ℕ) : MoveStatus × Store :=
  if s.heap.slabsClsid it ≠ 255 then
    if (s.flags it).slabbed then (.fromSlab, s.removeSlot it id)
    else if (s.flags it).linked then
      match s.tryLock (s.hv it) with
      | (none, s) => (.locked, s)
      | (some holdLock, s) =>
        let r := s.refcountIncr it
        if r.1 = 2 ∧ (r.2.flags it).linked then (.fromLru holdLock, r.2)
        else (.busy, (r.2.refcountDecr it).2.tryLockUnlock holdLock)
    else (.pass, s)
  else (.pass, s)

/-- `it->refcount = 0; it->it_flags = 0; it->slabs_clsid = 255`. -/
def wipe (it : Ptr) : Store :=
  ((s.setRefcount it 0).setFlags it .none).setClsid it 255

/-- The loop's body up to the next position: whether the chunk was busy. -/
def moveChunk (it : Ptr) (id : ℕ) : Bool × Store :=
  match s.moveStatus it id with
  | (.fromLru holdLock, s') =>
    let s' := (s'.doItemUnlink it (s.hv it)).tryLockUnlock holdLock
    -- the item is gone without a `FreeItem`: the bytes it was charged for stay charged
    (false, { s'.wipe it with trace := .free it (s'.flags it).linked :: s'.trace })
  | (.fromSlab, s) => (false, s.wipe it)
  | (.busy, s) => (true, s)
  | (.locked, s) => (true, s)
  | (.pass, s) => (false, s)

/-- The loop of `SlabsRebalancerMove` with `n` rounds left: page, `was_busy` and store. -/
def moveLoop : ℕ → Slab → ℕ → Store → Slab × ℕ × Store
  | 0, r, wasBusy, s => (r, wasBusy, s)
  | n + 1, r, wasBusy, s =>
    let m := s.moveChunk (.chunk r.slabPos) r.sClsid
    let busy := if m.1 then 1 else 0
    let r := { r with
      busyItems := r.busyItems + busy
      slabPos := r.slabPos + (m.2.slabs.slabclass r.sClsid).size }
    if r.slabEnd ≤ r.slabPos then (r, wasBusy + busy, m.2)
    else moveLoop n r (wasBusy + busy) m.2

/-- `SlabsRebalancerMove()`: `was_busy`, the page and the store. -/
def slabsRebalancerMove (slabBulkCheck : ℕ) (r : Slab) : ℕ × Slab × Store :=
  let m := moveLoop slabBulkCheck r 0 s
  let r := m.1
  let r :=
    if r.slabEnd ≤ r.slabPos then
      -- some items were busy: start again from the top
      if r.busyItems ≠ 0 then { r with slabPos := r.slabStart, busyItems := 0 }
      else { r with done := r.done + 1 }
    else r
  (m.2.1, r, m.2.2)

end Store

/-! ## One chunk -/

/-- The rebalancer takes chunk `x` of class `c`; `n` bytes stay charged. -/
def Moved.take (m : Moved) (c : ℕ) (x : Ptr) (n : ℕ) : Moved :=
  ⟨Function.update m.gone c (x :: m.gone c), Function.update m.lost c (m.lost c + n)⟩

theorem Moved.mem_take (m : Moved) (c : ℕ) (x : Ptr) (n c' : ℕ) (y : Ptr) :
    y ∈ (m.take c x n).gone c' ↔ y ∈ m.gone c' ∨ c' = c ∧ y = x :=
  FreelistsOk.mem_update_cons m.gone c c' y x

/-- An item is gone, and its bytes stay charged. -/
theorem Counters.lose {s t : Store} {items : List Ptr} {alloc : ℕ → List Ptr} {m : Moved}
    {x : Ptr} {c : ℕ} (h : Counters s items alloc m.lost) (hx : x ∈ alloc c) (hst : t.stats = s.stats)
    (ha : t.assoc = s.assoc) (hsl : t.slabs = s.slabs)
    (hi : ∀ y ∈ items, t.heap.ntotal y = s.heap.ntotal y)
    (hn : ∀ c', ∀ y ∈ Function.update alloc c ((alloc c).erase x) c',
      t.heap.ntotal y = s.heap.ntotal y) :
    Counters t items (Function.update alloc c ((alloc c).erase x))
      (m.take c x (s.heap.ntotal x)).lost where
  currItems := by rw [hst]; exact h.currItems
  currBytes := by rw [hst, List.map_congr_left hi]; exact h.currBytes
  hash := by rw [hst, ha]; exact h.hash
  requested c' := by
    rw [hsl, h.requested, List.map_congr_left (hn c')]
    by_cases e : c' = c
    · subst e
      simp only [Moved.take, Function.update_self]
      rw [← List.sum_map_erase s.heap.ntotal hx]
      congr 1
      omega
    · simp only [Moved.take, Function.update_of_ne e]
  fits c' y hy := by
    rw [hsl, hn c' y hy]
    refine h.fits c' y ?_
    by_cases e : c' = c
    · subst e
      rw [Function.update_self] at hy
      exact List.mem_of_mem_erase hy
    · rwa [Function.update_of_ne e] at hy

theorem Store.wipe_sameAt (s : Store) {x y : Ptr} (hy : y ≠ x) : s.heap.SameAt (s.wipe x).heap y :=
  ⟨rfl, rfl, rfl, Function.update_of_ne hy _ _, Function.update_of_ne hy _ _,
    Function.update_of_ne hy _ _, rfl, rfl, rfl, rfl⟩

theorem Store.wipe_killed (s : Store) (x : Ptr) : Killed (s.wipe x).heap x :=
  ⟨Function.update_self _ _ _, Function.update_self _ _ _, Function.update_self _ _ _⟩

namespace Inv

variable {b : Base} {s : Store} {v : View} {refs : Ptr → ℕ} {x : Ptr} {c : ℕ}

/-- Chunks that the rebalancer has taken stay as they are. -/
theorem gone_take (h : Inv b s v refs) {t : Store} (hk : Killed t.heap x)
    (hs : ∀ y, y ≠ x → s.heap.SameAt t.heap y) (n c' : ℕ) (y : Ptr)
    (hy : y ∈ (b.moved.take c x n).gone c') : Killed t.heap y := by
  by_cases e : y = x
  · rw [e]; exact hk
  · have hy := ((Moved.mem_take _ _ _ _ _ _).mp hy).resolve_right fun hy => e hy.2
    exact (h.gone c' y hy).congr (hs y e).slabsClsid (hs y e).refcount (hs y e).itFlags

/-- **A free chunk is taken.** -/
theorem takeSlot (h : Inv b s v refs) (hx : x ∈ v.free c) :
    Inv ⟨b.held, b.trace, b.moved.take c x 0⟩ ((s.removeSlot x c).wipe x)
      { v with free := Function.update v.free c ((v.free c).erase x) } refs := by
  have hna : ¬ v.Alloc x := fun ⟨c', hx'⟩ => h.alloc_not_free hx' c hx
  have hl : x ∉ v.items := fun hm => hna (h.items_alloc x hm)
  have hrefs := h.refs_zero x hna
  obtain ⟨a, rfl⟩ := h.slabs.isChunk (.inl hx)
  have hfree : ∀ c', .chunk a ∉ Function.update v.free c ((v.free c).erase (.chunk a)) c' := by
    intro c' hm
    by_cases e : c' = c
    · subst e
      rw [Function.update_self] at hm
      exact (h.slabs.freelists.nodup c').not_mem_erase hm
    · rw [Function.update_of_ne e] at hm
      exact e (h.slabs.freelists.disjoint c' c _ hm hx)
  have hsame : ∀ y, y ≠ .chunk a →
      s.heap.SameAt ((s.removeSlot (.chunk a) c).wipe (.chunk a)).heap y := fun y hy => by
    have e := (s.removeSlot (.chunk a) c).wipe_sameAt hy
    exact ⟨e.time, e.exptime, e.nbytes, e.refcount, e.itFlags, e.slabsClsid, e.key, e.cas, e.suffix,
      e.data⟩
  have haside : Aside s ((s.removeSlot (.chunk a) c).wipe (.chunk a)) v (.chunk a) := by
    refine ⟨hsame, fun q y hy => ?_, ?_, rfl, rfl, rfl, rfl, rfl⟩
    · obtain ⟨h1, h2⟩ := h.slabs.freelists.neighbours hx (h.queue_not_free hy c)
      have h3 := h.slabs.freelists.next_ne_self hx
      simp only [Store.wipe, Store.setClsid, Store.setFlags, Store.setRefcount, Store.removeSlot,
        Store.setClass, setAt_of_ne h3]
      exact ⟨setAt_of_ne h2, setAt_of_ne h1⟩
    · rw [(Store.wipe_killed _ _).itFlags]; rfl
  have hperm : ∀ c', (Function.update (b.taken v) c (.chunk a :: b.taken v c) c').Perm
      (Base.taken ⟨b.held, b.trace, b.moved.take c (.chunk a) 0⟩ v c') := fun c' => by
    by_cases e : c' = c
    · subst e
      simp only [Base.taken, Moved.take, Function.update_self]
      exact List.perm_middle.symm
    · simp only [Base.taken, Moved.take, Function.update_of_ne e]
      exact .refl _
  have hrefs' : refs = Function.update refs (.chunk a) 0 := by
    rw [← hrefs, Function.update_eq_self]
  rw [hrefs']
  refine h.aside haside rfl hl ?_ (fun c' y => ?_) 
    (((h.slabs.removeSlot hx).permAlloc hperm).congr fun c' y hy => ?_)
    (h.gone_take (Store.wipe_killed _ _) hsame 0) (fun y => ?_) h.trace ⟨[], rfl, fun _ hm => by cases hm⟩
    ?_
  · have := h.held_le (.chunk a)
    omega
  · exact ⟨fun hy => ⟨hy, fun e => hna (e ▸ ⟨c', hy⟩)⟩, And.left⟩
  · have hne : y ≠ .chunk a := fun e => hfree c' (e ▸ hy)
    exact ⟨rfl, rfl, Function.update_of_ne hne _ _, Function.update_of_ne hne _ _⟩
  · exact ⟨fun hy => ⟨hy, fun e => hna (e ▸ (h.live y).mp hy)⟩, And.left⟩
  · have hlost : (b.moved.take c (.chunk a) 0).lost = b.moved.lost := Function.update_eq_self _ _
    rw [hlost]
    refine h.counters.congr ⟨rfl, rfl⟩ h.counters.hash (fun c' => ?_) (fun y hy => ?_)
      fun c' y hy => ?_
    · refine ⟨?_, ((SlabsOk.removeSlot_samePages s _ c).cls c').size⟩
      by_cases e : c' = c
      · subst e
        simp only [Store.wipe, Store.setClsid, Store.setFlags, Store.setRefcount, Store.removeSlot,
          Store.setClass, Function.update_self]
      · simp only [Store.wipe, Store.setClsid, Store.setFlags, Store.setRefcount, Store.removeSlot,
          Store.setClass, Function.update_of_ne e]
    · exact (hsame y (ne_of_mem_of_not_mem hy hl)).ntotal
    · exact (hsame y fun e => hna (e ▸ ⟨c', hy⟩)).ntotal

/-- **An item that is not linked is taken**, with the bytes it was charged for. -/
theorem wipe (h : Inv b s v refs) (hx : x ∈ v.alloc c) (hl : x ∉ v.items) (hheld : b.held x = 0) :
    Inv ⟨b.held, b.trace, b.moved.take c x (s.heap.ntotal x)⟩
      { s.wipe x with trace := .free x (s.flags x).linked :: s.trace }
      { v with alloc := Function.update v.alloc c ((v.alloc c).erase x) }
      (Function.update refs x 0) := by
  have hxa : v.Alloc x := ⟨c, hx⟩
  have haside : Aside s { s.wipe x with trace := .free x (s.flags x).linked :: s.trace } v x := by
    refine ⟨fun y hy => s.wipe_sameAt hy, fun _ _ _ => ⟨rfl, rfl⟩, ?_, rfl, rfl, rfl, rfl, rfl⟩
    show ((s.wipe x).heap.itFlags x).linked = false
    rw [(Store.wipe_killed _ _).itFlags]; rfl
  have hperm : ∀ c', (b.taken v c').Perm (Base.taken
      ⟨b.held, b.trace, b.moved.take c x (s.heap.ntotal x)⟩
      { v with alloc := Function.update v.alloc c ((v.alloc c).erase x) } c') := fun c' => by
    by_cases e : c' = c
    · subst e
      simp only [Base.taken, Moved.take, Function.update_self]
      exact ((List.perm_cons_erase hx).append_right _).trans List.perm_middle.symm
    · simp only [Base.taken, Moved.take, Function.update_of_ne e]
      exact .refl _
  obtain ⟨hlive, htrace, hev⟩ := h.free_trace
    (t := { s.wipe x with trace := .free x (s.flags x).linked :: s.trace }) hxa
    (by simp only [Store.flags, h.unlinked_of_not_mem hxa hl]) hheld
  refine h.aside haside (h.alloc_isChunk hxa) hl hheld (h.mem_alloc_erase hx)
    ((h.slabs.permAlloc hperm).congr fun c' y hy => ?_)
    (h.gone_take (s.wipe_killed x) (fun y hy => s.wipe_sameAt hy) _) hlive htrace hev ?_
  · have hne : y ≠ x := fun e => h.alloc_not_free hx c' (e ▸ hy)
    exact ⟨rfl, rfl, Function.update_of_ne hne _ _, Function.update_of_ne hne _ _⟩
  · refine h.counters.lose hx rfl rfl rfl (fun y hy => ?_) fun c' y hy => ?_
    · exact (s.wipe_sameAt (ne_of_mem_of_not_mem hy hl)).ntotal
    · exact (s.wipe_sameAt ((h.mem_alloc_erase hx c' y).mp hy).2).ntotal

/-! ### A visit -/

theorem doItemRemove_clsid (s : Store) {y : Ptr} (hy : y ≠ x) :
    (s.doItemRemove x).heap.slabsClsid y = s.heap.slabsClsid y := by
  unfold Store.doItemRemove Store.freeItem Store.doSlabsFree
  split_ifs
  · exact Function.update_of_ne hy _ _
  · rfl
  · rfl

/-- An item that somebody holds stays allocated when it is unlinked. -/
theorem doItemUnlink_held (h : Inv b s v refs) (hx : x ∈ v.items) (h1 : 1 ≤ refs x)
    (hle : refs x ≤ 65535) {t : Store} (ht : t = s.doItemUnlink x (s.hash (s.heap.key x))) :
    ∃ v', Inv b t v' refs ∧ v'.items = v.items.erase x ∧ (∀ y, v'.Alloc y ↔ v.Alloc y) ∧
      SameData s t ∧ ∀ y, y ≠ x → t.heap.slabsClsid y = s.heap.slabsClsid y := by
  have hcore := h.unlinkCore hx
  have hni : x ∉ v.items.erase x := h.table.holds.nodup.not_mem_erase
  have hrc := hcore.refcount_unlinked (h.items_alloc x hx) hni
  rw [Function.update_self] at hrc
  have hheld := h.held_le x
  obtain ⟨v', hv', hq, hal⟩ := hcore.doItemRemove (x := x) (by rw [Function.update_self]; omega)
    (by omega)
  rw [Function.update_self, update_back] at hv'
  have he : t = (s.unlinkCore x (s.hash (s.heap.key x))).doItemRemove x := by
    rw [ht, Store.doItemUnlink, if_pos (h.linked_of_mem hx)]
  rw [he]
  refine ⟨v', hv', hq.items, fun y => (hal y).trans (and_iff_left fun _ => .inr ?_),
    (unlinkCore_sameData s x _).1.trans hq.data, fun y hy => ?_⟩
  · rw [Function.update_self]; omega
  · rw [doItemRemove_clsid _ hy, (unlinkCore_clsid s x _).1]

end Inv

/-- A visit to chunk `x` takes at most that chunk, and leaves the others alone. -/
structure Visited (m m' : Moved) (s s' : Store) (v v' : View) (x : Ptr) : Prop where
  gone : ∀ c, m.gone c ⊆ m'.gone c
  items : ∀ y, y ≠ x → (y ∈ v'.items ↔ y ∈ v.items)
  alloc : ∀ y, y ≠ x → (v'.Alloc y ↔ v.Alloc y)
  clsid : ∀ y, y ≠ x → s'.heap.slabsClsid y = s.heap.slabsClsid y
  grows : s.slabs.Grows s'.slabs
  settings : s'.settings = s.settings

theorem Visited.idle {m : Moved} {s s' : Store} {v : View} {x : Ptr}
    (hc : s'.heap.slabsClsid = s.heap.slabsClsid) (hsl : s'.slabs = s.slabs)
    (hst : s'.settings = s.settings) : Visited m m s s' v v x :=
  ⟨fun _ _ h => h, fun _ _ => .rfl, fun _ _ => .rfl, fun _ _ => by rw [hc], by rw [hsl]; exact .refl _,
    hst⟩

namespace Inv

variable {b : Base} {s : Store} {v : View} {refs : Ptr → ℕ} {x : Ptr} {c : ℕ}

/-- The visit to a linked item that nobody else holds, from the lock on. -/
theorem moveLinked (h : Inv b s v refs) (hx : x ∈ v.items) (hc : x ∈ v.alloc c) (h0 : refs x = 0)
    (l : ℕ) {u t : Store}
    (hu : u = ((s.refcountIncr x).2.doItemUnlink x (s.hv x)).tryLockUnlock l)
    (ht : t = { u.wipe x with trace := .free x (u.flags x).linked :: u.trace }) :
    ∃ m v', Inv ⟨b.held, b.trace, m⟩ t v' refs ∧ Visited b.moved m s t v v' x ∧ x ∈ m.gone c := by
  have hb := h.held_le x
  have h1 := h.incr (h.items_alloc x hx)
  obtain ⟨v₂, h2, hit, hal, hd, hcl⟩ := h1.doItemUnlink_held hx (by rw [Function.update_self]; omega)
    (by rw [Function.update_self]; omega) rfl
  have h3 : Inv b u v₂ (Function.update refs x (refs x + 1)) := by
    rw [hu]; exact h2.aux _ _ _ _ rfl
  have hdu : SameData s u := by
    rw [hu]
    exact ((incr_quiet s v x).data.trans hd).trans
      (aux_quiet _ v _ _ (((s.refcountIncr x).2.doItemUnlink x (s.hv x)).itemLocks.erase l) _).data
  have hni : x ∉ v₂.items := by rw [hit]; exact h.table.holds.nodup.not_mem_erase
  obtain ⟨c', hc'⟩ := (hal x).mpr ⟨c, hc⟩
  -- the chunk is of one class only
  obtain rfl : c' = c := h3.slabs.pages.chunks_disjoint h3.slabs.valid
    (h3.slabs.mem_chunks.mpr (.inr (mem_taken hc')))
    (hdu.grows.chunks c x (h.slabs.mem_chunks.mpr (.inr (mem_taken hc))))
  have h4 := h3.wipe hc' hni (by omega)
  rw [← ht, Function.update_idem, ← h0, Function.update_eq_self] at h4
  refine ⟨_, _, h4, ⟨fun c y hy => (Moved.mem_take _ _ _ _ _ _).mpr (.inl hy), fun y hy => ?_,
    fun y hy => ?_, fun y hy => ?_, ?_, ?_⟩, (Moved.mem_take _ _ _ _ _ _).mpr (.inr ⟨rfl, rfl⟩)⟩
  · show y ∈ v₂.items ↔ _
    rw [hit, List.mem_erase_of_ne hy]
  · refine Iff.trans ?_ (hal y)
    exact exists_congr fun d => (h3.mem_alloc_erase hc' d y).trans (and_iff_left hy)
  · rw [ht]
    refine (u.wipe_sameAt hy).slabsClsid.trans ?_
    rw [hu]
    exact hcl y hy
  · rw [ht]; exact hdu.grows
  · rw [ht]; exact hdu.settings

/-- **One visit.** Unless it is an item that is not linked, the chunk is taken or counted as busy. -/
theorem moveChunk (h : Inv b s v refs) (hx : x ∈ s.slabs.chunks c) (hle : refs x ≤ 65534)
    (hlk : v.Alloc x → x ∈ v.items ∧ s.heap.slabsClsid x ≠ 255) :
    ∃ busy s' m v', s.moveChunk x c = (busy, s') ∧ Inv ⟨b.held, b.trace, m⟩ s' v' refs ∧
      Visited b.moved m s s' v v' x ∧ (busy = false → x ∈ m.gone c) := by
  unfold Store.moveChunk Store.moveStatus
  rcases h.slabs.mem_chunks.mp hx with hf | hx
  · -- a free chunk
    have hcl : s.heap.slabsClsid x ≠ 255 := by
      rw [h.slabs.freelists.clsid_zero c x hf]; decide
    rw [if_pos hcl, if_pos (h.slabs.freelists.slabbed c x hf)]
    have hna : ¬ v.Alloc x := fun ⟨c', hx'⟩ => h.alloc_not_free hx' c hf
    refine ⟨false, _, _, _, rfl, h.takeSlot hf, ⟨fun c y hy => (Moved.mem_take _ _ _ _ _ _).mpr (.inl hy),
      fun _ _ => .rfl, fun _ _ => .rfl, fun y hy => Function.update_of_ne hy _ _, ?_, rfl⟩,
      fun _ => (Moved.mem_take _ _ _ _ _ _).mpr (.inr ⟨rfl, rfl⟩)⟩
    have hp := SlabsOk.removeSlot_samePages s x c
    exact ⟨hp.powerLargest, fun c' => (hp.cls c').size, fun c' y hy => by
      show y ∈ (s.removeSlot x c).slabs.chunks c'
      rw [hp.chunks]; exact hy⟩
  rcases List.mem_append.mp hx with hx | hx
  · -- an item
    obtain ⟨hxi, hcl⟩ := hlk ⟨c, hx⟩
    have hok := h.alloc_ok c x hx
    have hln := h.linked_of_mem hxi
    have hrc := hok.refcount
    rw [if_pos hln] at hrc
    rw [if_pos hcl, if_neg (by rw [hok.slabbed]; decide), if_pos hln]
    obtain ⟨e, ht⟩ | ⟨l, e, ht⟩ := s.tryLock_cases (s.hv x)
    · rw [ht]
      exact ⟨true, _, b.moved, v, rfl, h.aux _ _ _ e rfl, .idle rfl rfl rfl, fun hb => by cases hb⟩
    · rw [ht]
      have h1 := h.aux s.itemStats s.crawlers (l :: s.itemLocks) e rfl
      obtain ⟨s1, hs1⟩ : ∃ s1, s1 = ({ s with env := e, itemLocks := l :: s.itemLocks } : Store) :=
        ⟨_, rfl⟩
      replace h1 : Inv b s1 v refs := by rw [hs1]; exact h1
      have hrc1 : s1.heap.refcount x = 1 + refs x := by rw [hs1]; exact hrc
      have hln1 : ((s1.refcountIncr x).2.flags x).linked = true := by rw [hs1]; exact hln
      have hval : (s1.refcountIncr x).1 = 2 ↔ refs x = 0 := by
        show (s1.heap.refcount x + 1) % 65536 = 2 ↔ _
        omega
      rw [← hs1]
      simp only [hval, hln1, and_true]
      by_cases h0 : refs x = 0
      · obtain ⟨m, v', h', vis, hg⟩ := h1.moveLinked hxi hx h0 l rfl rfl
        have hhv : s.hv x = s1.hv x := by rw [hs1]; rfl
        simp only [if_pos h0, hhv]
        refine ⟨false, _, m, v', rfl, h', ⟨vis.gone, vis.items, vis.alloc, fun y hy => ?_, ?_, ?_⟩,
          fun _ => hg⟩
        · rw [vis.clsid y hy, hs1]
        · have := vis.grows
          rw [hs1] at this ⊢
          exact this
        · rw [vis.settings, hs1]
      · simp only [if_neg h0, refcountIncr_decr]
        refine ⟨true, _, b.moved, v, rfl, h1.aux _ _ _ _ rfl, ?_, fun hb => by cases hb⟩
        rw [hs1]
        exact .idle rfl rfl rfl
  · -- it has been taken before
    rw [if_neg (not_not.mpr (h.gone c x hx).clsid)]
    exact ⟨false, _, b.moved, v, rfl, h, .idle rfl rfl rfl, fun _ => hx⟩

end Inv

/-! ## A page -/

/-- The scan of a page of `n` chunks is at chunk `k`: unless some were busy, those before it are
taken. -/
structure Slab.Scan (r : Slab) (m : Moved) (sl : Slabs) (n k : ℕ) : Prop where
  slabPos : r.slabPos = r.slabStart + k * (sl.slabclass r.sClsid).size
  slabEnd : r.slabEnd = r.slabStart + n * (sl.slabclass r.sClsid).size
  le : k ≤ n
  chunks : ∀ i < n,
    Ptr.chunk (r.slabStart + i * (sl.slabclass r.sClsid).size) ∈ sl.chunks r.sClsid
  gone : r.busyItems = 0 → ∀ i < k,
    Ptr.chunk (r.slabStart + i * (sl.slabclass r.sClsid).size) ∈ m.gone r.sClsid

/-- The items in the chunks from `lo` to before `hi` are linked, and none is of class 255. -/
def Slab.AllLinked (r : Slab) (s : Store) (v : View) (lo hi : ℕ) : Prop :=
  ∀ i, lo ≤ i → i < hi → ∀ x,
    x = Ptr.chunk (r.slabStart + i * (s.slabs.slabclass r.sClsid).size) → v.Alloc x →
      x ∈ v.items ∧ s.heap.slabsClsid x ≠ 255

namespace Slab.Scan

variable {r : Slab} {m m' : Moved} {sl sl' : Slabs} {n k : ℕ}

/-- More is taken, and the class may get more pages. -/
theorem mono (h : r.Scan m sl n k) (hm : ∀ c, m.gone c ⊆ m'.gone c) (hg : sl.Grows sl') :
    r.Scan m' sl' n k where
  slabPos := by rw [hg.sizes]; exact h.slabPos
  slabEnd := by rw [hg.sizes]; exact h.slabEnd
  le := h.le
  chunks i hi := by rw [hg.sizes]; exact hg.chunks _ _ (h.chunks i hi)
  gone hb i hi := by rw [hg.sizes]; exact hm _ (h.gone hb i hi)

/-- The next chunk. -/
theorem step (h : r.Scan m sl n k) (hk : k < n) {busy : Bool}
    (hx : busy = false → Ptr.chunk r.slabPos ∈ m.gone r.sClsid) :
    Slab.Scan { r with
      busyItems := r.busyItems + if busy then 1 else 0
      slabPos := r.slabPos + (sl.slabclass r.sClsid).size } m sl n (k + 1) where
  slabPos := by
    show r.slabPos + _ = _
    rw [h.slabPos]; ring
  slabEnd := h.slabEnd
  le := hk
  chunks := h.chunks
  gone hb i hi := by
    have hb : r.busyItems + (if busy then 1 else 0) = 0 := hb
    cases busy with
    | true => rw [if_pos rfl] at hb; omega
    | false =>
      rcases Nat.lt_succ_iff_lt_or_eq.mp hi with hi | rfl
      · exact h.gone (by simpa using hb) i hi
      · show Ptr.chunk (r.slabStart + _) ∈ _
        rw [← h.slabPos]
        exact hx rfl

/-- From the top again. -/
theorem again (h : r.Scan m sl n k) :
    Slab.Scan { r with slabPos := r.slabStart, busyItems := 0 } m sl n 0 where
  slabPos := by simp
  slabEnd := h.slabEnd
  le := Nat.zero_le n
  chunks := h.chunks
  gone _ i hi := absurd hi (Nat.not_lt_zero i)

theorem done (h : r.Scan m sl n k) (d : ℕ) : Slab.Scan { r with done := d } m sl n k :=
  ⟨h.slabPos, h.slabEnd, h.le, h.chunks, h.gone⟩

theorem end_le_iff (h : r.Scan m sl n k) (hs : 1 ≤ (sl.slabclass r.sClsid).size) :
    r.slabEnd ≤ r.slabPos ↔ k = n := by
  rw [h.slabPos, h.slabEnd, Nat.add_le_add_iff_left, Nat.mul_le_mul_right_iff hs]
  exact ⟨fun hn => le_antisymm h.le hn, fun e => e.ge⟩

end Slab.Scan

namespace Inv

variable {b : Base} {s : Store} {v : View} {refs : Ptr → ℕ} {r : Slab} {n k : ℕ}

theorem scan_size_pos (h : Inv b s v refs) (hr : r.Scan b.moved s.slabs n k) (hn : 1 ≤ n) :
    1 ≤ (s.slabs.slabclass r.sClsid).size :=
  h.slabs.valid.size_pos (h.slabs.inRange (h.slabs.mem_chunks.mp (hr.chunks 0 hn)))

/-- **The loop**: the scan goes on, whatever the number of rounds. -/
theorem moveLoop (N : ℕ) {b : Base} {s : Store} {v : View} {r : Slab} {k : ℕ} (h : Inv b s v refs)
    (hr : r.Scan b.moved s.slabs n k) (hk : k < n) (hle : ∀ x, refs x ≤ 65534)
    (hlk : r.AllLinked s v k (min (k + N) n)) (wasBusy : ℕ) :
    ∃ busyItems slabPos wasBusy' s' m v' k', Store.moveLoop N r wasBusy s =
        ({ r with busyItems := busyItems, slabPos := slabPos }, wasBusy', s') ∧
      Inv ⟨b.held, b.trace, m⟩ s' v' refs ∧
      Slab.Scan { r with busyItems := busyItems, slabPos := slabPos } m s'.slabs n k' ∧
      s'.settings = s.settings := by
  induction N generalizing b s v r k wasBusy with
  | zero => exact ⟨_, _, _, s, b.moved, v, k, rfl, h, hr, rfl⟩
  | succ N ih =>
    have hpos := h.scan_size_pos hr (by omega)
    obtain ⟨x, hx⟩ : ∃ x, x = Ptr.chunk r.slabPos := ⟨_, rfl⟩
    have hx' := hx
    rw [hr.slabPos] at hx'
    obtain ⟨busy, s', m, v', he, h', vis, hg⟩ := h.moveChunk (x := x) (c := r.sClsid)
      (hx' ▸ hr.chunks k hk) (hle x) (hlk k le_rfl (by omega) x hx')
    have hg' : busy = false → Ptr.chunk r.slabPos ∈ m.gone r.sClsid := by rw [← hx]; exact hg
    have hr' := (hr.mono vis.gone vis.grows).step hk hg'
    rw [Store.moveLoop, ← hx, he]
    by_cases hend : r.slabEnd ≤ r.slabPos + (s'.slabs.slabclass r.sClsid).size
    · simp only [if_pos hend]
      exact ⟨_, _, _, s', m, v', k + 1, rfl, h', hr', vis.settings⟩
    · simp only [if_neg hend]
      have hk' : k + 1 < n := by
        refine lt_of_le_of_ne hk fun e => hend ?_
        exact (hr'.end_le_iff (by rw [vis.grows.sizes]; exact hpos)).mpr e
      -- the other chunks are as they were
      have hrest : r.AllLinked s' v' (k + 1) (min (k + 1 + N) n) := by
        intro i h1 h2 y hy hya
        rw [vis.grows.sizes] at hy
        have hne : y ≠ x := by
          rw [hy, hx']
          intro e
          have := Nat.eq_of_mul_eq_mul_right hpos (Nat.add_left_cancel (Ptr.chunk.inj e))
          omega
        rw [vis.items y hne, vis.clsid y hne]
        exact hlk i (by omega) (by omega) y hy ((vis.alloc y hne).mp hya)
      obtain ⟨bi, sp, wb, s'', m', v'', k', he', h'', hr'', hs⟩ := ih h' hr' hk' hrest
        (wasBusy + if busy then 1 else 0)
      exact ⟨bi, sp, wb, s'', m', v'', k', he', h'', hr'', hs.trans vis.settings⟩

/-- **One call** of `SlabsRebalancerMove`. -/
theorem slabsRebalancerMove (h : Inv b s v refs) (hr : r.Scan b.moved s.slabs n k) (hk : k < n)
    (hle : ∀ x, refs x ≤ 65534) {N : ℕ} (hlk : r.AllLinked s v k (min (k + N) n))
    (hd : r.done = 0) :
    ∃ wasBusy r' s' m v' k', s.slabsRebalancerMove N r = (wasBusy, r', s') ∧
      Inv ⟨b.held, b.trace, m⟩ s' v' refs ∧ r'.Scan m s'.slabs n k' ∧
      s'.settings = s.settings ∧ (r'.done = 0 → k' < n) ∧ (r'.done ≠ 0 → r'.busyItems = 0 ∧ k' = n) := by
  obtain ⟨bi, sp, wb, s', m, v', k', he, h', hr', hs⟩ := h.moveLoop N hr hk hle hlk 0
  have hpos := h'.scan_size_pos hr' (by omega)
  have hend := hr'.end_le_iff hpos
  unfold Store.slabsRebalancerMove
  rw [he]
  simp only at hend ⊢
  by_cases e : k' = n
  · rw [if_pos (hend.mpr e)]
    by_cases hb : bi = 0
    · rw [if_neg (not_not.mpr hb)]
      exact ⟨wb, _, s', m, v', k', rfl, h', hr'.done _, hs, fun h0 => absurd h0 (Nat.succ_ne_zero _),
        fun _ => ⟨hb, e⟩⟩
    · rw [if_pos hb]
      exact ⟨wb, _, s', m, v', 0, rfl, h', hr'.again, hs, fun _ => by omega, fun h0 => absurd hd h0⟩
  · rw [if_neg fun hc => e (hend.mp hc)]
    exact ⟨wb, _, s', m, v', k', rfl, h', hr', hs, fun _ => lt_of_le_of_ne hr'.le e,
      fun h0 => absurd hd h0⟩

end Inv

/-! ## Runs -/

/-- The store and the page that is being moved. -/
structure MoveRun where
  world : World
  page : Slab

/-- An operation on items, or a call of `SlabsRebalancerMove`. -/
inductive MoveOp where
  | client (op : LifeOp)
  | move (slabBulkCheck : ℕ)

/-- The next `n` chunks of the page hold no item but linked ones, and none whose class number means
that the chunk is taken. -/
def MoveRun.Linked (q : MoveRun) (n : ℕ) : Prop :=
  let size := (q.world.store.slabs.slabclass q.page.sClsid).size
  ∀ i < n, q.page.slabPos + i * size < q.page.slabEnd →
    let x := Ptr.chunk (q.page.slabPos + i * size)
    IsLive q.world.store.trace x →
      (q.world.store.flags x).linked = true ∧ q.world.store.heap.slabsClsid x ≠ 255

namespace MoveOp

def exec (q : MoveRun) : MoveOp → MoveRun
  | .client op => { q with world := op.exec q.world }
  | .move slabBulkCheck =>
    let m := q.world.store.slabsRebalancerMove slabBulkCheck q.page
    ⟨{ q.world with store := m.2.2 }, m.2.1⟩

/-- Clients see to their part; a finished page is not moved again. -/
def Ok (q : MoveRun) : MoveOp → Prop
  | .client op => op.Ok q.world
  | .move slabBulkCheck => 1 ≤ slabBulkCheck ∧ q.page.done = 0

/-- What a call asks of the items it looks at. -/
def Linked (q : MoveRun) : MoveOp → Prop
  | .client _ => True
  | .move slabBulkCheck => q.Linked slabBulkCheck

end MoveOp

/-- A page of any store that is reached, set up to be moved. -/
def MoveInit (q : MoveRun) : Prop := Reach LifeInit LifeStep q.world ∧
  ∃ c, ∃ p ∈ (q.world.store.slabs.slabclass c).slabList, q.page =
    { slabStart := p
      slabEnd := p + (q.world.store.slabs.slabclass c).perslab * (q.world.store.slabs.slabclass c).size
      slabPos := p
      sClsid := c
      busyItems := 0
      done := 0 }

/-- One operation, or one call. -/
def MoveStep (q q' : MoveRun) : Prop := ∃ op : MoveOp, op.Ok q ∧ q' = op.exec q

/-- The same, when calls look at linked items only. -/
def LinkedStep (q q' : MoveRun) : Prop :=
  ∃ op : MoveOp, op.Ok q ∧ q.world.Uncrowded ∧ op.Linked q ∧ q' = op.exec q

/-- The invariant along a run. -/
def MoveRun.Moving (q : MoveRun) : Prop := ∃ m n k, q.world.Alive m ∧
  q.page.Scan m q.world.store.slabs n k ∧ (q.page.done = 0 → k < n) ∧
  (q.page.done ≠ 0 → q.page.busyItems = 0 ∧ k = n)

theorem MoveInit.moving {q : MoveRun} (h : MoveInit q) : q.Moving := by
  obtain ⟨hr, c, p, hp, hpage⟩ := h
  have ha := reach_alive hr
  obtain ⟨v, refs, hv, -⟩ := ha.inv
  have hper := hv.slabs.valid.perslab_pos c (hv.slabs.pages.inRange c p hp)
  refine ⟨.none, (q.world.store.slabs.slabclass c).perslab, 0, ha, ?_, fun _ => hper, ?_⟩
  · rw [hpage]
    refine ⟨by simp, rfl, Nat.zero_le _, fun i hi => ?_, fun _ i hi => absurd hi (Nat.not_lt_zero i)⟩
    exact PagesOk.mem_chunks.mpr ⟨p, hp, mem_pageChunks.mpr ⟨i, hi, rfl⟩⟩
  · rw [hpage]
    exact fun h0 => absurd rfl h0

/-- **One step of a run.** -/
theorem MoveOp.moving {q : MoveRun} (h : q.Moving) {op : MoveOp} (hok : op.Ok q)
    (hun : q.world.Uncrowded) (hlk : op.Linked q) : (op.exec q).Moving := by
  obtain ⟨m, n, k, ha, hr, h0, h1⟩ := h
  obtain ⟨v, refs, hv, hheld⟩ := ha.inv
  cases op with
  | client op =>
    have hk := LifeOp.keeps hv ha.tailRepairTime hok hun
    exact ⟨m, n, k, LifeOp.alive ha hok hun, hr.mono (fun _ _ h => h) hk.grows, h0, h1⟩
  | move N =>
    have hle : ∀ x, refs x ≤ 65534 := fun x => by have := hun.le hv x; omega
    have hkn := h0 hok.2
    have hpos := hv.scan_size_pos hr (by omega)
    have hall : q.page.AllLinked q.world.store v k (min (k + N) n) := by
      intro i hi hi' x hx hxa
      obtain ⟨j, rfl⟩ := Nat.exists_eq_add_of_le hi
      have hxj : x = Ptr.chunk (q.page.slabPos +
          j * (q.world.store.slabs.slabclass q.page.sClsid).size) := by
        rw [hx, hr.slabPos, Nat.add_mul, Nat.add_assoc]
      have hlt : q.page.slabPos + j * (q.world.store.slabs.slabclass q.page.sClsid).size <
          q.page.slabEnd := by
        rw [hr.slabPos, hr.slabEnd, Nat.add_assoc, ← Nat.add_mul]
        exact Nat.add_lt_add_left (Nat.mul_lt_mul_of_pos_right (by omega) hpos) _
      rw [hv.mem_items hxa, hxj]
      exact hlk j (by omega) hlt (hxj ▸ (hv.live x).mpr hxa)
    obtain ⟨wb, r', s', m', v', k', he, h', hr', hs, h2, h3⟩ :=
      hv.slabsRebalancerMove hr hkn hle hall hok.2
    simp only [exec, he]
    refine ⟨m', n, k', ⟨⟨v', refs, h'.rebase fun _ => Nat.zero_le _, hheld⟩, ?_⟩, hr', h2, h3⟩
    exact hs ▸ ha.tailRepairTime

/-- `x` is a chunk of the page. -/
def MoveRun.OnPage (q : MoveRun) (x : Ptr) : Prop := ∃ i,
  q.page.slabStart + i * (q.world.store.slabs.slabclass q.page.sClsid).size < q.page.slabEnd ∧
  x = .chunk (q.page.slabStart + i * (q.world.store.slabs.slabclass q.page.sClsid).size)

/-- **An empty page**: its chunks are wiped and nobody holds one; and of the lists that the queues,
freelists and hash chains represent, none has one. -/
structure MoveRun.Empty (q : MoveRun) : Prop where
  wiped : ∀ x, q.OnPage x → Killed q.world.store.heap x
  held : ∀ x, q.OnPage x → q.world.held x = 0
  lists : ∃ queue free items,
    QueuesOk q.world.store.heap.next q.world.store.heap.prev q.world.store.lru queue ∧
    q.world.store.FreelistsOk free ∧
    TableOk q.world.store.heap.key q.world.store.hash q.world.store.assoc items ∧
    (∀ x, q.OnPage x → (∀ i, x ∉ queue i) ∧ (∀ c, x ∉ free c) ∧ x ∉ items) ∧
    ∀ c, (q.world.store.slabs.slabclass c).slCurr.toNat = (free c).length

/-- **A finished move leaves an empty page**, if the calls have looked at linked items only. -/
theorem page_emptied {q : MoveRun} (h : Reach MoveInit LinkedStep q) (hd : q.page.done ≠ 0) :
    q.Empty := by
  have hm : q.Moving := by
    refine h.invariant (fun _ h0 => h0.moving) ?_
    rintro q q' hq ⟨op, hok, hun, hlk, rfl⟩
    exact MoveOp.moving hq hok hun hlk
  obtain ⟨m, n, k, ha, hr, -, h1⟩ := hm
  obtain ⟨hb, rfl⟩ := h1 hd
  obtain ⟨v, refs, hv, hheld⟩ := ha.inv
  have hgone : ∀ x, q.OnPage x → x ∈ m.gone q.page.sClsid := by
    rintro x ⟨i, hi, rfl⟩
    rw [hr.slabEnd] at hi
    exact hr.gone hb i (Nat.lt_of_mul_lt_mul_right (Nat.lt_of_add_lt_add_left hi))
  have hna : ∀ x, q.OnPage x → ¬ v.Alloc x := fun x hx => hv.gone_not_alloc (hgone x hx)
  have hni : ∀ x, q.OnPage x → x ∉ v.items := fun x hx hm => hna x hx (hv.items_alloc x hm)
  refine ⟨fun x hx => hv.gone _ x (hgone x hx), fun x hx => ?_, v.queue, v.free, v.items, hv.queues,
    hv.slabs.freelists, hv.table, fun x hx => ⟨fun i hm => ?_, fun c => ?_, hni x hx⟩,
    hv.slabs.slCurr_toNat⟩
  · have := hheld x
    rw [hv.refs_zero x (hna x hx)] at this
    omega
  · obtain ⟨a, rfl⟩ := hv.gone_chunk (hgone x hx)
    rcases (hv.queue_iff _ i).mp hm with ⟨hm, -⟩ | ⟨e, -⟩
    · exact hni _ hx hm
    · cases e
  · exact hv.slabs.alloc_not_free (Inv.mem_taken_of_gone (hgone x hx)) c

/-! ### The small store -/

/-- An item has been allocated in the small store, in the second chunk of its first page, which is set
up to be moved. -/
def smallMove : MoveRun :=
  ⟨(LifeOp.op (.alloc (.byte 97) 0 0 3 0)).exec smallWorld, ⟨4096, 4288, 4096, 1, 0, 0⟩⟩

theorem smallMove_init : MoveInit smallMove := by
  have h0 : Reach LifeInit LifeStep smallWorld :=
    .start ⟨smallConfig, fun _ => 0, .willing, smallConfig_ok.slabs, rfl, by decide, by decide, rfl⟩
  refine ⟨h0.next ⟨.op (.alloc (.byte 97) 0 0 3 0), ⟨fun e => e, show 2 ≤ 3 by decide⟩,
    fun x hx => hx.elim, rfl⟩, 1, 4096, by decide, by decide⟩

/-- The first chunk is moved, the item is linked and released, and moved too. -/
def smallMoved : List MoveOp :=
  [.move 1, .client (.link (.chunk 4192)), .client (.op (.remove (.chunk 4192))), .move 1]

/-- Operations and calls one after the other. -/
def MoveRun.run (q : MoveRun) (ops : List MoveOp) : MoveRun := ops.foldl (fun q op => op.exec q) q

/-- If one item is allocated, only that one counts. -/
theorem uncrowded_one {w : World} {x : Ptr} (ht : w.store.trace = [.alloc x])
    (hr : w.store.heap.refcount x + w.store.slack 5 < 65535) : w.Uncrowded := fun y hy => by
  rw [ht] at hy
  rw [hy.resolve_right fun e => e]
  exact hr

theorem linked_one {q : MoveRun} {n : ℕ} {x : Ptr} (ht : q.world.store.trace = [.alloc x])
    (hn : ∀ i < n, x = .chunk (q.page.slabPos +
        i * (q.world.store.slabs.slabclass q.page.sClsid).size) →
      (q.world.store.flags x).linked = true ∧ q.world.store.heap.slabsClsid x ≠ 255) :
    q.Linked n := fun i hi _ hx => by
  rw [ht] at hx
  have e := hx.resolve_right fun e => e
  rw [e]
  exact hn i hi e.symm

/-- The page ends up empty. -/
theorem page_emptied_small : (smallMove.run smallMoved).page.done = 1 ∧
    (smallMove.run smallMoved).Empty := by
  have h0 : Reach MoveInit LinkedStep smallMove := .start smallMove_init
  have h1 := h0.next ⟨.move 1, ⟨le_rfl, rfl⟩, uncrowded_one (x := .chunk 4192) (by decide +kernel)
    (by decide +kernel), linked_one (x := .chunk 4192) (by decide +kernel) (by decide +kernel), rfl⟩
  have h2 := h1.next ⟨.client (.link (.chunk 4192)), by constructor <;> decide +kernel,
    uncrowded_one (x := .chunk 4192) (by decide +kernel) (by decide +kernel), trivial, rfl⟩
  have h3 := h2.next ⟨.client (.op (.remove (.chunk 4192))), by constructor <;> decide +kernel,
    uncrowded_one (x := .chunk 4192) (by decide +kernel) (by decide +kernel), trivial, rfl⟩
  have h4 := h3.next ⟨.move 1, by constructor <;> decide +kernel,
    uncrowded_one (x := .chunk 4192) (by decide +kernel) (by decide +kernel),
    linked_one (x := .chunk 4192) (by decide +kernel) (by decide +kernel), rfl⟩
  exact ⟨by decide +kernel, page_emptied h4 (by decide +kernel)⟩

/-- **The page is not empty**: an item that is allocated but not linked is passed over, and the move is
finished while a client holds it. -/
theorem page_not_empty : Reach MoveInit MoveStep (smallMove.run [.move 2]) ∧
    (smallMove.run [.move 2]).page.done = 1 ∧ (smallMove.run [.move 2]).OnPage (.chunk 4192) ∧
    (smallMove.run [.move 2]).world.store.heap.slabsClsid (.chunk 4192) = 129 ∧
    (smallMove.run [.move 2]).world.store.heap.refcount (.chunk 4192) = 1 ∧
    (smallMove.run [.move 2]).world.held (.chunk 4192) = 1 := by
  have h0 : Reach MoveInit MoveStep smallMove := .start smallMove_init
  exact ⟨h0.next ⟨.move 2, ⟨by decide, rfl⟩, rfl⟩, by decide +kernel,
    ⟨1, by decide +kernel, by decide +kernel⟩, by decide +kernel, by decide +kernel, by decide +kernel⟩

end Mdb
