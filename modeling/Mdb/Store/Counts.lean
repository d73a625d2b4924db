import Mdb.Assoc.Handoff
import Mdb.Store.Coherence

/-!
# The counters agree

Three modules count the linked items, and `g_stats` their bytes and the size of the hash table. The
clients' operations run against the maintenance thread of the table.

* `Inv.sum_itemSizes`: the sizes of the 256 queues add up to the number of items;
* `Inv.sum_ntotal_le`, `Inv.sum_items_lt`: what is handed out is little, so that no sum wraps;
* `CountsAgree`: what every counter is;
* `CountRun`, **`counters_agree`**: the counters agree as long as no wake-up of the maintenance thread
  falls into an expansion; such a wake-up makes `hash_bytes` wrong.
-/

namespace Mdb

open Run

namespace Inv

variable {b : Base} {s : Store} {v : View} {refs : Ptr → ℕ} {x : Ptr}

/-! ## Queues -/

theorem sum_ofNat_uInt32 (l : List ℕ) (f : ℕ → ℕ) :
    (l.map fun q => UInt32.ofNat (f q)).sum = UInt32.ofNat (l.map f).sum := by
  induction l with
  | nil => rfl
  | cons q l ih => rw [List.map_cons, List.sum_cons, List.map_cons, List.sum_cons, ih, UInt32.ofNat_add]

theorem items_nodup (h : Inv b s v refs) : v.items.Nodup := h.table.holds.nodup

/-- The items of all queues are the linked items. -/
theorem queues_perm (h : Inv b s v refs) :
    ((List.range largestId).flatMap fun q => (v.queue q).filter Ptr.isChunk).Perm v.items := by
  refine (List.perm_ext_iff_of_nodup ?_ h.items_nodup).mpr fun x => ?_
  · refine List.nodup_flatMap.mpr ⟨fun q _ => (h.queues.dll q).nodup.filter _, ?_⟩
    refine List.nodup_range.imp fun {q q'} hne => ?_
    intro x hx hx'
    exact hne (h.queues.disjoint q q' x (List.mem_filter.mp hx).1 (List.mem_filter.mp hx').1)
  · rw [List.mem_flatMap]
    constructor
    · rintro ⟨q, -, hx⟩
      obtain ⟨hx, hc⟩ := List.mem_filter.mp hx
      rcases (h.queue_iff x q).mp hx with ⟨hi, -⟩ | ⟨rfl, -⟩
      · exact hi
      · cases hc
    · intro hx
      obtain ⟨c, hc⟩ := h.items_alloc x hx
      exact ⟨s.heap.slabsClsid x, List.mem_range.mpr (h.alloc_ok c x hc).clsid_lt,
        List.mem_filter.mpr ⟨h.mem_queue hx, h.alloc_isChunk ⟨c, hc⟩⟩⟩

/-- **The sizes of the queues add up to the number of items.** -/
theorem sum_itemSizes (h : Inv b s v refs) :
    ((List.range largestId).map s.lru.itemSizes).sum = UInt32.ofNat v.items.length := by
  rw [funext h.queues.size, sum_ofNat_uInt32, ← h.queues_perm.length_eq, List.length_flatMap]
  simp only [List.countP_eq_length_filter]

/-! ## Bytes -/

/-- The items handed out of one class take two gigabytes at most. -/
theorem sum_ntotal_le (h : Inv b s v refs) (c : ℕ) :
    ((v.alloc c).map s.heap.ntotal).sum ≤ 2 ^ 31 := by
  have hlen : (v.alloc c).length ≤ (s.slabs.chunks c).length := by
    rw [← (h.slabs.perm c).length_eq, List.length_append, Base.taken, List.length_append]
    omega
  have hsum : ((v.alloc c).map s.heap.ntotal).sum ≤
      (v.alloc c).length * ((s.slabs.slabclass c).size + 8) := by
    have := List.sum_le_card_nsmul ((v.alloc c).map s.heap.ntotal) ((s.slabs.slabclass c).size + 8)
      fun n hn => by
        obtain ⟨x, hx, rfl⟩ := List.mem_map.mp hn
        exact h.counters.fits c x hx
    rwa [List.length_map, smul_eq_mul] at this
  have h1 := h.slabs.pages.chunks_length_mul_size_le h.slabs.valid c
  have h2 := h.slabs.pages.chunks_length_mul_le h.slabs.valid c
  have h3 := Nat.mul_le_mul_right (s.slabs.slabclass c).size hlen
  simp only [sizeofItem] at h2
  rw [Nat.mul_add] at hsum
  omega

/-- The linked items take fewer bytes than a 64-bit counter can count. -/
theorem sum_items_lt (h : Inv b s v refs) : (v.items.map s.heap.ntotal).sum < 2 ^ 64 := by
  obtain ⟨C, hC⟩ : ∃ C, C = Finset.range maxNumberOfSlabClasses := ⟨_, rfl⟩
  have hdisj : (C : Set ℕ).PairwiseDisjoint fun c => (v.alloc c).toFinset := by
    intro c _ c' _ hne
    refine Finset.disjoint_left.mpr fun x hx hx' => hne ?_
    exact h.alloc_unique (List.mem_toFinset.mp hx) (List.mem_toFinset.mp hx')
  have hsub : v.items.toFinset ⊆ C.biUnion fun c => (v.alloc c).toFinset := by
    intro x hx
    obtain ⟨c, hc⟩ := h.items_alloc x (List.mem_toFinset.mp hx)
    have hlt := (h.alloc_inRange hc).2.trans_lt h.slabs.valid.powerLargest_lt
    refine Finset.mem_biUnion.mpr ⟨c, ?_, List.mem_toFinset.mpr hc⟩
    rw [hC]; exact Finset.mem_range.mpr hlt
  calc (v.items.map s.heap.ntotal).sum
      = ∑ x ∈ v.items.toFinset, s.heap.ntotal x := (List.sum_toFinset _ h.items_nodup).symm
    _ ≤ ∑ x ∈ C.biUnion fun c => (v.alloc c).toFinset, s.heap.ntotal x :=
        Finset.sum_le_sum_of_subset hsub
    _ = ∑ c ∈ C, ∑ x ∈ (v.alloc c).toFinset, s.heap.ntotal x := Finset.sum_biUnion hdisj
    _ ≤ ∑ _c ∈ C, 2 ^ 31 := by
        refine Finset.sum_le_sum fun c _ => ?_
        rw [List.sum_toFinset _ (h.alloc_nodup c)]
        exact h.sum_ntotal_le c
    _ < 2 ^ 64 := by rw [Finset.sum_const, hC, Finset.card_range]; decide

end Inv

/-- **What the counters are**, where `items` are the linked items. -/
structure CountsAgree (s : Store) (items : List Ptr) : Prop where
  nodup : items.Nodup
  linked : ∀ x, x ∈ items ↔ x.isChunk = true ∧ (s.flags x).linked = true
  currItems : s.stats.currItems = UInt32.ofNat items.length
  hashItems : s.assoc.hashItems = UInt32.ofNat items.length
  itemSizes : ((List.range largestId).map s.lru.itemSizes).sum = UInt32.ofNat items.length
  currBytes : s.stats.currBytes.toNat = (items.map s.heap.ntotal).sum
  isExpanding : s.stats.hashIsExpanding = s.assoc.expanding
  hashBytes : s.stats.hashBytes = UInt64.ofNat (8 * 2 ^ s.assoc.hashpower +
    if s.assoc.expanding then 8 * 2 ^ (s.assoc.hashpower - 1) else 0)

theorem Inv.countsAgree {b : Base} {s : Store} {v : View} {refs : Ptr → ℕ} (h : Inv b s v refs) :
    CountsAgree s v.items where
  nodup := h.items_nodup
  linked x := by
    constructor
    · intro hx
      exact ⟨h.alloc_isChunk (h.items_alloc x hx), h.linked_of_mem hx⟩
    · rintro ⟨hc, hl⟩
      exact h.mem_of_linked hc hl
  currItems := h.counters.currItems
  hashItems := h.table.count
  itemSizes := h.sum_itemSizes
  currBytes := by rw [h.counters.currBytes, UInt64.toNat_ofNat_of_lt' h.sum_items_lt]
  isExpanding := h.counters.hash.expanding
  hashBytes := h.counters.hash.bytes

/-! ## Runs -/

/-- The store with its clients, and the maintenance thread of the table. -/
structure CountRun where
  world : World
  pc : MaintenancePc

/-- A client's operation, a move of the thread in its loop, or the end of its wait. -/
inductive CountEvent where
  | client (op : Op)
  | move
  | wake

namespace CountRun

variable (r : CountRun)

def setStore (s : Store) : CountRun := { r with world := { r.world with store := s } }

/-- **One step.** After the wait the thread expands the table, whatever it finds. -/
def exec : CountEvent → CountRun
  | .client op => { r with world := (r.world.exec op).2 }
  | .move =>
    match r.pc with
    | .loop i => { r.setStore (r.world.store.runLoop i).2 with pc := (r.world.store.runLoop i).1 }
    | .waiting => r
  | .wake =>
    match r.pc with
    | .loop _ => r
    | .waiting => { r.setStore r.world.store.assocExpand with pc := .loop 0 }

/-- The steps, one after the other. -/
def run (evs : List CountEvent) : CountRun := evs.foldl exec r

/-- An initialised store, with the thread about to enter its loop. -/
def Init : Prop := r.world.Init ∧ r.pc = .loop 0

end CountRun

/-- **The condition**: a wake-up does not fall into an expansion, nor does it find the largest table. -/
def CountEvent.Ok (r : CountRun) : CountEvent → Prop
  | .client op => op.Plain r.world ∧ op.Ok r.world ∧ r.world.Few
  | .move => True
  | .wake => r.pc = .waiting →
      r.world.store.assoc.expanding = false ∧ r.world.store.assoc.hashpower < 31

/-- One step under that condition. -/
def CountStep (r r' : CountRun) : Prop := ∃ ev : CountEvent, ev.Ok r ∧ r' = r.exec ev

namespace CountRun

variable {r : CountRun}

/-- The table, its counters or the thread's flag have changed. -/
theorem balanced_setStore (h : r.world.Balanced) {s' : Store}
    (hs : s'.settings = r.world.store.settings)
    (hinv : ∀ b v refs, Inv b r.world.store v refs → Inv b s' v refs) (pc : MaintenancePc) :
    ({ r.setStore s' with pc := pc } : CountRun).world.Balanced := by
  obtain ⟨⟨hset, ⟨v, hv⟩, hle⟩, hoff⟩ := h
  refine ⟨⟨hs ▸ hset, ⟨v, ?_⟩, hle⟩, hs ▸ hoff⟩
  exact (hinv _ _ _ hv).rebase fun _ => Nat.zero_le _

theorem inv_runLoop {b : Base} {s : Store} {v : View} {refs : Ptr → ℕ} (h : Inv b s v refs) (i : ℕ) :
    Inv b (s.runLoop i).2 v refs := by
  unfold Store.runLoop
  split_ifs
  · exact h.migrateBucket
  · exact h
  · have htab : TableOk s.heap.key s.hash { s.assoc with startedExpanding := false } v.items :=
      ⟨h.table.holds, h.table.keys, h.table.hashpower_pos, h.table.count, h.table.bucket⟩
    exact h.ofTable htab h.hashpower_le (h.counters.hash.congr rfl rfl) ⟨rfl, rfl⟩

theorem settings_runLoop (s : Store) (i : ℕ) : (s.runLoop i).2.settings = s.settings := by
  unfold Store.runLoop
  split_ifs
  · obtain ⟨a, e, st, hs, -⟩ := s.migrateBucket_frame
    show s.migrateBucket.settings = _
    rw [hs]
  · rfl
  · rfl

/-- **One step.** -/
theorem balanced_exec (h : r.world.Balanced) {ev : CountEvent} (hok : ev.Ok r) :
    (r.exec ev).world.Balanced := by
  cases ev with
  | client op => exact h.exec op hok.1.exact hok.2.1 hok.2.2
  | move =>
    unfold CountRun.exec
    cases r.pc with
    | loop i =>
      exact balanced_setStore h (settings_runLoop _ i) (fun _ _ _ hv => inv_runLoop hv i) _
    | waiting => exact h
  | wake =>
    unfold CountRun.exec
    cases hpc : r.pc with
    | loop i => exact h
    | waiting =>
      obtain ⟨he, hp⟩ := hok hpc
      obtain ⟨a, e, st, hs, -⟩ := r.world.store.assocExpand_frame
      exact balanced_setStore h (by rw [hs]) (fun _ _ _ hv => hv.assocExpand he hp) _

end CountRun

/-- A wake-up in an expansion adds the new table to the bytes of the other two. -/
theorem hashBytes_assocExpand {s : Store} {items : List Ptr} (h : CountsAgree s items)
    (he : s.assoc.expanding = true) (hp : 1 ≤ s.assoc.hashpower) (hp' : s.assoc.hashpower ≤ 31)
    (hc : s.env.callocs 0 = true) (items' : List Ptr) : ¬ CountsAgree s.assocExpand items' := by
  intro h'
  have hb := h.hashBytes
  have hb' := h'.hashBytes
  simp only [Store.assocExpand, if_pos hc, if_true, he, Nat.add_sub_cancel, Store.hashsize] at hb hb'
  rw [hb, ← UInt64.ofNat_add] at hb'
  have hlt : 2 ^ (s.assoc.hashpower - 1) ≤ 2 ^ 30 := Nat.pow_le_pow_right (by decide) (by omega)
  have h0 : 0 < 2 ^ (s.assoc.hashpower - 1) := Nat.pow_pos (by decide)
  have h1 : 2 ^ s.assoc.hashpower = 2 * 2 ^ (s.assoc.hashpower - 1) := by
    rw [← Nat.pow_succ', Nat.succ_eq_add_one, Nat.sub_add_cancel hp]
  have h2 : 2 ^ (s.assoc.hashpower + 1) = 4 * 2 ^ (s.assoc.hashpower - 1) := by
    rw [Nat.pow_succ, h1]; ring
  have e := congrArg UInt64.toNat hb'
  rw [h2, h1, UInt64.toNat_ofNat_of_lt' (by simp only [UInt64.size]; omega),
    UInt64.toNat_ofNat_of_lt' (by simp only [UInt64.size]; omega)] at e
  omega

/-- **The counters agree** in every state reached, as long as no wake-up of the maintenance thread falls
into an expansion; and one that does, with memory for another table, always makes them wrong. -/
theorem counters_agree {r : CountRun} (h : Reach CountRun.Init CountStep r) :
    (∃ items, CountsAgree r.world.store items) ∧
    (r.pc = .waiting → r.world.store.assoc.expanding = true → r.world.store.env.callocs 0 = true →
      ∀ items, ¬ CountsAgree (r.exec .wake).world.store items) := by
  have hb : r.world.Balanced := by
    refine h.invariant (I := fun r => r.world.Balanced) (fun _ h0 => .init h0.1) ?_
    rintro r r' hr ⟨ev, hok, rfl⟩
    exact CountRun.balanced_exec hr hok
  obtain ⟨v, hv⟩ := hb.tracked.inv
  refine ⟨⟨v.items, hv.countsAgree⟩, fun hpc he hc items => ?_⟩
  rw [CountRun.exec, hpc]
  exact hashBytes_assocExpand hv.countsAgree he hv.table.hashpower_pos hv.hashpower_le hc items

/-- The small store, with the maintenance thread at the start of its loop. -/
def smallCount : CountRun := ⟨smallWorld, .loop 0⟩

/-- An item is stored, the thread waits and expands the table on a wake-up: one item is counted
everywhere, and 48 bytes of tables. -/
theorem counters_agree_wake : (smallCount.run
      [.move, .client (.alloc (.byte 97) 0 0 3 0), .client (.store (.chunk 4192) .set),
        .wake]).world.store.stats.hashBytes = 48 ∧
    ∃ items, CountsAgree (smallCount.run
      [.move, .client (.alloc (.byte 97) 0 0 3 0), .client (.store (.chunk 4192) .set),
        .wake]).world.store items := by
  have hfew : smallWorld.Few := smallWorld_few [] (by decide)
  have hfew1 := smallWorld_few [.alloc (.byte 97) 0 0 3 0] (by decide)
  have h0 : Reach CountRun.Init CountStep smallCount :=
    .start ⟨⟨smallConfig, fun _ => 0, .willing, smallConfig_ok, rfl⟩, rfl⟩
  have h1 := h0.next ⟨.move, trivial, rfl⟩
  have h2 := h1.next ⟨.client (.alloc (.byte 97) 0 0 3 0),
    ⟨trivial, show 2 ≤ 3 by decide, hfew⟩, rfl⟩
  have h3 := h2.next ⟨.client (.store (.chunk 4192) .set),
    ⟨show _ = false by decide, show 1 ≤ _ by decide, hfew1⟩, rfl⟩
  have h4 := h3.next ⟨.wake, fun _ => ⟨by decide, by decide⟩, rfl⟩
  exact ⟨by decide, (counters_agree h4).1⟩

/-- Four items are stored while the thread waits; the last insertion starts an expansion. -/
def smallExpansion : CountRun := smallCount.run
  [.move, .client (.alloc (.byte 97) 0 0 3 0), .client (.store (.chunk 4192) .set),
    .client (.alloc (.byte 98) 0 0 3 0), .client (.store (.chunk 4096) .set),
    .client (.alloc (.byte 99) 0 0 3 0), .client (.store (.chunk 4384) .set),
    .client (.alloc (.byte 100) 0 0 3 0), .client (.store (.chunk 4288) .set)]

/-- **A wake-up in this expansion** counts the table of two buckets a third time over: 112 bytes, where
tables of eight and four buckets have 96. -/
theorem counters_disagree : smallExpansion.world.store.assoc.expanding = true ∧
    (smallExpansion.exec .wake).world.store.assoc.hashpower = 3 ∧
    (smallExpansion.exec .wake).world.store.stats.hashBytes = 112 ∧
    ¬ ∃ items, CountsAgree (smallExpansion.exec .wake).world.store items := by
  have hp : (smallExpansion.exec .wake).world.store.assoc.hashpower = 3 := by decide +kernel
  have he : (smallExpansion.exec .wake).world.store.assoc.expanding = true := by decide +kernel
  have hb : (smallExpansion.exec .wake).world.store.stats.hashBytes = 112 := by decide +kernel
  refine ⟨by decide +kernel, hp, hb, fun ⟨items, h⟩ => ?_⟩
  have := h.hashBytes
  rw [hb, hp, he] at this
  exact absurd this (by decide)

end Mdb
