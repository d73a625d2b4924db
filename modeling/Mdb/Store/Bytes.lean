import Mdb.Store.Cas
import Mdb.Store.Counts

/-!
# Bytes charged and credited

`DoSlabsAlloc` charges the size computed by `ItemMakeHeader` to a class, `FreeItem` credits the size
`ITEM_ntotal` reads off the header to the class in `slabs_clsid`.

* `LifeOp`, `LifeOp.exec`: what can happen in the life of an item, with or without CAS ids;
* `Keeps`: allocated items keep their size, and chunks their class; `LifeOp.keeps`;
* `Ledger`, **`bytes_balanced`**: as long as no reference count wraps, `requested` is the sum of the
  sizes of the items allocated;
* **`bytes_unbalanced`**: after a wrap it need not be.
-/

namespace Mdb

open Run

/-- An operation of the store, or a `DoItemLink` on its own. -/
inductive LifeOp where
  | op (o : Op)
  | link (it : Ptr)

namespace LifeOp

/-- **One operation.** -/
def exec (w : World) : LifeOp → World
  | .op o => (w.exec o).2
  | .link it => { w with store := w.store.doItemLink it (w.store.hv it) }

/-- The item that the operation has allocated. -/
def made (w : World) : LifeOp → Option Ptr
  | .op (.alloc key flags exptime nbytes curHv) =>
    (w.store.doItemAlloc key flags exptime nbytes curHv).1
  | _ => none

/-- **What callers see to.** Only an item that is held and whose key is not in the table is linked;
`DoStoreItem` is made of the other operations. -/
def Ok (w : World) : LifeOp → Prop
  | .op o => ¬ o.Stores ∧ o.Ok w
  | .link it => 1 ≤ w.held it ∧ w.store.assocFind (w.store.heap.key it) (w.store.hv it) = none

end LifeOp

/-- No 16-bit reference count of an allocated item is about to wrap; with the maintainer thread on, an
allocation may leave five references behind. -/
def World.Uncrowded (w : World) : Prop :=
  ∀ x, IsLive w.store.trace x → w.store.heap.refcount x + w.store.slack 5 < 65535

/-- One operation. -/
def LifeStep (w w' : World) : Prop := ∃ op : LifeOp, op.Ok w ∧ w.Uncrowded ∧ w' = op.exec w

/-- The empty store, with any settings that leave tail repair off. -/
def LifeInit (w : World) : Prop := ∃ c hash env, SlabsConfig c.settings c.limit c.num c.den ∧
  c.settings.tailRepairTime = 0 ∧ 1 ≤ c.hashpower ∧ c.hashpower ≤ 31 ∧ w = Config.world c hash env

/-- The invariant along a run, while the rebalancer has taken `m`. -/
structure World.Alive (w : World) (m : Moved) : Prop where
  inv : ∃ v refs, Inv ⟨fun _ => 0, w.store.trace, m⟩ w.store v refs ∧ ∀ x, w.held x ≤ refs x
  tailRepairTime : w.store.settings.tailRepairTime = 0

/-- Allocated items keep their size, and the chunks their class. -/
structure Keeps (s s' : Store) (made : Option Ptr) : Prop where
  ntotal : ∀ x, made ≠ some x → IsLive s'.trace x → s'.heap.ntotal x = s.heap.ntotal x
  grows : s.slabs.Grows s'.slabs

theorem Slabs.Grows.refl (sl : Slabs) : sl.Grows sl := ⟨rfl, fun _ => rfl, fun _ _ h => h⟩

theorem SameData.keeps {s s' : Store} (h : SameData s s') : Keeps s s' none :=
  ⟨fun x _ _ => h.ntotal x, h.grows⟩

theorem Heap.SameItem.ntotal {h h' : Heap} {x : Ptr} (e : h.SameItem h' x) :
    h'.ntotal x = h.ntotal x := by
  simp only [Heap.ntotal, Heap.nkey, e.key, e.suffix, e.nbytes, e.casBit]

namespace Inv

variable {b : Base} {s : Store} {v : View} {refs : Ptr → ℕ} {x : Ptr}

/-- `DoItemLink` around the table. -/
theorem doItemLink_eq (s : Store) (x : Ptr) (hv : UInt32) : ∃ c n a e st,
    s.doItemLink x hv = ((({ s.markLinked x with
      heap := { (s.markLinked x).heap with cas := c }
      casId := n, assoc := a, env := e, stats := st } : Store).doItemLinkQ x false).refcountIncr x).2 := by
  obtain ⟨c, n, hf⟩ := setFreshCas_frame (s.markLinked x) x
  obtain ⟨a, e, st, ha, -⟩ := ((s.markLinked x).setFreshCas x).assocInsert_frame x hv
  refine ⟨c, n, a, e, st, ?_⟩
  rw [Store.doItemLink, ha, hf]

theorem doItemLink_keeps (s : Store) (x : Ptr) (hv : UInt32) : Keeps s (s.doItemLink x hv) none := by
  obtain ⟨c, n, a, e, st, hs⟩ := doItemLink_eq s x hv
  rw [hs]
  refine ⟨fun y _ _ => ?_, .refl _⟩
  by_cases e : y = x
  · subst e
    simp [Heap.ntotal, Heap.nkey, Store.refcountIncr, Store.doItemLinkQ, Store.setRefcount,
      Store.markLinked, Store.setFlags, Store.setTime]
  · simp [Heap.ntotal, Heap.nkey, Store.refcountIncr, Store.doItemLinkQ, Store.setRefcount,
      Store.markLinked, Store.setFlags, Store.setTime, e]

theorem setCas_frame (s : Store) (x : Ptr) (c : UInt64) :
    ∃ cas, s.setCas x c = { s with heap := { s.heap with cas := cas } } := by
  unfold Store.setCas
  split_ifs
  · exact ⟨_, rfl⟩
  · exact ⟨_, rfl⟩

theorem get_keeps (h : Inv b s v refs) (hle : ∀ x, refs x ≤ 65534) (key : Key) :
    SameData s (s.doItemGet key (s.hash key)).2 := by
  rcases h.get_cases key fun x _ _ => hle x with ⟨s', v', he, ms⟩ | ⟨x, s', he, hit⟩
  · rw [he]; exact ms.data
  · rw [he]; exact hit.quiet.data

end Inv

/-! ## One operation -/

theorem World.Uncrowded.le {w : World} (h : w.Uncrowded) {b : Base} {v : View} {refs : Ptr → ℕ}
    (hv : Inv b w.store v refs) (x : Ptr) : refs x + w.store.slack 5 ≤ 65534 := by
  by_cases hx : v.Alloc x
  · have := h x ((hv.live x).mpr hx)
    obtain ⟨c, hc⟩ := hx
    have := (hv.alloc_ok c x hc).refcount
    omega
  · rw [hv.refs_zero x hx, Store.slack]
    split_ifs <;> decide

namespace LifeOp

variable {w : World} {m : Moved} {v : View} {refs : Ptr → ℕ}

/-- **Sizes and classes stay** through every operation. -/
theorem keeps (h : Inv ⟨fun _ => 0, w.store.trace, m⟩ w.store v refs)
    (hrep : w.store.settings.tailRepairTime = 0) {op : LifeOp} (hok : op.Ok w) (hw : w.Uncrowded) :
    Keeps w.store (op.exec w).store (op.made w) := by
  have hle := hw.le h
  have hle0 : ∀ x, refs x ≤ 65534 := fun x => by have := hle x; omega
  cases op with
  | link it => exact Inv.doItemLink_keeps w.store it (w.store.hv it)
  | op o =>
    cases o with
    | alloc key flags exptime nbytes curHv =>
      obtain ⟨refs', -, hr⟩ := h.doItemAlloc hrep key flags exptime hok.2 curHv fun x _ => hle x
      rcases hr with ⟨s', v', he, h', p⟩ | ⟨it, s', v', he, h', md, -, -⟩
      · simp only [exec, World.exec, made, he]
        exact p.data.keeps
      · simp only [exec, World.exec, made, he]
        refine ⟨fun x hne hx => ?_, md.grows⟩
        exact (md.same x (fun e => hne (by rw [e])) ((h'.live x).mp hx)).ntotal
    | fill it data cas =>
      obtain ⟨c, hs⟩ := Inv.setCas_frame (w.store.setData it data) it cas
      simp only [exec, World.exec, made]
      rw [hs]
      exact ⟨fun _ _ _ => rfl, .refl _⟩
    | store it op => exact absurd trivial hok.1
    | get key =>
      have hd := h.get_keeps hle0 key
      simp only [exec, World.exec, made]
      rcases he : w.store.doItemGet key (w.store.hash key) with ⟨_ | x, s'⟩ <;>
        rw [he] at hd <;> exact hd.keeps
    | touch key exptime =>
      have hd := h.get_keeps hle0 key
      simp only [exec, World.exec, made, Store.doItemTouch]
      rcases he : w.store.doItemGet key (w.store.hash key) with ⟨_ | x, s'⟩ <;> rw [he] at hd
      · exact hd.keeps
      · exact ⟨fun y _ _ => hd.ntotal y, hd.grows⟩
    | unlink it =>
      by_cases hx : it ∈ v.items
      · obtain ⟨v', h', d⟩ := h.doItemUnlink hx ((hle0 it).trans (by decide))
        exact d.data.keeps
      · simp only [exec, World.exec, made]
        rw [h.doItemUnlink_unlinked hok.2 hx]
        exact (SameData.refl _).keeps
    | remove it => exact (Inv.doItemRemove_sameData w.store it).1.keeps
    | update it =>
      obtain ⟨v', h', mv⟩ := h.doItemUpdate hok.2
      exact mv.data.keeps
    | pull origId curLru totalChunks doEvict curHv =>
      obtain ⟨v', refs', L, h', hp, -⟩ := h.itemLRUPullTail hrep origId curLru totalChunks doEvict
        curHv fun x _ => hle0 x
      exact hp.data.keeps
    | migrate =>
      obtain ⟨a, e, st, hs, -⟩ := w.store.migrateBucket_frame
      simp only [exec, World.exec, made]
      rw [hs]
      exact ⟨fun _ _ _ => rfl, .refl _⟩
    | tick now => exact ⟨fun _ _ _ => rfl, .refl _⟩
    | flush oldestLive oldestCas => exact ⟨fun _ _ _ => rfl, .refl _⟩
    | maintainer on => exact ⟨fun _ _ _ => rfl, .refl _⟩
    | crawlStart id remaining =>
      obtain ⟨v', h', -, hc⟩ := h.doLRUCrawlerStart hok.2 remaining
      refine ⟨fun x _ hx => ?_, ?_⟩
      · obtain ⟨a, rfl⟩ := h'.alloc_chunk ((h'.live x).mp hx)
        exact (hc.same a).ntotal
      · show w.store.slabs.Grows (w.store.doLRUCrawlerStart id remaining).2.slabs
        rw [hc.slabs]; exact .refl _
    | crawlStep i =>
      obtain ⟨v', refs', h', td, -⟩ := h.crawlStep hle0 i
      exact td.data.keeps

/-- **One operation** of a run. -/
theorem alive (h : w.Alive m) {op : LifeOp} (hok : op.Ok w) (hw : w.Uncrowded) :
    (op.exec w).Alive m := by
  obtain ⟨⟨v, refs, hv, hheld⟩, hrep⟩ := h
  cases op with
  | link it =>
    have ha : v.Alloc it := hv.alloc_of_refs (hok.1.trans (hheld it))
    have hnew := hv.new_of_find hok.2
    refine ⟨⟨_, refs, (hv.doItemLink ha hnew).rebase fun _ => Nat.zero_le _, hheld⟩, ?_⟩
    obtain ⟨c, n, a, e, st, hs⟩ := Inv.doItemLink_eq w.store it (w.store.hv it)
    simp only [exec, hs]
    exact hrep
  | op o =>
    have hv' := hv.rebase fun x => (w.heldDuring_le o x).trans (hheld x)
    obtain ⟨v', refs', h', hge, -, hs, -⟩ := World.exec_inv hv' hrep (fun e => absurd e hok.1) hok.2
      hheld (hw.le hv)
    refine ⟨⟨v', refs', h'.rebase fun _ => Nat.zero_le _, fun x => ?_⟩, hs.trans hrep⟩
    have := hge x
    have := hheld x
    show (w.exec o).2.held x ≤ _
    omega

end LifeOp

theorem LifeInit.alive {w : World} (h : LifeInit w) : w.Alive .none := by
  obtain ⟨c, hash, env, hc, hrep, hp, hp', rfl⟩ := h
  exact ⟨⟨_, _, Config.inv hc hp hp' hash env (fun _ => 0) fun _ => rfl, fun _ => le_rfl⟩, hrep⟩

/-- **Every run** keeps the invariant. -/
theorem reach_alive {w : World} (h : Reach LifeInit LifeStep w) : w.Alive .none := by
  refine h.invariant (fun _ h0 => h0.alive) ?_
  rintro w w' hw ⟨op, hok, hun, rfl⟩
  exact LifeOp.alive hw hok hun

/-! ## The sums -/

/-- **The books of the allocator**: `alloc c` are the allocated items of class `c`. -/
structure Ledger (s : Store) (alloc : ℕ → List Ptr) : Prop where
  live : ∀ x, IsLive s.trace x ↔ ∃ c, x ∈ alloc c
  nodup : ∀ c, (alloc c).Nodup
  clsid : ∀ c, ∀ x ∈ alloc c, clearLru (s.heap.slabsClsid x) = c
  requested : ∀ c, (s.slabs.slabclass c).requested.toNat = ((alloc c).map s.heap.ntotal).sum

theorem Inv.ledger {b : Base} {s : Store} {v : View} {refs : Ptr → ℕ} (h : Inv b s v refs)
    (hm : b.moved = .none) : Ledger s v.alloc where
  live := h.live
  nodup := h.alloc_nodup
  clsid c x hx := (h.alloc_ok c x hx).clsid
  requested c := by
    have := h.sum_ntotal_le c
    rw [h.counters.requested, hm]
    exact UInt64.toNat_ofNat_of_lt' (lt_of_le_of_lt this (by decide))

/-- **What is charged is credited.** In every state reached `requested` is exactly the sum of the sizes
of the allocated items of the class; a new item is charged, with or without CAS ids, what `ITEM_ntotal`
says, to the class `ITEM_clsid` says; and until it is freed neither changes. -/
theorem bytes_balanced {w : World} (h : Reach LifeInit LifeStep w) (hw : w.Uncrowded) :
    (∃ alloc, Ledger w.store alloc) ∧
    (∀ key flags exptime nbytes curHv it s', 2 ≤ nbytes →
      w.store.doItemAlloc key flags exptime nbytes curHv = (some it, s') →
        s'.heap.ntotal it = w.store.allocSize key flags nbytes ∧
        clearLru (s'.heap.slabsClsid it) =
          w.store.slabsClsid (itemMakeHeader (key.bytes.length + 1) flags nbytes)) ∧
    (∀ op : LifeOp, op.Ok w → ∀ x, IsLive w.store.trace x → IsLive (op.exec w).store.trace x →
      op.made w ≠ some x → (op.exec w).store.heap.ntotal x = w.store.heap.ntotal x ∧
        clearLru ((op.exec w).store.heap.slabsClsid x) = clearLru (w.store.heap.slabsClsid x)) := by
  have ha := reach_alive h
  obtain ⟨v, refs, hv, -⟩ := ha.inv
  refine ⟨⟨v.alloc, hv.ledger rfl⟩, fun key flags exptime nbytes curHv it s' hn he => ?_,
    fun op hok x hx hx' hne => ?_⟩
  · obtain ⟨refs', -, hr⟩ := hv.doItemAlloc ha.tailRepairTime key flags exptime hn curHv
      fun x _ => hw.le hv x
    rcases hr with ⟨s₁, v₁, he₁, -⟩ | ⟨it₁, s₁, v₁, he₁, h₁, md, -, hd⟩
    · rw [he] at he₁; cases he₁
    · rw [he] at he₁
      obtain ⟨rfl, rfl⟩ : it = it₁ ∧ s' = s₁ := by simpa using he₁
      have hset := md.globals.settings
      refine ⟨?_, ?_⟩
      · rw [hd.ntotal, Store.allocSize, Store.allocSize, hset]
      · rw [hd.clsid, Store.slabsClsid_congr md.grows.powerLargest md.grows.sizes]
  · have hk := LifeOp.keeps hv ha.tailRepairTime hok hw
    refine ⟨hk.ntotal x hne hx', ?_⟩
    obtain ⟨⟨v', refs', hv', -⟩, -⟩ := LifeOp.alive ha hok hw
    obtain ⟨c, hc⟩ := (hv.live x).mp hx
    obtain ⟨c', hc'⟩ := (hv'.live x).mp hx'
    rw [(hv.alloc_ok c x hc).clsid, (hv'.alloc_ok c' x hc').clsid]
    have hm := hk.grows.chunks c x (hv.slabs.mem_chunks.mpr (.inr (Inv.mem_taken hc)))
    exact (hv'.slabs.pages.chunks_disjoint hv'.slabs.valid
      (hv'.slabs.mem_chunks.mpr (.inr (Inv.mem_taken hc'))) hm)

/-- The small store without CAS ids. -/
def caslessWorld : World :=
  Config.world { smallConfig with settings := { smallConfig.settings with useCas := false } }
    (fun _ => 0) .willing

/-- An item is allocated there, and linked. -/
def caslessAlloc : World := (LifeOp.op (.alloc (.byte 97) 0 0 3 0)).exec caslessWorld

def caslessLink : World := (LifeOp.link (.chunk 4192)).exec caslessAlloc

/-- Without CAS ids the item is charged its 59 bytes. -/
theorem bytes_balanced_link : (caslessLink.store.slabs.slabclass 1).requested = 59 ∧
    ∃ alloc, Ledger caslessLink.store alloc := by
  have live : ∀ x, IsLive [.alloc (.chunk 4192)] x → x = .chunk 4192 := fun x hx =>
    hx.resolve_right fun e => e
  have h0 : Reach LifeInit LifeStep caslessWorld :=
    .start ⟨_, _, _, ⟨by decide, by decide, by decide, by decide, by decide, by decide, by decide⟩,
      rfl, by decide, by decide, rfl⟩
  have hun : caslessWorld.Uncrowded := fun x hx => hx.elim
  have h1 : Reach LifeInit LifeStep caslessAlloc :=
    h0.next ⟨.op (.alloc (.byte 97) 0 0 3 0), ⟨fun e => e, show 2 ≤ 3 by decide⟩, hun, rfl⟩
  have hun1 : caslessAlloc.Uncrowded := fun x hx => by
    rw [live x hx]; decide
  have h2 : Reach LifeInit LifeStep caslessLink := h1.next ⟨.link (.chunk 4192), by
    constructor <;> decide, hun1, rfl⟩
  have hun2 : caslessLink.Uncrowded := fun x hx => by
    rw [live x hx]; decide
  exact ⟨by decide, (bytes_balanced h2 hun2).1⟩

/-! ## Too many references -/

/-- One operation, whatever the reference counts. -/
def CrowdedStep (w w' : World) : Prop := ∃ op : LifeOp, op.Ok w ∧ w' = op.exec w

/-- Any number of reads that are not given back. -/
theorem reach_gets {k : Key} {x : Ptr} (n : ℕ) : ∀ {w : World}, Reach LifeInit CrowdedStep w →
    w.store.assocFind k (w.store.hash k) = some x → ¬ w.store.isDead x →
    { w.store.flags x with fetched := true, active := true } = w.store.flags x →
    Reach LifeInit CrowdedStep (w.grab x n) := by
  induction n with
  | zero =>
    intro w h _ _ _
    have : w.grab x 0 = w := by simp [World.grab, Store.setRefcount]
    rw [this]
    exact h
  | succ n ih =>
    intro w h hf hd hfl
    have h1 : Reach LifeInit CrowdedStep (w.grab x 1) := by
      refine h.next ⟨.op (.get k), ⟨fun e => e, trivial⟩, ?_⟩
      rw [LifeOp.exec, World.exec_get_again hf hd hfl]
    have h2 := ih h1 hf hd hfl
    rw [World.grab_grab, Nat.add_comm] at h2
    exact h2

theorem sum_map_le_of_subset {l m : List Ptr} (hl : l.Nodup) (hm : m.Nodup) (h : l ⊆ m)
    (f : Ptr → ℕ) : (l.map f).sum ≤ (m.map f).sum := by
  rw [← List.sum_toFinset f hl, ← List.sum_toFinset f hm]
  exact Finset.sum_le_sum_of_subset fun x hx => List.mem_toFinset.mpr (h (List.mem_toFinset.mp hx))

/-- Operations one after the other. -/
def World.live (w : World) (ops : List LifeOp) : World := ops.foldl (fun w op => op.exec w) w

/-- Callers see to their part in each of them. -/
def World.LiveOk : World → List LifeOp → Prop
  | _, [] => True
  | w, op :: ops => op.Ok w ∧ World.LiveOk (op.exec w) ops

instance : (o : Op) → Decidable o.Stores
  | .store _ _ => .isTrue trivial
  | .alloc _ _ _ _ _ | .fill _ _ _ | .get _ | .touch _ _ | .unlink _ | .remove _ | .update _
  | .pull _ _ _ _ _ | .migrate | .tick _ | .flush _ _ | .maintainer _ | .crawlStart _ _
  | .crawlStep _ => .isFalse fun h => h

instance (w : World) : (op : LifeOp) → Decidable (op.Ok w)
  | .op o => inferInstanceAs (Decidable (¬ o.Stores ∧ o.Ok w))
  | .link _ => inferInstanceAs (Decidable (_ ∧ _ = none))

instance instDecidableLiveOk (ops : List LifeOp) : (w : World) → Decidable (w.LiveOk ops) :=
  match ops with
  | [] => fun _ => .isTrue trivial
  | op :: ops => fun w =>
    have : Decidable (World.LiveOk (op.exec w) ops) := instDecidableLiveOk ops _
    inferInstanceAs (Decidable (op.Ok w ∧ World.LiveOk (op.exec w) ops))

theorem reach_live {w : World} (h : Reach LifeInit CrowdedStep w) (ops : List LifeOp)
    (hok : w.LiveOk ops) : Reach LifeInit CrowdedStep (w.live ops) := by
  induction ops generalizing w with
  | nil => exact h
  | cons op ops ih => exact ih (h.next ⟨op, hok.1, rfl⟩) hok.2

/-- Three items are linked one behind the other, and the first one is fetched. -/
def threeLinked : World := caslessWorld.live
  [.op (.alloc (.byte 97) 0 0 3 0), .link (.chunk 4192), .op (.alloc (.byte 98) 0 0 3 0),
    .link (.chunk 4096), .op (.alloc (.byte 99) 0 0 3 0), .link (.chunk 4384), .op (.get (.byte 97))]

/-- After 65534 more fetches a release frees it, still linked; unlinking the second item then puts the
third one on the freelist behind it, and two allocations take both. -/
def crowded : World := (threeLinked.grab (.chunk 4192) 65534).live
  [.op (.remove (.chunk 4192)), .op (.unlink (.chunk 4096)), .op (.alloc (.byte 100) 0 0 3 0),
    .op (.alloc (.byte 101) 0 0 3 0)]

theorem reach_threeLinked : Reach LifeInit CrowdedStep threeLinked := by
  have h0 : Reach LifeInit CrowdedStep caslessWorld :=
    .start ⟨_, _, _, ⟨by decide, by decide, by decide, by decide, by decide, by decide, by decide⟩,
      rfl, by decide, by decide, rfl⟩
  exact reach_live h0 _ (by decide +kernel)

theorem reach_crowded : Reach LifeInit CrowdedStep crowded := by
  have h0 := reach_gets (k := .byte 97) (x := .chunk 4192) 65534 reach_threeLinked
    (by decide +kernel) (by decide +kernel) (by decide +kernel)
  exact reach_live h0 _ (by decide +kernel)

/-- The books are wrong if more is charged than all items that may be allocated have. -/
theorem not_ledger {s : Store} {m : List Ptr} (hm : m.Nodup) (hlive : ∀ x, IsLive s.trace x → x ∈ m)
    {c : ℕ} (hlt : (m.map s.heap.ntotal).sum < (s.slabs.slabclass c).requested.toNat) :
    ¬ ∃ alloc, Ledger s alloc := by
  rintro ⟨alloc, h⟩
  have hsub : alloc c ⊆ m := fun x hx => hlive x ((h.live x).mpr ⟨c, hx⟩)
  have hsum := sum_map_le_of_subset (h.nodup c) hm hsub s.heap.ntotal
  rw [← h.requested c] at hsum
  exact absurd hsum (not_le.mpr hlt)

theorem crowded_live {t : List MemEvent} (ht : t = [.alloc (.chunk 4384), .alloc (.chunk 4192),
      .free (.chunk 4192) true, .alloc (.chunk 4384), .alloc (.chunk 4096), .alloc (.chunk 4192)])
    (x : Ptr) (hx : IsLive t x) : x ∈ [Ptr.chunk 4192, .chunk 4096, .chunk 4384] := by
  subst ht
  simp only [IsLive] at hx
  simp only [List.mem_cons, List.not_mem_nil, or_false]
  tauto

/-- **Without a bound on the references the books are wrong**: three items of 59 bytes are allocated,
236 are charged. -/
theorem bytes_unbalanced : Reach LifeInit CrowdedStep crowded ∧
    (crowded.store.slabs.slabclass 1).requested = 236 ∧
    ¬ ∃ alloc, Ledger crowded.store alloc :=
  ⟨reach_crowded, by decide +kernel,
    not_ledger (c := 1) (by decide) (crowded_live (by decide +kernel)) (by decide +kernel)⟩

end Mdb
